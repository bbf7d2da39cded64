import TimePhrase.Error

/-!
# Paths of files

A path is a row of names behind an optional root. Empty names and single dots are dropped
when a path is read, double dots are kept.
-/

namespace TimePhrase

/-- A path in the file system. -/
structure Path where
  /-- One slash, or two of them for a root of its own kind. A relative path has none. -/
  root : String
  names : List String
deriving DecidableEq

namespace Path

/-- Reads a path. Three and more slashes in front count as one. -/
def ofText (text : String) : Path where
  root :=
    match (text.toList.takeWhile (· = '/')).length with
    | 0 => ""
    | 2 => "//"
    | _ => "/"
  names := (text.splitOn "/").filter fun name => name ≠ "" ∧ name ≠ "."

/-- The path in writing, a single dot when it leads nowhere. -/
def text (p : Path) : String :=
  if p.root = "" ∧ p.names = [] then "." else p.root ++ "/".intercalate p.names

def isAbsolute (p : Path) : Bool := p.root ≠ ""

/-- The path that leads from the end of one path along another. -/
def join (p q : Path) : Path :=
  if q.isAbsolute then q else { p with names := p.names ++ q.names }

/-- The path one name further. -/
def child (p : Path) (name : String) : Path := { p with names := p.names ++ [name] }

/-- Drops each double dot together with the name before it. -/
def dropParents (before : List String) : List String → List String
  | [] => before.reverse
  | name :: rest =>
    if name = ".." then dropParents before.tail rest else dropParents (name :: before) rest

/-- The same place without double dots. -/
def resolved (p : Path) : Path := { p with names := dropParents [] p.names }

/-- The path leads to a place inside the directory. -/
def isInside (p directory : Path) : Bool :=
  let names := p.resolved.names
  p.root = directory.root && directory.names.isPrefixOf names && names ≠ directory.names

/-- A relative path that starts with a tilde starts in the home directory of the user. The home
directories of other users are not known. -/
def expandHome (userHome : String) (p : Path) : Except Failure Path :=
  match p.root, p.names with
  | "", first :: rest =>
    if !first.startsWith "~" then .ok p
    else if first ≠ "~" ∨ userHome.startsWith "~" then .error .noHomeDirectory
    else
      let home := if (userHome.toList.all (· = '/')) then ofText "/" else ofText userHome
      .ok { home with names := home.names ++ rest }
  | _, _ => .ok p

end Path

end TimePhrase
