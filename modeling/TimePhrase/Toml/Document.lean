import TimePhrase.Toml.Number

/-!
# Reading a document

A document is a row of statements, each on a line of its own: a key with its value, the
header of a table, or the header of one more table of an array. A table can be opened only
once, and what was written as one value cannot be added to.
-/

namespace TimePhrase.Toml

mutual

/-- Takes a value off a text. -/
def takeValue : Nat → List Char → Except Fault (Value × List Char)
  | 0, _ => malformed
  | fuel + 1, cs =>
    match cs with
    | '"' :: _ | '\'' :: _ => do
      let (content, rest) ← takeString cs
      return (.text content, rest)
    | 't' :: 'r' :: 'u' :: 'e' :: rest => .ok (.boolean true, rest)
    | 'f' :: 'a' :: 'l' :: 's' :: 'e' :: rest => .ok (.boolean false, rest)
    | '[' :: rest => do
      let (items, rest) ← takeItems fuel (← skipLines rest.length rest)
      return (.array items, rest)
    | '\x7b' :: rest => do
      let (entries, rest) ← match skipBlanks rest with
        | '\x7d' :: rest => pure ([], rest)
        | rest => takeEntries fuel [] [] rest
      return (.table entries, rest)
    | _ => takeScalar cs

/-- Takes the items of an array off a text, up to its closing bracket. A comma may follow the
last item. -/
def takeItems : Nat → List Char → Except Fault (List Value × List Char)
  | 0, _ => malformed
  | fuel + 1, cs =>
    match cs with
    | ']' :: rest => .ok ([], rest)
    | _ => do
      let (item, rest) ← takeValue fuel cs
      match ← skipLines rest.length rest with
      | ']' :: rest => return ([item], rest)
      | ',' :: rest => do
        let (items, rest) ← takeItems fuel (← skipLines rest.length rest)
        return (item :: items, rest)
      | _ => malformed

/-- Takes the entries of a table in braces off a text, up to its closing brace. No comma follows
the last entry. `frozen` holds the keys whose values cannot be added to. -/
def takeEntries : Nat → List (List String) → Table → List Char → Except Fault (Table × List Char)
  | 0, _, _, _ => malformed
  | fuel + 1, frozen, table, cs => do
    let (key, rest) ← takeKey cs.length cs
    match rest with
    | '=' :: rest => do
      let (value, rest) ← takeValue fuel (skipBlanks rest)
      if frozen.any (·.isPrefixOf key) then malformed
      match table.add? false key.dropLast (key.getLastD "") value with
      | none => malformed
      | some table =>
        match skipBlanks rest with
        | '\x7d' :: rest => return (table, rest)
        | ',' :: rest =>
          let frozen := if value.isNested then key :: frozen else frozen
          takeEntries fuel frozen table (skipBlanks rest)
        | _ => malformed
    | _ => malformed

end

/-- What has been read of a document. -/
structure Document where
  content : Table
  /-- The table that keys are put into. -/
  header : List String
  /-- The tables that cannot be opened again. -/
  opened : List (List String)
  /-- The tables that cannot be opened once the next header has come. -/
  pending : List (List String)
  /-- The keys whose values cannot be added to. -/
  frozen : List (List String)

namespace Document

/-- The document without statements. -/
def empty : Document := ⟨[], [], [], [], []⟩

/-- The table lies in a value that cannot be added to. -/
def isFrozen (d : Document) (path : List String) : Bool := d.frozen.any (·.isPrefixOf path)

/-- The tables that a key with points names on its way, below the header. -/
def tablesOnWay (d : Document) (key : List String) : List (List String) :=
  (List.range (key.length - 1)).map fun i => d.header ++ key.take (i + 1)

/-- Adds a key with its value. -/
def put (d : Document) (key : List String) (value : Value) : Except Fault Document :=
  let onWay := d.tablesOnWay key
  let table := d.header ++ key.dropLast
  if onWay.any d.opened.contains || d.isFrozen table then malformed
  else
    match d.content.add? true table (key.getLastD "") value with
    | none => malformed
    | some content =>
      let frozen := if value.isNested then (d.header ++ key) :: d.frozen else d.frozen
      .ok { d with content, frozen, pending := onWay ++ d.pending }

/-- Closes the table that keys were put into. -/
def close (d : Document) : Document := { d with opened := d.pending ++ d.opened, pending := [] }

/-- Opens a table. -/
def openTable (d : Document) (path : List String) : Except Fault Document :=
  if d.opened.contains path || d.isFrozen path then malformed
  else
    match d.content.modify? true some path with
    | none => malformed
    | some content => .ok { d with content, header := path, opened := path :: d.opened }

/-- Opens one more table of an array. What was said of the table before holds no longer. -/
def openElement (d : Document) (path : List String) : Except Fault Document :=
  if d.isFrozen path then malformed
  else
    match d.content.addElement? path.dropLast (path.getLastD "") with
    | none => malformed
    | some content =>
      .ok { d with
        content, header := path
        opened := path :: d.opened.filter (!path.isPrefixOf ·)
        frozen := d.frozen.filter (!path.isPrefixOf ·) }

/-- Reads one statement. -/
def statement (d : Document) (cs : List Char) : Except Fault (Document × List Char) :=
  match cs with
  | '[' :: '[' :: rest => do
    let (path, rest) ← takeKey rest.length (skipBlanks rest)
    match rest with
    | ']' :: ']' :: rest => return (← d.close.openElement path, rest)
    | _ => malformed
  | '[' :: rest => do
    let (path, rest) ← takeKey rest.length (skipBlanks rest)
    match rest with
    | ']' :: rest => return (← d.close.openTable path, rest)
    | _ => malformed
  | c :: _ =>
    if isKeyStart c then do
      let (key, rest) ← takeKey cs.length cs
      match rest with
      | '=' :: rest => do
        let (value, rest) ← takeValue (2 * rest.length + 2) (skipBlanks rest)
        return (← d.put key value, rest)
      | _ => malformed
    else .ok (d, cs)
  | [] => .ok (d, [])

/-- Reads statements up to the end of the text. -/
def statements (d : Document) : Nat → List Char → Except Fault Document
  | 0, _ => .ok d
  | fuel + 1, cs => do
    let (d, rest) ← d.statement (skipBlanks cs)
    match ← skipComment (skipBlanks rest) with
    | [] => return d
    | '\n' :: rest => d.statements fuel rest
    | _ => malformed

end Document

/-- A carriage return before the end of a line belongs to the end of the line. -/
def unifyLineEnds : List Char → List Char
  | '\r' :: '\n' :: rest => '\n' :: unifyLineEnds rest
  | c :: rest => c :: unifyLineEnds rest
  | [] => []

/-- The table that a document describes. -/
def read (text : String) : Except Fault Table := do
  let cs := unifyLineEnds text.toList
  let d ← Document.empty.statements (cs.length + 1) cs
  return d.content

end TimePhrase.Toml
