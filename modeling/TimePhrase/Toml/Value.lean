/-!
# Values of a settings document

The values that a document in the TOML format gives to its keys, and tables of them in the
order in which they were written.
-/

namespace TimePhrase.Toml

/-- A value of a document. -/
inductive Value
  | text (content : String)
  | integer (n : Int)
  | float (x : Float)
  | boolean (b : Bool)
  /-- A date or a time of day, or nothing at all: what no setting can be. -/
  | other
  | array (items : List Value)
  | table (entries : List (String × Value))

instance : Inhabited Value := ⟨.other⟩

/-- A table: its keys with their values. -/
abbrev Table := List (String × Value)

/-- What is wrong with a document. -/
inductive Fault
  | malformed
  /-- A decimal number with more digits than are read. -/
  | numberTooLong (digits : Nat)
deriving DecidableEq

/-- The value is a table or an array. -/
def Value.isNested : Value → Bool
  | .array _ | .table _ => true
  | _ => false

namespace Table

/-- The value of a key. -/
def get? (t : Table) (key : String) : Option Value :=
  (t.find? (·.1 = key)).map (·.2)

/-- Gives a key another value. A new key comes last. -/
def set (key : String) (value : Value) : Table → Table
  | [] => [(key, value)]
  | (k, v) :: rest => if k = key then (k, value) :: rest else (k, v) :: set key value rest

/-- Changes the table at the end of a path of keys, making the tables on the way that do not
exist. If `enterArrays` is set, an array on the way stands for its last table. -/
def modify? (enterArrays : Bool) (change : Table → Option Table) :
    List String → Table → Option Table
  | [], t => change t
  | key :: path, t =>
    match t.get? key with
    | none => do return t.set key (.table (← modify? enterArrays change path []))
    | some (.table inner) => do
      return t.set key (.table (← modify? enterArrays change path inner))
    | some (.array items) =>
      match enterArrays, items.getLast? with
      | true, some (.table inner) => do
        let inner ← modify? enterArrays change path inner
        return t.set key (.array (items.dropLast ++ [.table inner]))
      | _, _ => none
    | some _ => none

/-- Adds a value to the table at the end of a path, which may not have the key yet. -/
def add? (enterArrays : Bool) (path : List String) (key : String) (value : Value) (t : Table) :
    Option Table :=
  modify? enterArrays (fun inner =>
    if (inner.get? key).isSome then none else some (inner.set key value)) path t

/-- Adds an empty table to the array under a key of the table at the end of a path. -/
def addElement? (path : List String) (key : String) (t : Table) : Option Table :=
  modify? true (fun inner =>
    match inner.get? key with
    | none => some (inner.set key (.array [.table []]))
    | some (.array items) => some (inner.set key (.array (items ++ [.table []])))
    | some _ => none) path t

end Table

end TimePhrase.Toml
