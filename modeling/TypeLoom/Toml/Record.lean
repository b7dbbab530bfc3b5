import TypeLoom.Text.Escaped
import TypeLoom.Toml.Value

/-!
# Records

A plugin reads its settings as a record: a table with known keys or, in their order, an array of
the fields' values. Keys are looked at in ascending order and the first offending one is reported,
before a missing one.
-/

namespace TypeLoom.Toml

/-- The key under which a date or time counts as a table. -/
def datetimeKey : String := "$__toml_private_datetime"

/-- The entries of a value that can stand for a table. -/
def Value.entries? : Value → Option (List (String × Value))
  | .table es => some es
  | .datetime d => some [(datetimeKey, .string d.text)]
  | _ => none

/-- A value as a message names it. A float without decimal places is shown with one. -/
def Value.describe : Value → String
  | .string s => "string " ++ Text.escaped s
  | .integer n => "integer `" ++ toString n ++ "`"
  | .float x =>
    let digits := x.text
    let whole := digits.toList.all fun c => c.isDigit || c == '-'
    "floating point `" ++ digits ++ (if whole then ".0" else "") ++ "`"
  | .boolean b => "boolean `" ++ (if b then "true" else "false") ++ "`"
  | .array _ => "sequence"
  | .datetime _ | .table _ => "map"

/-- How a value differs from what is read. -/
inductive Mismatch where
  | type (found expected : String)
  | unknownField (name : String) (expected : List String)
  | missingField (name : String)
  | length (found : Nat) (expected : String)
  deriving DecidableEq, Inhabited, Repr

def quotedName (name : String) : String := "`" ++ name ++ "`"

/-- The alternatives to an unknown name. -/
def alternatives : List String → String
  | [] => "there are no fields"
  | [a] => "expected " ++ quotedName a
  | [a, b] => "expected " ++ quotedName a ++ " or " ++ quotedName b
  | names => "expected one of " ++ ", ".intercalate (names.map quotedName)

def Mismatch.message : Mismatch → String
  | .type found expected => "invalid type: " ++ found ++ ", expected " ++ expected
  | .unknownField name expected =>
    "unknown field " ++ quotedName name ++ ", " ++ alternatives expected
  | .missingField name => "missing field " ++ quotedName name
  | .length n expected => s!"invalid length {n}, expected " ++ expected

/-- What a field holds. -/
inductive FieldKind where
  | path
  | text
  | texts
  deriving DecidableEq, Inhabited, Repr

structure FieldShape where
  name : String
  kind : FieldKind
  required : Bool
  deriving DecidableEq, Inhabited, Repr

structure RecordShape where
  name : String
  fields : List FieldShape
  deriving DecidableEq, Inhabited, Repr

def mismatch (v : Value) (expected : String) : Mismatch := .type v.describe expected

def checkText (expected : String) : Value → Except Mismatch Unit
  | .string _ => .ok ()
  | v => .error (mismatch v expected)

def FieldKind.check : FieldKind → Value → Except Mismatch Unit
  | .path, v => checkText "path string" v
  | .text, v => checkText "a string" v
  | .texts, .array items => items.forM (checkText "a string")
  | .texts, v => .error (mismatch v "a sequence")

namespace RecordShape

def checkEntry (shape : RecordShape) (entry : String × Value) : Except Mismatch Unit :=
  match shape.fields.find? (·.name == entry.1) with
  | some f => f.kind.check entry.2
  | none => .error (.unknownField entry.1 (shape.fields.map (·.name)))

/-- Checks that a required field is among the entries. -/
def checkPresent (entries : List (String × Value)) (f : FieldShape) : Except Mismatch Unit :=
  if f.required && (entries.lookup f.name).isNone then .error (.missingField f.name) else .ok ()

def ofEntries (shape : RecordShape) (entries : List (String × Value)) :
    Except Mismatch (List (String × Value)) := do
  (byKey entries).forM shape.checkEntry
  shape.fields.forM (checkPresent entries)
  return entries

/-- The fields of an array that has one item for each. -/
def ofItems (shape : RecordShape) (items : List Value) :
    Except Mismatch (List (String × Value)) := do
  let pairs := shape.fields.zip items
  pairs.forM fun (f, v) => f.kind.check v
  if items.length < shape.fields.length then
    .error (.length items.length s!"struct {shape.name} with {shape.fields.length} elements")
  else if shape.fields.length < items.length then
    .error (.length items.length "fewer elements in array")
  else
    return pairs.map fun (f, v) => (f.name, v)

/-- Reads a value as a record: its fields by name, each of its kind. -/
def read (shape : RecordShape) (v : Value) : Except Mismatch (List (String × Value)) :=
  match v with
  | .array items => shape.ofItems items
  | v =>
    match v.entries? with
    | some entries => shape.ofEntries entries
    | none => .error (mismatch v ("struct " ++ shape.name))

end RecordShape

/-- The text of a field. -/
def text? (entries : List (String × Value)) (name : String) : Option String :=
  match entries.lookup name with
  | some (.string s) => some s
  | _ => none

/-- The texts of a field. -/
def texts? (entries : List (String × Value)) (name : String) : Option (List String) :=
  match entries.lookup name with
  | some (.array items) => some (items.filterMap fun | .string s => some s | _ => none)
  | _ => none

end TypeLoom.Toml
