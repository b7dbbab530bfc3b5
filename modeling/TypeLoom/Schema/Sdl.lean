import TypeLoom.Schema.Definition
import TypeLoom.Text.Blank

/-!
# Schema definitions as text

Prints values, types and definitions in the schema language. Definitions are separated by an empty
line and bodies are indented by two spaces. Descriptions stand on a line of their own before types,
fields and directive definitions, and inline before arguments, input fields and enum values. A text
with a line feed is written between triple quotes, indented one step further than its
surroundings, unless it has a character that only an escape can write.
-/

namespace TypeLoom.Schema.Sdl

def spaces (n : Nat) : String := String.ofList (List.replicate n ' ')

/-- The width of one step of indentation. -/
def step : Nat := 2

/-- Characters that may stand in a text without an escape by number. -/
def isPlain (c : Char) : Bool :=
  c == '\r' || c == '\n' || c == '\t' || (0x20 ≤ c.toNat && c.toNat ≤ 0xFFFF)

def padded (n : Nat) : List Char :=
  let digits := Nat.toDigits 10 n
  List.replicate (4 - digits.length) '0' ++ digits

def escape (c : Char) : List Char :=
  match c with
  | '\r' => ['\\', 'r']
  | '\n' => ['\\', 'n']
  | '\t' => ['\\', 't']
  | '"' => ['\\', '"']
  | '\\' => ['\\', '\\']
  | c => if isPlain c then [c] else '\\' :: 'u' :: padded c.toNat

/-- The text with three quotes in a row written `\"""`. -/
def escapeTriple : List Char → List Char
  | '"' :: '"' :: '"' :: cs => '\\' :: '"' :: '"' :: '"' :: escapeTriple cs
  | c :: cs => c :: escapeTriple cs
  | [] => []

def blockLine (indent : Nat) (line : List Char) : String :=
  if line.all Text.isBlank then "\n"
  else spaces (indent + step) ++ String.ofList (escapeTriple line) ++ "\n"

/-- A text as a string token, in surroundings indented by `indent`. -/
def quoted (indent : Nat) (s : String) : String :=
  let cs := s.toList
  if !cs.contains '\n' || !cs.all isPlain then
    "\"" ++ String.ofList (cs.flatMap escape) ++ "\""
  else
    "\"\"\"\n" ++ String.join ((Text.lines cs).map (blockLine indent)) ++ spaces indent ++
      "\"\"\""

mutual

def value (indent : Nat) : Value → String
  | .variable n => "$" ++ n
  | .int n => toString n
  | .float x => x.text
  | .string s => quoted indent s
  | .boolean b => if b then "true" else "false"
  | .null => "null"
  | .enum n => n
  | .list items => "[" ++ ", ".intercalate (values indent items) ++ "]"
  | .object entries => "\x7b" ++ ", ".intercalate (entryTexts indent entries) ++ "\x7d"

def values (indent : Nat) : List Value → List String
  | [] => []
  | v :: vs => value indent v :: values indent vs

def entryTexts (indent : Nat) : List (String × Value) → List String
  | [] => []
  | (k, v) :: es => (k ++ ": " ++ value indent v) :: entryTexts indent es

end

def typeRef : TypeRef → String
  | .named n => n
  | .list t => "[" ++ typeRef t ++ "]"
  | .nonNull t => typeRef t ++ "!"

/-- Items in brackets, or nothing when there are none. -/
def parenthesised (items : List String) : String :=
  if items.isEmpty then "" else "(" ++ ", ".intercalate items ++ ")"

def directive (indent : Nat) (d : Directive) : String :=
  " @" ++ d.name ++ parenthesised (entryTexts indent d.arguments)

def directives (indent : Nat) (ds : List Directive) : String :=
  String.join (ds.map (directive indent))

def inlineDescription (indent : Nat) : Option String → String
  | none => ""
  | some s => quoted indent s ++ " "

def descriptionLine (indent : Nat) : Option String → String
  | none => ""
  | some s => spaces indent ++ quoted indent s ++ "\n"

def inputValue (indent : Nat) (v : InputValue) : String :=
  inlineDescription indent v.description ++ v.name ++ ": " ++ typeRef v.type ++
    (v.default.elim "" fun d => " = " ++ value indent d) ++ directives indent v.directives

def arguments (indent : Nat) (vs : List InputValue) : String :=
  parenthesised (vs.map (inputValue indent))

def field (indent : Nat) (f : Field) : String :=
  descriptionLine indent f.description ++ spaces indent ++ f.name ++ arguments indent f.arguments ++
    ": " ++ typeRef f.type ++ directives indent f.directives ++ "\n"

def inputField (indent : Nat) (v : InputValue) : String :=
  spaces indent ++ inputValue indent v ++ "\n"

def enumValue (indent : Nat) (v : EnumValue) : String :=
  spaces indent ++ inlineDescription indent v.description ++ v.name ++
    directives indent v.directives ++ "\n"

/-- A body in braces after a header, or the end of the header's line when it has no entries. -/
def body (entries : List String) : String :=
  if entries.isEmpty then "\n" else " \x7b\n" ++ String.join entries ++ "\x7d\n"

def listed (opening separator : String) (names : List String) : String :=
  if names.isEmpty then "" else opening ++ separator.intercalate names

def typeKeyword : TypeBody → String
  | .scalar => "scalar"
  | .object .. => "type"
  | .interface .. => "interface"
  | .union _ => "union"
  | .enum _ => "enum"
  | .input _ => "input"

/-- A type from its keyword on. -/
def typeText (t : TypeDeclaration) : String :=
  let header := typeKeyword t.body ++ " " ++ t.name
  let ds := directives 0 t.directives
  match t.body with
  | .scalar => header ++ ds ++ "\n"
  | .object interfaces fields | .interface interfaces fields =>
    header ++ listed " implements " " & " interfaces ++ ds ++ body (fields.map (field step))
  | .union members => header ++ ds ++ listed " = " " | " members ++ "\n"
  | .enum values => header ++ ds ++ body (values.map (enumValue step))
  | .input fields => header ++ ds ++ body (fields.map (inputField step))

def operationLine (operation : String) : Option String → String
  | none => ""
  | some n => spaces step ++ operation ++ ": " ++ n ++ "\n"

def definition : Definition → String
  | .schema b =>
    "schema" ++ directives 0 b.directives ++ " \x7b\n" ++ operationLine "query" b.query ++
      operationLine "mutation" b.mutation ++ operationLine "subscription" b.subscription ++ "\x7d\n"
  | .directive d =>
    descriptionLine 0 d.description ++ "directive @" ++ d.name ++ arguments 0 d.arguments ++
      (if d.repeatable then " repeatable" else "") ++ listed " on " " | " d.locations ++ "\n"
  | .type t => descriptionLine 0 t.description ++ typeText t
  | .extension t => "extend " ++ typeText t

/-- A list of definitions with an empty line between them. -/
def definitions (ds : List Definition) : String := "\n".intercalate (ds.map definition)

end TypeLoom.Schema.Sdl
