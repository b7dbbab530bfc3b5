import TypeLoom.Schema.Definition
import TypeLoom.Schema.Token

/-!
# Reading definitions from tokens

A reader of the schema language that decides on the next token alone. A failure is the position of
the first token that cannot continue, with two exceptions that are found once the whole definition
is read: a `schema` block that names an operation twice or one that does not exist fails at its
keyword, and an extension that adds nothing fails at the keyword after `extend`.

Nested types and values consume a token at each level, so the number of tokens is fuel enough.
-/

namespace TypeLoom.Schema.Reading

abbrev Reader := StateT (List Token) (Except Position)

def peek : Reader Token := do
  match ← get with
  | t :: _ => return t
  | [] => return ⟨.endOfText, ⟨1, 1⟩⟩

def advance : Reader Unit := modify (·.drop 1)

/-- Fails at the next token. -/
def fail {α : Type} : Reader α := do throw (← peek).position

def isNext (l : Lexeme) : Reader Bool := do return (← peek).lexeme == l

/-- Reads a given lexeme if it comes next, and tells whether it did. -/
def accept (l : Lexeme) : Reader Bool := do
  if ← isNext l then
    advance
    return true
  else return false

def expect (l : Lexeme) : Reader Unit := do
  if ← accept l then return else fail

def punctuator (text : String) : Reader Unit := expect (.punctuator text)

def name : Reader String := do
  match (← peek).lexeme with
  | .name n => advance; return n
  | _ => fail

/-- Reads items as long as `more` holds of the next token. -/
def manyWithin {α : Type} (more : Lexeme → Bool) (item : Reader α) : Nat → Reader (List α)
  | 0 => return []
  | fuel + 1 => do
    if more (← peek).lexeme then
      let x ← item
      let xs ← manyWithin more item fuel
      return x :: xs
    else return []

def many {α : Type} (more : Lexeme → Bool) (item : Reader α) : Reader (List α) := do
  manyWithin more item (← get).length

/-- One item, then more of them. -/
def many1 {α : Type} (more : Lexeme → Bool) (item : Reader α) : Reader (List α) := do
  let x ← item
  let xs ← many more item
  return x :: xs

def isName : Lexeme → Bool
  | .name _ => true
  | _ => false

def isString : Lexeme → Bool
  | .string _ => true
  | _ => false

/-- Names, and strings that can describe what follows them. -/
def startsEntry (l : Lexeme) : Bool := isName l || isString l

/-- Entries in brackets. -/
def enclosed {α : Type} (opening closing : String) (entries : Reader α) : Reader α := do
  punctuator opening
  let xs ← entries
  punctuator closing
  return xs

/-- Entries in brackets, if the opening bracket comes next. -/
def optionally {α : Type} (opening closing : String) (entries : Reader (List α)) :
    Reader (List α) := do
  if ← isNext (.punctuator opening) then enclosed opening closing entries else return []

/-- Keeps entries by ascending key, the last one of each key. -/
def insertEntry {α : Type} (key : String) (value : α) : List (String × α) → List (String × α)
  | [] => [(key, value)]
  | (k, v) :: rest =>
    if key < k then (key, value) :: (k, v) :: rest
    else if key == k then (key, value) :: rest
    else (k, v) :: insertEntry key value rest

def sortedEntries {α : Type} (entries : List (String × α)) : List (String × α) :=
  entries.foldl (fun acc (k, v) => insertEntry k v acc) []

def startsValue (withVariables : Bool) : Lexeme → Bool
  | .name _ | .int _ | .float _ | .string _ => true
  | .punctuator p => p == "[" || p == "\x7b" || (withVariables && p == "$")
  | _ => false

def nameValue : String → Value
  | "true" => .boolean true
  | "false" => .boolean false
  | "null" => .null
  | n => .enum n

def valueWithin (withVariables : Bool) : Nat → Reader Value
  | 0 => fail
  | fuel + 1 => do
    match (← peek).lexeme with
    | .name n => advance; return nameValue n
    | .int n => advance; return .int n
    | .float x => advance; return .float x
    | .string s => advance; return .string s
    | .punctuator "$" => if withVariables then advance; return .variable (← name) else fail
    | .punctuator "[" =>
      let item := valueWithin withVariables fuel
      let items ← enclosed "[" "]" (many (startsValue withVariables) item)
      return .list items
    | .punctuator "\x7b" =>
      let entry : Reader (String × Value) := do
        let key ← name
        punctuator ":"
        return (key, ← valueWithin withVariables fuel)
      let entries ← enclosed "\x7b" "\x7d" (many isName entry)
      return .object (sortedEntries entries)
    | _ => fail

/-- A value; variables are allowed in the arguments of directives only. -/
def value (withVariables : Bool) : Reader Value := do valueWithin withVariables (← get).length

def typeRefWithin : Nat → Reader TypeRef
  | 0 => fail
  | fuel + 1 => do
    let inner ← do
      if ← isNext (.punctuator "[") then
        let item ← enclosed "[" "]" (typeRefWithin fuel)
        pure (TypeRef.list item)
      else pure (TypeRef.named (← name))
    if ← accept (.punctuator "!") then return .nonNull inner else return inner

def typeRef : Reader TypeRef := do typeRefWithin (← get).length

def directiveArgument : Reader (String × Value) := do
  let n ← name
  punctuator ":"
  return (n, ← value true)

def directive : Reader Directive := do
  let position := (← peek).position
  punctuator "@"
  let n ← name
  let arguments ← optionally "(" ")" (many1 isName directiveArgument)
  return { position, name := n, arguments }

def directives : Reader (List Directive) := many (· == .punctuator "@") directive

def description : Reader (Option String) := do
  match (← peek).lexeme with
  | .string s => advance; return some s
  | _ => return none

def inputValue : Reader InputValue := do
  let position := (← peek).position
  let description ← description
  let n ← name
  punctuator ":"
  let type ← typeRef
  let default ← if ← accept (.punctuator "=") then pure (some (← value false)) else pure none
  return { position, description, name := n, type, default, directives := ← directives }

def arguments : Reader (List InputValue) := optionally "(" ")" (many1 startsEntry inputValue)

def field : Reader Field := do
  let position := (← peek).position
  let description ← description
  let n ← name
  let arguments ← arguments
  punctuator ":"
  let type ← typeRef
  return { position, description, name := n, arguments, type, directives := ← directives }

def fields : Reader (List Field) := optionally "\x7b" "\x7d" (many1 startsEntry field)

def inputFields : Reader (List InputValue) :=
  optionally "\x7b" "\x7d" (many1 startsEntry inputValue)

def enumValue : Reader EnumValue := do
  let position := (← peek).position
  let description ← description
  let n ← name
  return { position, description, name := n, directives := ← directives }

/-- One or more names with a separator between them, which may also stand first. -/
def separatedNames (separator : String) (item : Reader String) : Reader (List String) := do
  let _ ← accept (.punctuator separator)
  let first ← item
  let rest ← many (· == .punctuator separator) (do punctuator separator; item)
  return first :: rest

def interfaces : Reader (List String) := do
  if ← accept (.name "implements") then separatedNames "&" name else return []

def unionMembers : Reader (List String) := do
  if ← accept (.punctuator "=") then separatedNames "|" name else return []

/-- The places a directive may be declared for. -/
def directiveLocations : List String :=
  ["QUERY", "MUTATION", "SUBSCRIPTION", "FIELD", "FRAGMENT_DEFINITION", "FRAGMENT_SPREAD",
    "INLINE_FRAGMENT", "VARIABLE_DEFINITION", "SCHEMA", "SCALAR", "OBJECT", "FIELD_DEFINITION",
    "ARGUMENT_DEFINITION", "INTERFACE", "UNION", "ENUM", "ENUM_VALUE", "INPUT_OBJECT",
    "INPUT_FIELD_DEFINITION"]

def directiveLocation : Reader String := do
  match (← peek).lexeme with
  | .name n => if directiveLocations.contains n then advance; return n else fail
  | _ => fail

def locations : Reader (List String) := do
  let _ ← accept (.punctuator "|")
  if isName (← peek).lexeme then
    let first ← directiveLocation
    let rest ← many (· == .punctuator "|") (do punctuator "|"; directiveLocation)
    return first :: rest
  else return []

def directiveDefinition (position : Position) (description : Option String) :
    Reader DirectiveDefinition := do
  punctuator "@"
  let n ← name
  let arguments ← arguments
  let repeatable ← accept (.name "repeatable")
  expect (.name "on")
  return { position, description, name := n, arguments, repeatable, locations := ← locations }

/-- The keywords that start a type. -/
def isTypeKeyword (keyword : String) : Bool :=
  ["scalar", "type", "interface", "union", "enum", "input"].contains keyword

/-- What follows the keyword of a type. -/
def typeDeclaration (position : Position) (description : Option String) (keyword : String) :
    Reader TypeDeclaration := do
  let n ← name
  let declare (directives : List Directive) (body : TypeBody) : TypeDeclaration :=
    { position, description, name := n, directives, body }
  match keyword with
  | "scalar" => return declare (← directives) .scalar
  | "type" =>
    let implemented ← interfaces
    let ds ← directives
    return declare ds (.object implemented (← fields))
  | "interface" =>
    let implemented ← interfaces
    let ds ← directives
    return declare ds (.interface implemented (← fields))
  | "union" =>
    let ds ← directives
    return declare ds (.union (← unionMembers))
  | "enum" =>
    let ds ← directives
    return declare ds (.enum (← optionally "\x7b" "\x7d" (many1 startsEntry enumValue)))
  | _ =>
    let ds ← directives
    return declare ds (.input (← inputFields))

/-- Whether an extension adds something that its kind may add. -/
def addsSomething (t : TypeDeclaration) : Bool :=
  !t.directives.isEmpty ||
    match t.body with
    | .scalar => false
    | .object interfaces fields => !interfaces.isEmpty || !fields.isEmpty
    | .interface _ fields => !fields.isEmpty
    | .union members => !members.isEmpty
    | .enum values => !values.isEmpty
    | .input fields => !fields.isEmpty

def operationEntry : Reader (String × String) := do
  let operation ← name
  punctuator ":"
  return (operation, ← name)

/-- Whether every entry names an operation, and no operation occurs twice. -/
def areOperations (entries : List (String × String)) : Bool :=
  let keys := entries.map (·.1)
  keys.all ["query", "mutation", "subscription"].contains && decide keys.Nodup

def schemaBlock (position : Position) : Reader SchemaBlock := do
  let ds ← directives
  let entries ← enclosed "\x7b" "\x7d" (many isName operationEntry)
  if areOperations entries then
    return { position, directives := ds, query := entries.lookup "query",
             mutation := entries.lookup "mutation",
             subscription := entries.lookup "subscription" }
  else throw position

def extension : Reader TypeDeclaration := do
  let position := (← peek).position
  match (← peek).lexeme with
  | .name keyword =>
    if isTypeKeyword keyword then
      advance
      let t ← typeDeclaration position none keyword
      if addsSomething t then return t else throw position
    else fail
  | _ => fail

def definition : Reader Definition := do
  let description ← description
  let position := (← peek).position
  match (← peek).lexeme with
  | .name keyword =>
    if isTypeKeyword keyword then
      advance
      return .type (← typeDeclaration position description keyword)
    else if keyword == "directive" then
      advance
      return .directive (← directiveDefinition position description)
    else if description.isSome then fail
    else if keyword == "schema" then
      advance
      return .schema (← schemaBlock position)
    else if keyword == "extend" then
      advance
      return .extension (← extension)
    else fail
  | _ => fail

/-- One definition or more, up to the end of the text. -/
def definitions : Reader (List Definition) := do
  let ds ← many1 (· != .endOfText) definition
  expect .endOfText
  return ds

/-- The definitions written in a text, or the position of the first problem. -/
def read (text : List Char) : Except Position (List Definition) :=
  (definitions.run (Token.scan text)).map (·.1)

end TypeLoom.Schema.Reading
