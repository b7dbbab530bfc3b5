import TypeLoom.ResolverModule.Node

/-!
# Reading a resolver module

What merging has to know of a module, as stretches of its text: the import statements, and the
first variable named `resolvers` with its type annotation and its object literal. Comments between
the elements of the literal are attached: one that follows an element on the row where the element
ends belongs to that element's line, others to the element after them, and those after the last
element are kept apart.
-/

namespace TypeLoom.ResolverModule

/-- The name that the variable of the resolvers must have. -/
def bindingName : String := "resolvers"

/-- Why a module cannot be brought up to date. -/
inductive MergeProblem where
  | unreadable (position : Position)
  | notAnObject (line : Nat)
  deriving DecidableEq, Inhabited, Repr

def MergeProblem.message : MergeProblem → String
  | .unreadable p => s!"Syntax error on line {p.line}, column {p.column}"
  | .notAnObject line =>
    s!"The `resolvers` declaration on line {line} must be initialized with an object literal"

/-- The names in braces of an import statement. -/
structure NamedImports where
  locals : List String
  lastStop : Option Nat
  span : Span
  deriving DecidableEq, Inhabited, Repr

structure ImportStatement where
  defaultStop : Option Nat
  named : Option NamedImports
  source : String
  span : Span
  deriving DecidableEq, Inhabited, Repr

/-- An element of an object literal with the comments before it. Spread elements have no name. -/
structure Property where
  name : String
  span : Span
  lineComment : Option Span
  deriving DecidableEq, Inhabited, Repr

structure ObjectLiteral where
  properties : List Property
  /-- The indentation of the first property, if it starts its line. -/
  indent : Option String
  span : Span
  /-- The comments after the last property. -/
  trailing : Option Span
  deriving DecidableEq, Inhabited, Repr

/-- The variable that holds the resolvers. -/
structure Binding where
  /-- The indentation of its statement, if that starts its line. -/
  indent : String
  nameStop : Nat
  object : ObjectLiteral
  annotation : Option (Span × String)
  deriving DecidableEq, Inhabited, Repr

/-- What is known of an existing module. -/
structure Outline where
  hasStatements : Bool
  imports : List ImportStatement
  binding : Option Binding
  deriving DecidableEq, Inhabited, Repr

/-- The first import statement from a path. -/
def Outline.importFrom? (m : Outline) (source : String) : Option ImportStatement :=
  m.imports.find? (·.source == source)

namespace Reading

/-- The text between quotes; other texts are left alone. -/
def unquote (s : String) : String :=
  match s.toList with
  | c :: d :: cs =>
    if c == '\'' || c == '"' || c == '\x60' then String.ofList (d :: cs).dropLast else s
  | _ => s

/-- The blanks before an offset on its line, if there is nothing else. -/
def lineIndent (cs : List Char) (offset : Nat) : Option String :=
  let before := ((cs.take offset).reverse.takeWhile (· != '\n')).reverse
  if before.all fun c => c == ' ' || c == '\t' then some (String.ofList before) else none

section

variable (source : List Char)

/-! ### Imports -/

/-- The name that a specifier binds. -/
def localName? (specifier : Node) : Option String :=
  ((specifier.child? "alias").or (specifier.child? "name")).map fun n => unquote (n.text source)

def namedImports (braces : Node) : NamedImports :=
  let specifiers := braces.namedChildren.filter (·.kind == "import_specifier")
  { locals := specifiers.filterMap (localName? source)
    lastStop := specifiers.getLast?.map (·.span.stop)
    span := braces.span }

/-- Adds what a part of a clause brings in. -/
def addClausePart (i : ImportStatement) (part : Node) : ImportStatement :=
  if part.kind = "identifier" then { i with defaultStop := some part.span.stop }
  else if part.kind = "named_imports" then { i with named := some (namedImports source part) }
  else i

/-- What an import statement brings in; none for an import by assignment, which has no path of its
own. -/
def import? (statement : Node) : Option ImportStatement :=
  (statement.child? "source").map fun path =>
    let bare : ImportStatement := ⟨none, none, unquote (path.text source), statement.span⟩
    match statement.namedChildren.find? (·.kind == "import_clause") with
    | some clause => clause.namedChildren.foldl (addClausePart source) bare
    | none => bare

/-! ### Object literals -/

/-- A direct part of an object literal. -/
inductive Part where
  | comment (span : Span) (row : Nat)
  | element (span : Span) (endRow : Nat) (name : String)
  deriving DecidableEq, Inhabited, Repr

/-- The name that a key gives: a string without its quotes, any other key as it is written. -/
def keyName (key : Node) : String :=
  if key.kind = "string" then unquote (key.text source) else key.text source

/-- The name of an element. Elements other than properties and methods have none. -/
def elementName (element : Node) : String :=
  if element.kind = "pair" then (element.child? "key").elim "" (keyName source)
  else if element.kind = "method_definition" then
    (element.child? "name").elim "" (keyName source)
  else if element.kind = "shorthand_property_identifier" then element.text source
  else ""

def part (n : Node) : Part :=
  if n.kind = "comment" then .comment n.span n.label.row
  else .element n.span n.label.endRow (elementName source n)

/-- The state while comments are attached: the properties so far, the row where the last one ends,
and the stretch of comments that wait for the next one. -/
structure Attached where
  properties : List Property
  lastRow : Option Nat
  pending : Option Span
  deriving DecidableEq, Inhabited, Repr

/-- Extends a stretch, or starts one. -/
def extend (s : Option Span) (by_ : Span) : Span := ⟨(s.getD by_).start, by_.stop⟩

/-- Adds a comment to the line of the last property. -/
def addLineComment (c : Span) (ps : List Property) : List Property :=
  match ps.getLast? with
  | some p => ps.dropLast ++ [{ p with lineComment := some (extend p.lineComment c) }]
  | none => ps

def attach (s : Attached) : Part → Attached
  | .comment c row =>
    if s.pending.isNone && s.lastRow == some row then
      { s with properties := addLineComment c s.properties }
    else { s with pending := some (extend s.pending c) }
  | .element e endRow name =>
    { properties := s.properties ++ [⟨name, extend s.pending e, none⟩]
      lastRow := some endRow
      pending := none }

/-- An object literal from its parts. -/
def objectOfParts (span : Span) (parts : List Part) : ObjectLiteral :=
  let s := parts.foldl attach ⟨[], none, none⟩
  { properties := s.properties
    indent := s.properties.head?.bind fun p => lineIndent source p.span.start
    span
    trailing := s.pending }

def objectLiteral (object : Node) : ObjectLiteral :=
  objectOfParts source object.span (object.namedChildren.map (part source))

/-! ### The variable -/

/-- Whether a node declares variables. -/
def declaresVariables (n : Node) : Bool :=
  n.kind == "lexical_declaration" || n.kind == "variable_declaration"

/-- Whether a node is the variable that is looked for. -/
def declaresBinding (n : Node) : Bool :=
  n.kind == "variable_declarator" && (n.child? "name").any (·.text source == bindingName)

/-- The type annotation of a variable: the stretch and text of what comes first after the colon. -/
def annotation? (variable_ : Node) : Option (Span × String) :=
  ((variable_.child? "type").bind (·.namedChildren.head?)).map fun t => (t.span, t.text source)

/-- The variable of the resolvers among those of a declaration. -/
def binding? (statementStart : Nat) (declaration : Node) : Except MergeProblem (Option Binding) :=
  if !declaresVariables declaration then .ok none
  else match declaration.namedChildren.find? (declaresBinding source) with
    | none => .ok none
    | some v =>
      match v.child? "name", v.child? "value" with
      | none, _ => .ok none
      | some _, none => .error (.notAnObject (v.label.row + 1))
      | some name, some value =>
        if value.kind = "object" then
          .ok <| some {
            indent := (lineIndent source statementStart).getD ""
            nameStop := name.span.stop
            object := objectLiteral source value
            annotation := annotation? source v }
        else .error (.notAnObject (v.label.row + 1))

/-! ### Statements -/

/-- What a statement declares, exported or not. -/
def declaration? (statement : Node) : Option Node :=
  if statement.kind = "export_statement" then statement.child? "declaration"
  else if declaresVariables statement then some statement
  else none

/-- Adds what a statement contributes to an outline. Once the variable is found, later
declarations do not count. -/
def addStatement (m : Outline) (statement : Node) : Except MergeProblem Outline :=
  if statement.kind = "comment" then .ok m
  else if statement.kind = "import_statement" then
    .ok { m with hasStatements := true, imports := m.imports ++ (import? source statement).toList }
  else match m.binding, declaration? statement with
    | none, some declaration =>
      (binding? source statement.span.start declaration).map fun binding =>
        { m with hasStatements := true, binding }
    | _, _ => .ok { m with hasStatements := true }

end

/-- The position of the first error in a tree. -/
def errorPosition (root : Node) : Position :=
  let e := root.firstError?.getD root
  ⟨e.label.row + 1, e.label.column + 1⟩

end Reading

open Reading in
/-- The outline of a module's text. -/
def read [Parser] (source : List Char) : Except MergeProblem Outline :=
  let root := Parser.root source
  if root.hasError then .error (.unreadable (errorPosition root))
  else root.namedChildren.foldlM (addStatement source) ⟨false, [], none⟩

end TypeLoom.ResolverModule
