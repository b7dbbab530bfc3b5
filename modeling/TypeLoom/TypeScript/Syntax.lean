import TypeLoom.TypeScript.Grammar

/-!
# Syntax trees of TypeScript

Builds the tree that merging reads from the constructs that the grammar recognises: import
statements with their clauses, declarations of variables with names, annotations and values, and
object literals with their elements. Other constructs are nodes without children, and marks and
keywords are left out, except for the word that starts a declaration. A comment goes into the
smallest node around it. A text that is not recognised has one error, where reading it stopped.
-/

namespace TypeLoom.TypeScript

open ResolverModule (Span Node Label Parser)

/-- A construct and the nodes after it that were at hand when it was read. -/
structure Stretch where
  nodes : List Tree
  follow : List Tree
  deriving Inhabited, Repr

namespace Syntax

/-! ### Statements -/

/-- The stretch from the first to the last of some nodes. -/
def spanOf (ts : List Tree) : Span :=
  match ts.head?, ts.getLast? with
  | some a, some b => ⟨a.first.span.start, b.last.span.stop⟩
  | _, _ => ⟨0, 0⟩

/-- Whether a list of nodes starts with a word that only starts statements. -/
def opensStatement : List Tree → Bool
  | first :: rest =>
    ["export", "const", "let", "var"].any first.spells ||
      (first.spells "import" && match rest with
        | .group .paren .. :: _ => false
        | next :: _ => !next.spells "."
        | [] => true)
  | [] => false

/-- Words and punctuators that do not end a statement. -/
def openEnds : List String := ["export", "else", "do", ":", "<", ","]

/-- Words that do not end a statement if more follows on their line. -/
def openOnLine : List String := ["declare", "as", "satisfies"]

/-- Whether a word after some nodes, given last one first, goes on with their statement: they end
with a word that needs more after it, or with the condition of a statement. -/
def goesOn (next : Tree) : List Tree → Bool
  | .leaf last :: before =>
    [".", "?."].any last.spells || (!next.spells "export" && !before.head?.any (·.spells ".") &&
      (openEnds.any last.spells ||
        (!next.first.newlineBefore && openOnLine.any last.spells)))
  | .group .paren .. :: head :: before =>
    !next.spells "export" && (["if", "for", "await", "with"].any head.spells ||
      (head.spells "while" && match before with
        | .group .brace .. :: start :: _ => !start.spells "do"
        | _ => true))
  | _ => false

/-- A whole number of statements, so that a given number of nodes is left. A statement after the
first one does not start with a word that only starts statements. -/
def statements (left : Nat) : Nat → List Tree → Option (List Stretch)
  | 0, _ => none
  | fuel + 1, ts =>
    match Grammar.split? .statement ts with
    | some (nodes, follow) =>
      if follow.length < ts.length && left ≤ follow.length then
        if follow.length = left then some [⟨nodes, follow⟩]
        else if opensStatement follow then none
        else (statements left fuel follow).map (⟨nodes, follow⟩ :: ·)
      else none
    | none => none

/-- The statements of a chunk. A node on the line where the chunk ends has to be known. -/
def chunkStatements (chunk : List Tree) (next : Option Tree) : Option (List Stretch) :=
  match next.filter (!·.first.newlineBefore) with
  | some t => statements 1 (chunk.length + 1) (chunk ++ [t])
  | none => statements 0 chunk.length chunk

/-- Chunks of nodes, from those of the first chunk so far and those after them. A word that only
starts statements starts a chunk, unless it goes on with the statement before it. -/
def chunks : List Tree → List Tree → List (List Tree)
  | [], [] => []
  | before, [] => [before]
  | before, t :: rest =>
    if !before.isEmpty && opensStatement (t :: rest) && !goesOn t before.reverse then
      before :: chunks [t] rest
    else chunks (before ++ [t]) rest

/-- The statements of some chunks; fails with a chunk that is no whole number of statements. -/
def statementsOf : List (List Tree) → Except (List Tree) (List Stretch)
  | [] => .ok []
  | chunk :: more =>
    match chunkStatements chunk (more.head?.bind (·.head?)) with
    | some ss => (statementsOf more).map (ss ++ ·)
    | none => .error chunk

/-- The statements of a module, a first line that starts with `#!` included. -/
def allStatements : List Tree → Except (List Tree) (List Stretch)
  | .leaf t :: rest =>
    if t.kind == .hashbang then (statementsOf (chunks [] rest)).map (⟨[.leaf t], []⟩ :: ·)
    else statementsOf (chunks [] (.leaf t :: rest))
  | ts => statementsOf (chunks [] ts)

/-! ### Constructs of a statement -/

/-- Groups of nodes between commas. -/
def commaGroups (ts : List Tree) : List (List Tree) :=
  match ts with
  | [] => []
  | t :: rest =>
    if t.spells "," then [] :: commaGroups rest
    else match commaGroups rest with
      | [] => [[t]]
      | group :: groups => (t :: group) :: groups

/-- Constructs with commas between them, from the start of a list of nodes. -/
def separated (r : Rule) : Nat → List Tree → List (List Tree)
  | 0, _ => []
  | _, [] => []
  | fuel + 1, t :: ts =>
    if t.spells "," then separated r fuel ts
    else match Grammar.split? r (t :: ts) with
      | some (construct, rest) => construct :: separated r fuel rest
      | none => []

/-- Whether some nodes start with a key and a colon. -/
def isPair (ts : List Tree) : Bool :=
  match Grammar.after? .key ts with
  | some (next :: _) => next.spells ":"
  | _ => false

/-- Variables with commas between them, from the start of a list of nodes. -/
def declarators : Nat → List Tree → List Stretch
  | 0, _ => []
  | fuel + 1, ts =>
    match Grammar.split? .declarator ts with
    | some (nodes, follow) =>
      ⟨nodes, follow⟩ :: match follow with
        | t :: rest => if t.spells "," then declarators fuel rest else []
        | [] => []
    | none => []

/-- The nodes after a variable's name and its annotation. -/
def afterType (afterName : List Tree) : List Tree :=
  match afterName with
  | colon :: rest => if colon.spells ":" then (Grammar.after? .type rest).getD rest else afterName
  | [] => []

/-- The nodes of a variable's value, from those after its name and how many of these follow the
variable. -/
def value? (afterName : List Tree) (left : Nat) : Option (List Tree) :=
  match afterType afterName with
  | equals :: value =>
    if equals.spells "=" then some (value.take (value.length - left)) else none
  | [] => none

/-- Whether some nodes declare variables. -/
def declaresVariables : List Tree → Bool
  | first :: second :: _ =>
    first.spells "let" || first.spells "var" || (first.spells "const" && !second.spells "enum")
  | _ => false

/-- The nodes after the word that starts a declaration of variables, exported or not, with all that
follows the statement. -/
def declared? (s : Stretch) : Option (List Tree) :=
  let inner := if s.nodes.head?.any (·.spells "export") then s.nodes.drop 1 else s.nodes
  let rest := Grammar.after? .variableStatement (inner ++ s.follow)
  if declaresVariables inner && rest.any (·.length == s.follow.length) then
    some ((inner ++ s.follow).drop 1)
  else none

/-- Whether a node is a string. -/
def isString : Tree → Bool
  | .leaf t => t.kind == .string
  | .group .. => false

/-! ### Nodes -/

section

variable (source : List Char)

/-- The number of bytes that stand before an offset on its line. -/
def columnAt (offset : Nat) : Nat :=
  ((source.take offset).reverse.takeWhile (· != '\n')).foldl (fun n c => n + c.utf8Size) 0

/-- A named node without errors. -/
def sound (kind : String) (field : Option String) (span : Span) (row endRow : Nat)
    (children : List Node) : Node :=
  .mk { kind, field, named := true, isError := false, isMissing := false, span, row,
        column := columnAt source span.start, endRow } children

/-- The node of a construct. -/
def construct (kind : String) (field : Option String) (ts : List Tree) (children : List Node) :
    Node :=
  sound source kind field (spanOf ts) ((ts.head?.map (·.first.row)).getD 0)
    ((ts.getLast?.map (·.last.endRow)).getD 0) children

/-- The kind of a name or a path. -/
def nameKind : Tree → String
  | .leaf t => if t.kind == .string then "string" else "identifier"
  | .group .bracket .. => "array_pattern"
  | .group .. => "object_pattern"

def nameNode (field : String) (t : Tree) : Node := construct source (nameKind t) (some field) [t] []

/-- An import specifier. Its name comes last, or before the word and the name that rename it. -/
def specifier (ts : List Tree) : Node :=
  construct source "import_specifier" none ts <|
    match ts.reverse with
    | alias_ :: _ :: name :: _ => [nameNode source "name" name, nameNode source "alias" alias_]
    | name :: _ => [nameNode source "name" name]
    | [] => []

def clausePart (ts : List Tree) : Node :=
  match ts with
  | [.group .brace _ inside _] =>
    construct source "named_imports" none ts
      (((commaGroups inside).filter (!·.isEmpty)).map (specifier source))
  | [_] => construct source "identifier" none ts []
  | _ => construct source "namespace_import" none ts []

/-- The nodes after `import`, and after `type` if that does not name what is imported. -/
def importBody (ts : List Tree) : List Tree :=
  match ts with
  | first :: rest =>
    if (first.spells "type" || first.spells "typeof") && (Grammar.after? .fromClause rest).isSome
    then rest else ts
  | [] => []

/-- The clause and the path of an import statement, from the nodes after its first word. An import
by assignment has none. -/
def importParts (ts : List Tree) : List Node :=
  match ts with
  | [] => []
  | first :: _ =>
    if isString first then [nameNode source "source" first]
    else match Grammar.split? .importClause (importBody ts) with
      | some (clause, from_ :: path :: _) =>
        if from_.spells "from" then
          [construct source "import_clause" none clause
            (((commaGroups clause).filter (!·.isEmpty)).map (clausePart source)),
            nameNode source "source" path]
        else []
      | _ => []

def keyKind : List Tree → String
  | [.leaf t] =>
    if t.kind == .string then "string" else if t.kind == .number then "number"
    else "property_identifier"
  | _ => "computed_property_name"

/-- The key that some nodes start with. -/
def keyNodes (field : String) (ts : List Tree) : List Node :=
  match Grammar.split? .key ts with
  | some (key, _) => [construct source (keyKind key) (some field) key []]
  | none => []

def valueKind (ts : List Tree) : String :=
  match ts with
  | [.group .brace ..] => "object"
  | _ => if (Grammar.after? .arrow ts).any (·.isEmpty) then "arrow_function" else "expression"

def pairNodes (ts : List Tree) : List Node :=
  keyNodes source "key" ts ++
    match Grammar.after? .key ts with
    | some (_ :: value) => [construct source (valueKind value) (some "value") value []]
    | _ => []

/-- An element of an object literal. -/
def element (ts : List Tree) : Node :=
  match ts with
  | [_] => construct source "shorthand_property_identifier" none ts []
  | t :: _ =>
    if t.spells "..." then construct source "spread_element" none ts []
    else if isPair ts then construct source "pair" none ts (pairNodes source ts)
    else construct source "method_definition" none ts
      (keyNodes source "name" ((Grammar.after? .methodModifiers ts).getD ts))
  | [] => construct source "spread_element" none ts []

/-- The value of a variable. -/
def valueNode (ts : List Tree) : Node :=
  construct source (valueKind ts) (some "value") ts <|
    match ts with
    | [.group .brace _ inside _] => (separated .element inside.length inside).map (element source)
    | _ => []

def typeKind : List Tree → String
  | [.leaf _] => "type_identifier"
  | _ => "type"

/-- The annotation that comes after a variable's name, if one does. -/
def annotationNodes (afterName : List Tree) : List Node :=
  match afterName with
  | colon :: rest =>
    if colon.spells ":" then
      match Grammar.split? .type rest with
      | some (type, _) =>
        [construct source "type_annotation" (some "type") (colon :: type)
          [construct source (typeKind type) none type []]]
      | none => []
    else []
  | [] => []

def declaratorNode (d : Stretch) : Node :=
  construct source "variable_declarator" none d.nodes <|
    match d.nodes with
    | [] => []
    | name :: inner =>
      let afterName := inner ++ d.follow
      nameNode source "name" name :: (annotationNodes source afterName ++
        ((value? afterName d.follow.length).map (valueNode source)).toList)

/-- A declaration of variables, from its nodes and all that follows its first word. -/
def declarationNode (field : Option String) (ts declared : List Tree) : Node :=
  let inner := (declarators declared.length declared).map (declaratorNode source)
  match ts with
  | [] => construct source "lexical_declaration" field ts inner
  | keyword :: _ =>
    if keyword.spells "var" then construct source "variable_declaration" field ts inner
    else
      let word : Node := .mk
        { kind := keyword.first.text, field := some "kind", named := false, isError := false,
          isMissing := false, span := keyword.first.span, row := keyword.first.row,
          column := columnAt source keyword.first.span.start, endRow := keyword.first.endRow } []
      construct source "lexical_declaration" field ts (word :: inner)

/-- The kind of a statement that does not concern merging. -/
def statementKind : List Tree → String
  | .leaf t :: _ =>
    if t.kind == .hashbang then "hash_bang_line"
    else if t.spells "export" then "export_statement" else "statement"
  | _ => "statement"

def statementNode (s : Stretch) : Node :=
  match declared? s, s.nodes with
  | some declared, first :: rest =>
    if first.spells "export" then
      construct source "export_statement" none s.nodes
        [declarationNode source (some "declaration") rest declared]
    else declarationNode source none s.nodes declared
  | _, first :: rest =>
    let parts := if first.spells "import" then importParts source rest else []
    construct source (if parts.isEmpty then statementKind s.nodes else "import_statement") none
      s.nodes parts
  | _, [] => construct source "statement" none [] []

/-! ### Comments and errors -/

def commentNode (t : Token) : Node := sound source "comment" none t.span t.row t.endRow []

def encloses (outer inner : Span) : Bool := outer.start ≤ inner.start && inner.stop ≤ outer.stop

/-- Puts a node among others that stand in order. -/
def insertNode (n : Node) : List Node → List Node
  | [] => [n]
  | c :: cs => if n.span.start ≤ c.span.start then n :: c :: cs else c :: insertNode n cs

mutual

/-- Puts each of some comments into the smallest node around it. -/
def withComments (comments : List Node) : Node → Node
  | .mk l cs =>
    match comments.filter (encloses l.span ·.span) with
    | [] => .mk l cs
    | own =>
      let between := own.filter fun c => !cs.any (encloses ·.span c.span)
      .mk l (between.foldr insertNode (allWithComments own cs))

def allWithComments (comments : List Node) : List Node → List Node
  | [] => []
  | c :: cs => withComments comments c :: allWithComments comments cs

end

def program (children : List Node) : Node :=
  sound source "program" none ⟨0, source.length⟩ 0 (source.count '\n') children

/-- The tree of a text that cannot be read from an offset on. -/
def faulty (offset : Nat) : Node :=
  program source [.mk
    { kind := "ERROR", field := none, named := true, isError := true, isMissing := false,
      span := ⟨offset, source.length⟩, row := (source.take offset).count '\n',
      column := columnAt source offset, endRow := source.count '\n' } []]

/-- The tree of a text. -/
def tree : Node :=
  match Token.scan source with
  | .error offset => faulty source offset
  | .ok tokens =>
    match Tree.ofTokens (tokens.filter (!·.isComment)) with
    | .error t => faulty source t.span.start
    | .ok trees =>
      match allStatements trees with
      | .error rest => faulty source (spanOf rest).start
      | .ok ss =>
        withComments ((tokens.filter (·.isComment)).map (commentNode source))
          (program source (ss.map (statementNode source)))

end

end Syntax

/-- The parser that the program runs with. -/
instance parser : Parser := ⟨Syntax.tree⟩

end TypeLoom.TypeScript
