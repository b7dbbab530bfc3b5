import TypeLoom.Location

/-!
# Syntax trees of resolver modules

Merging reads a module through the tree that a parser gives of its text. A node has a kind, perhaps
a field under which its parent has it, and the stretch of the text that it stands for; nodes that
have a kind of their own in the grammar are named, marks and keywords are not. Where a text has an
error, nodes say so. The parser is not part of the program, so everything that reads a module works
for any parser. Offsets count characters, rows and columns count from zero.
-/

namespace TypeLoom.ResolverModule

/-- A stretch of a text, by offsets. -/
structure Span where
  start : Nat
  stop : Nat
  deriving DecidableEq, Inhabited, Repr

/-- The characters of a stretch. -/
def Span.slice (s : Span) (cs : List Char) : List Char := (cs.drop s.start).take (s.stop - s.start)

/-- What a node says of itself. -/
structure Label where
  kind : String
  field : Option String
  named : Bool
  isError : Bool
  /-- The parser put the node where the text lacks it. -/
  isMissing : Bool
  span : Span
  row : Nat
  column : Nat
  endRow : Nat
  deriving DecidableEq, Inhabited, Repr

inductive Node where
  | mk (label : Label) (children : List Node)
  deriving Inhabited, Repr

namespace Node

def label : Node → Label
  | mk l _ => l

def children : Node → List Node
  | mk _ cs => cs

def kind (n : Node) : String := n.label.kind

def span (n : Node) : Span := n.label.span

def namedChildren (n : Node) : List Node := n.children.filter (·.label.named)

/-- The first child under a field. -/
def child? (n : Node) (field : String) : Option Node :=
  n.children.find? (·.label.field == some field)

/-- The text that a node stands for. -/
def text (source : List Char) (n : Node) : String := String.ofList (n.span.slice source)

mutual

/-- Whether there is an error in a node. -/
def hasError : Node → Bool
  | mk l cs => l.isError || l.isMissing || anyError cs

def anyError : List Node → Bool
  | [] => false
  | c :: cs => c.hasError || anyError cs

end

mutual

/-- The first error in a node. -/
def firstError? : Node → Option Node
  | mk l cs => if l.isError || l.isMissing then some (mk l cs) else firstErrorAmong? cs

def firstErrorAmong? : List Node → Option Node
  | [] => none
  | c :: cs =>
    if c.hasError then
      match c.firstError? with
      | some e => some e
      | none => firstErrorAmong? cs
    else firstErrorAmong? cs

end

end Node

/-- A parser gives the tree of every text. -/
class Parser where
  root : List Char → Node

end TypeLoom.ResolverModule
