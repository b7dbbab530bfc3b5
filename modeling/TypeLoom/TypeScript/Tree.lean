import TypeLoom.TypeScript.Token

/-!
# Tokens between brackets

`Tree.ofTokens` puts the tokens between a pair of brackets into one node, so that what stands
between brackets can be read on its own. A template with holes is such a node too: its pieces up to
the first hole and from the last one on are its brackets.
-/

namespace TypeLoom.TypeScript

/-- The kinds of brackets. -/
inductive Shape where
  | paren
  | bracket
  | brace
  | template
  deriving DecidableEq, Inhabited, Repr

namespace Shape

/-- The brackets that a token opens. -/
def opened? (t : Token) : Option Shape :=
  match t.kind with
  | .templateHead => some template
  | .punctuator =>
    if t.text == "(" then some paren
    else if t.text == "[" then some bracket
    else if t.text == "\x7b" then some brace
    else none
  | _ => none

/-- The brackets that a token closes. -/
def closed? (t : Token) : Option Shape :=
  match t.kind with
  | .templateTail => some template
  | .punctuator =>
    if t.text == ")" then some paren
    else if t.text == "]" then some bracket
    else if t.text == "\x7d" then some brace
    else none
  | _ => none

end Shape

inductive Tree where
  | leaf (token : Token)
  | group (shape : Shape) (opening : Token) (inside : List Tree) (closing : Token)
  deriving Inhabited, Repr

namespace Tree

def first : Tree → Token
  | leaf t => t
  | group _ opening _ _ => opening

def last : Tree → Token
  | leaf t => t
  | group _ _ _ closing => closing

mutual

def tokens : Tree → List Token
  | leaf t => [t]
  | group _ opening inside closing => opening :: (allTokens inside ++ [closing])

def allTokens : List Tree → List Token
  | [] => []
  | t :: ts => t.tokens ++ allTokens ts

end

/-- A word or punctuator with a given text. -/
def spells (text : String) : Tree → Bool
  | leaf t => t.spells text
  | group .. => false

/-- Brackets that are open: what stood before them, and the token that opened them. -/
structure Frame where
  shape : Shape
  opening : Token
  before : List Tree

/-- Adds one token: to the nodes read so far, last one first, inside the open brackets. -/
def step (s : List Tree × List Frame) (t : Token) : Option (List Tree × List Frame) :=
  match Shape.opened? t, Shape.closed? t with
  | some shape, _ => some ([], ⟨shape, t, s.1⟩ :: s.2)
  | none, some shape =>
    match s.2 with
    | frame :: frames =>
      if frame.shape = shape then
        some (group shape frame.opening s.1.reverse t :: frame.before, frames)
      else none
    | [] => none
  | none, none => some (leaf t :: s.1, s.2)

/-- Adds tokens one by one; fails at the token whose bracket does not match. -/
def steps : List Tree × List Frame → List Token → Except Token (List Tree × List Frame)
  | s, [] => .ok s
  | s, t :: ts =>
    match step s t with
    | some s => steps s ts
    | none => .error t

/-- The nodes of some tokens; fails at a bracket without its counterpart. -/
def ofTokens (ts : List Token) : Except Token (List Tree) :=
  match steps ([], []) ts with
  | .ok (trees, []) => .ok trees.reverse
  | .ok (_, frame :: _) => .error frame.opening
  | .error t => .error t

end Tree

end TypeLoom.TypeScript
