import TypeLoom.TypeScript.Tree

/-!
# Grammars with ordered choice

A pattern describes a stretch of a list of nodes: sequences, ordered choices, greedy repetitions,
look-ahead without consumption, brackets around a whole stretch, and calls of named rules. `run`
tells what is left of a list after the stretch that a pattern recognises at its start. It is bounded
by fuel; running out counts as a failure to recognise.
-/

namespace TypeLoom.TypeScript

/-- What can be asked of one node. -/
inductive Test where
  /-- A word or punctuator with one of some texts. -/
  | spelled (texts : List String)
  /-- A punctuator that touches the token before it. -/
  | tight (text : String)
  | kind (kind : TokenKind)
  | identifier
  /-- An identifier other than a given one. -/
  | identifierBut (text : String)
  | opens (shape : Shape)
  | startsLine
  | continuesLine
  | anything
  deriving DecidableEq, Inhabited, Repr

namespace Test

/-- Whether a token passes a test. -/
def ofToken (a : Test) (t : Token) : Bool :=
  match a with
  | spelled texts => (t.kind == .word || t.kind == .punctuator) && texts.contains t.text
  | tight text => t.tight && t.spells text
  | kind k => t.kind == k
  | identifier => t.isIdentifier
  | identifierBut text => t.isIdentifier && t.text != text
  | opens _ => false
  | startsLine => t.newlineBefore
  | continuesLine => !t.newlineBefore
  | anything => true

/-- Whether brackets pass a test. -/
def ofGroup (a : Test) (shape : Shape) (opening : Token) : Bool :=
  match a with
  | opens s => s == shape
  | startsLine => opening.newlineBefore
  | continuesLine => !opening.newlineBefore
  | anything => true
  | _ => false

def accepts (a : Test) : Tree → Bool
  | .leaf t => a.ofToken t
  | .group shape opening _ _ => a.ofGroup shape opening

end Test

inductive Pattern (ν : Type) where
  | nothing
  | item (test : Test)
  | inside (shape : Shape) (inner : Pattern ν)
  | call (rule : ν)
  | seq (first second : Pattern ν)
  | choice (first second : Pattern ν)
  | many (inner : Pattern ν)
  | ahead (inner : Pattern ν)
  | absent (inner : Pattern ν)
  deriving DecidableEq

namespace Pattern

variable {ν : Type}

def opt (p : Pattern ν) : Pattern ν := .choice p .nothing

def many1 (p : Pattern ν) : Pattern ν := .seq p (.many p)

/-- All patterns of a list, one after the other. -/
def all : List (Pattern ν) → Pattern ν
  | [] => .nothing
  | [p] => p
  | p :: ps => .seq p (all ps)

/-- The first pattern of a list that recognises something. -/
def any : List (Pattern ν) → Pattern ν
  | [] => .absent .nothing
  | [p] => p
  | p :: ps => .choice p (any ps)

/-- One or more stretches with separators between them. -/
def sepBy1 (p separator : Pattern ν) : Pattern ν := .seq p (.many (.seq separator p))

/-- What is left after the stretch that a pattern recognises. -/
def run (rules : ν → Pattern ν) : Nat → Pattern ν → List Tree → Option (List Tree)
  | 0, _, _ => none
  | fuel + 1, p, ts =>
    match p with
    | .nothing => some ts
    | .item a =>
      match ts with
      | t :: rest => if a.accepts t then some rest else none
      | [] => none
    | .inside s p =>
      match ts with
      | .group shape _ inner _ :: rest =>
        if shape = s then
          match run rules fuel p inner with
          | some [] => some rest
          | _ => none
        else none
      | _ => none
    | .call r => run rules fuel (rules r) ts
    | .seq p q =>
      match run rules fuel p ts with
      | some rest => run rules fuel q rest
      | none => none
    | .choice p q =>
      match run rules fuel p ts with
      | some rest => some rest
      | none => run rules fuel q ts
    | .many p =>
      match run rules fuel p ts with
      | some rest =>
        if rest.length < ts.length then run rules fuel (.many p) rest else some ts
      | none => some ts
    | .ahead p =>
      match run rules fuel p ts with
      | some _ => some ts
      | none => none
    | .absent p =>
      match run rules fuel p ts with
      | some _ => none
      | none => some ts

end Pattern

end TypeLoom.TypeScript
