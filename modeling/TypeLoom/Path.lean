import TypeLoom.Text.Blank
import TypeLoom.Text.Utf8

/-!
# Paths

A path is its text; what it denotes is its list of components. Repeated and trailing separators
and inner `.` steps denote nothing, a leading `.` is a component of its own. Two paths are the same
when their components are, and they are ordered by their components. Operations that cut a path
keep the spelling of what remains, less the separators and `.` steps at the cut and at the end.

The names of files need not be text. In the text of a path, a byte that is no part of a character
stands as the character of its number after a null character, which no name has otherwise.
-/

namespace TypeLoom

structure Path where
  raw : String
  deriving DecidableEq, Inhabited, Repr

namespace Path

inductive Component where
  | root
  | here
  | up
  | name (text : String)
  deriving DecidableEq, Repr

/-- What a path starts from. -/
inductive Anchor where
  | none
  | root
  | here
  deriving DecidableEq, Repr

/-- A path cut at its separators, after its anchor. Steps may be empty or `.`. -/
structure Split where
  anchor : Anchor
  steps : List String
  deriving DecidableEq, Repr

/-- Steps that denote nothing. -/
def isIdle (step : String) : Bool := step == "" || step == "."

def dropIdleEnd (steps : List String) : List String := (steps.reverse.dropWhile isIdle).reverse

def split (p : Path) : Split :=
  match (Text.splitAt (· == '/') p.raw.toList).map String.ofList with
  | "" :: step :: steps => ⟨.root, step :: steps⟩
  | "." :: steps => ⟨.here, steps⟩
  | steps => ⟨.none, steps⟩

/-- The path with a given anchor and steps, in its shortest spelling. -/
def ofSplit : Split → Path
  | ⟨.none, steps⟩ => ⟨"/".intercalate steps⟩
  | ⟨.root, steps⟩ => ⟨"/" ++ "/".intercalate steps⟩
  | ⟨.here, steps⟩ => ⟨"/".intercalate ("." :: steps)⟩

def Anchor.components : Anchor → List Component
  | .none => []
  | .root => [.root]
  | .here => [.here]

def stepComponent (step : String) : Component := if step == ".." then .up else .name step

def Split.components (s : Split) : List Component :=
  s.anchor.components ++ (s.steps.filter (!isIdle ·)).map stepComponent

def components (p : Path) : List Component := p.split.components

/-- Whether two spellings denote the same path. -/
def same (p q : Path) : Bool := p.components == q.components

def isAbsolute (p : Path) : Bool := p.raw.toList.head? == some '/'

/-- `base` followed by `p`; an absolute `p` stands alone. -/
def join (base p : Path) : Path :=
  if p.isAbsolute then p
  else if base.raw.isEmpty || base.raw.toList.getLast? == some '/' then ⟨base.raw ++ p.raw⟩
  else ⟨base.raw ++ "/" ++ p.raw⟩

/-- The last component, if it is a name. -/
def fileName? (p : Path) : Option String :=
  match p.components.getLast? with
  | some (.name n) => some n
  | _ => none

/-- Drops the last step that denotes something. -/
def dropLastStep (steps : List String) : List String :=
  dropIdleEnd (dropIdleEnd steps).dropLast

/-- The path without its last component. -/
def parent? (p : Path) : Option Path :=
  match p.split with
  | ⟨anchor, steps⟩ =>
    if (dropIdleEnd steps).isEmpty then
      match anchor with
      | .here => some ⟨""⟩
      | _ => none
    else some (ofSplit ⟨anchor, dropLastStep steps⟩)

/-- Drops the first `n` steps that denote something. -/
def dropSteps : Nat → List String → List String
  | 0, steps => steps
  | _ + 1, [] => []
  | n + 1, step :: steps => if isIdle step then dropSteps (n + 1) steps else dropSteps n steps

/-- What remains of `p` after the components of `base`, if `p` starts with them. -/
def stripBase? (p base : Path) : Option Path :=
  let own := p.split
  let cut := base.components
  if cut.isPrefixOf p.components then
    if cut.isEmpty then some (ofSplit ⟨own.anchor, dropIdleEnd own.steps⟩)
    else
      let steps := dropSteps (cut.length - own.anchor.components.length) own.steps
      some ⟨"/".intercalate (dropIdleEnd (steps.dropWhile isIdle))⟩
  else none

/-- The names among the components, in order. -/
def names (p : Path) : List String :=
  p.components.filterMap fun
    | .name n => some n
    | _ => none

/-- The bytes that a piece of a path is made of. -/
def bytes : List Char → List UInt8
  | '\x00' :: c :: cs => UInt8.ofNat c.toNat :: bytes cs
  | c :: cs => String.utf8EncodeChar c ++ bytes cs
  | [] => []

/-- Whether a piece of a path is text. -/
def isText (piece : String) : Bool := !piece.toList.contains '\x00'

/-- The text that a piece of a path is shown as. -/
def shown (piece : String) : String :=
  if isText piece then piece
  else
    let bs := bytes piece.toList
    String.ofList (Text.Utf8.decodeLossy bs.length bs)

/-- The text that a path is shown as. -/
def display (p : Path) : String := shown p.raw

/-- The part of a file name before its last dot, and the part after it. A leading dot does not
divide a name. -/
def divideName (n : String) : String × Option String :=
  let cs := n.toList
  if n == ".." then (n, none)
  else
    let ext := (cs.reverse.takeWhile (· != '.')).reverse
    let stem := cs.take (cs.length - ext.length - 1)
    if ext.length == cs.length || stem.isEmpty then (n, none)
    else (String.ofList stem, some (String.ofList ext))

def stem? (p : Path) : Option String := p.fileName?.map fun n => (divideName n).1

def extension? (p : Path) : Option String := p.fileName?.bind fun n => (divideName n).2

def Component.rank : Component → Nat
  | .root => 0
  | .here => 1
  | .up => 2
  | .name _ => 3

def Component.compare : Component → Component → Ordering
  | .name a, .name b => Ord.compare a b
  | a, b => Ord.compare a.rank b.rank

def compareComponents : List Component → List Component → Ordering
  | [], [] => .eq
  | [], _ :: _ => .lt
  | _ :: _, [] => .gt
  | a :: as, b :: bs => (a.compare b).then (compareComponents as bs)

def compare (p q : Path) : Ordering := compareComponents p.components q.components

end Path

end TypeLoom
