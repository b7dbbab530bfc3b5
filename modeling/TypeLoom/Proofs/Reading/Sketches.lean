import TypeLoom.Proofs.Reading.Attachment

/-!
# Trees of a known shape

A sketch tells of a tree what can be told before its text is cut: kinds and fields, the texts of the
leaves, and which nodes stand below which. Marks and keywords that no field tells apart are left
out. A reader that asks for named children and for fields sees the same in every tree that fits a
sketch.
-/

namespace TypeLoom.ResolverModule

/-- What a node says of itself but for its place. -/
def Node.signature (n : Node) : Bool × String × Option String :=
  (n.label.named, n.kind, n.label.field)

/-- The children that have a kind of their own, or a field. -/
def Node.marked (n : Node) : List Node :=
  n.children.filter fun c => c.label.named || c.label.field.isSome

inductive Sketch where
  /-- A keyword under a field. -/
  | word (field text : String)
  /-- A node that stands for a known text. -/
  | leaf (kind : String) (field : Option String) (text : String)
  | branch (kind : String) (field : Option String) (parts : List Sketch)
  /-- A node of which no more is known. -/
  | closed (kind : String) (field : Option String)
  deriving Inhabited, Repr

namespace Sketch

def signature : Sketch → Bool × String × Option String
  | word field text => (false, text, some field)
  | leaf kind field _ => (true, kind, field)
  | branch kind field _ => (true, kind, field)
  | closed kind field => (true, kind, field)

def named (s : Sketch) : Bool := s.signature.1

def field (s : Sketch) : Option String := s.signature.2.2

mutual

/-- Whether a node of the tree of a text has the shape of a sketch. -/
def fits (source : List Char) : Sketch → Node → Bool
  | word field text, n => n.signature == (false, text, some field)
  | leaf kind field text, n => n.signature == (true, kind, field) && n.text source == text
  | branch kind field parts, n => n.signature == (true, kind, field) && fitAll source parts n.marked
  | closed kind field, n => n.signature == (true, kind, field)

def fitAll (source : List Char) : List Sketch → List Node → Bool
  | [], [] => true
  | s :: ss, n :: ns => s.fits source n && fitAll source ss ns
  | _, _ => false

end

/-- The nodes have the shapes of the sketches, one by one. -/
def AllFit (source : List Char) (ss : List Sketch) (ns : List Node) : Prop :=
  List.Forall₂ (fun s n => s.fits source n = true) ss ns

variable {source : List Char} {s : Sketch} {ss : List Sketch} {n : Node} {ns : List Node}

theorem fitAll_iff : fitAll source ss ns = true ↔ AllFit source ss ns := by
  induction ss generalizing ns with
  | nil =>
    cases ns with
    | nil => exact iff_of_true rfl .nil
    | cons n ns => exact iff_of_false nofun nofun
  | cons s ss ih =>
    cases ns with
    | nil => exact iff_of_false nofun nofun
    | cons n ns =>
      rw [fitAll, Bool.and_eq_true, ih]
      exact (List.forall₂_cons (R := fun (s : Sketch) n => s.fits source n = true)).symm

theorem signature_of_fits (h : s.fits source n = true) : n.signature = s.signature := by
  cases s with
  | word field text => exact beq_iff_eq.mp h
  | leaf kind field text => exact beq_iff_eq.mp (Bool.and_eq_true_iff.mp h).1
  | branch kind field parts =>
    rw [fits, Bool.and_eq_true] at h
    exact beq_iff_eq.mp h.1
  | closed kind field => exact beq_iff_eq.mp h

theorem named_of_fits (h : s.fits source n = true) : n.label.named = s.named :=
  congrArg Prod.fst (signature_of_fits h)

theorem field_of_fits (h : s.fits source n = true) : n.label.field = s.field :=
  congrArg (fun x => x.2.2) (signature_of_fits h)

theorem kind_of_fits (h : s.fits source n = true) : n.kind = s.signature.2.1 :=
  congrArg (fun x => x.2.1) (signature_of_fits h)

theorem text_of_fits {kind text : String} {field : Option String}
    (h : (leaf kind field text).fits source n = true) : n.text source = text :=
  beq_iff_eq.mp (Bool.and_eq_true_iff.mp h).2

theorem marked_of_fits {kind : String} {field : Option String}
    (h : (branch kind field ss).fits source n = true) : AllFit source ss n.marked := by
  rw [fits, Bool.and_eq_true] at h
  exact fitAll_iff.mp h.2

namespace AllFit

variable (h : AllFit source ss ns)

include h

/-- Sketches and nodes that agree on a test are kept together. -/
theorem filter {p : Sketch → Bool} {q : Node → Bool}
    (hpq : ∀ s n, s.fits source n = true → q n = p s) :
    AllFit source (ss.filter p) (ns.filter q) := by
  induction h with
  | nil => exact .nil
  | @cons s n ss ns hfits _ ih =>
    rw [List.filter_cons, List.filter_cons, hpq s n hfits]
    cases p s with
    | true => exact .cons hfits ih
    | false => exact ih

/-- What is found first among the sketches fits what is found first among the nodes. -/
theorem find? {p : Sketch → Bool} {q : Node → Bool}
    (hpq : ∀ s n, s.fits source n = true → q n = p s) :
    AllFit source (ss.find? p).toList (ns.find? q).toList := by
  induction h with
  | nil => exact .nil
  | @cons s n ss ns hfits _ ih =>
    rw [List.find?_cons, List.find?_cons, hpq s n hfits]
    cases p s with
    | true => exact .cons hfits .nil
    | false => exact ih

end AllFit

theorem AllFit.eq_nil (h : AllFit source [] ns) : ns = [] := by
  cases h
  rfl

theorem AllFit.eq_cons (h : AllFit source (s :: ss) ns) :
    ∃ n rest, ns = n :: rest ∧ s.fits source n = true ∧ AllFit source ss rest := by
  obtain _ | ⟨hfits, hrest⟩ := h
  exact ⟨_, _, rfl, hfits, hrest⟩

theorem AllFit.eq_singleton (h : AllFit source [s] ns) : ∃ n, ns = [n] ∧ s.fits source n = true := by
  obtain ⟨n, rest, rfl, hfits, hrest⟩ := h.eq_cons
  exact ⟨n, by rw [hrest.eq_nil], hfits⟩

/-- The named children of a node that fits are those of the named parts. -/
theorem namedChildren_of_fits {kind : String} {field : Option String}
    (h : (branch kind field ss).fits source n = true) :
    AllFit source (ss.filter named) n.namedChildren := by
  have hnamed : n.namedChildren = n.marked.filter (·.label.named) := by
    rw [Node.marked, List.filter_filter, Node.namedChildren]
    exact List.filter_congr fun c _ => by cases c.label.named <;> simp
  rw [hnamed]
  exact (marked_of_fits h).filter fun _ _ => named_of_fits

/-- The child under a field of a node that fits is that of the part under the field. -/
theorem child?_of_fits {kind : String} {field : Option String}
    (h : (branch kind field ss).fits source n = true) (f : String) :
    AllFit source (ss.find? fun s => s.field == some f).toList (n.child? f).toList := by
  have hchild : n.child? f = n.marked.find? (·.label.field == some f) := by
    rw [Node.marked, List.find?_filter, Node.child?]
    congr 1
    funext c
    cases hf : c.label.field with
    | none => simp
    | some g => by_cases hg : g = f <;> simp [hg]
  rw [hchild]
  exact (marked_of_fits h).find? fun s n hfits => by rw [field_of_fits hfits]

theorem exists_child_of_fits {kind f : String} {field : Option String}
    (h : (branch kind field ss).fits source n = true)
    (hs : (ss.find? fun s => s.field == some f) = some s) :
    ∃ c, n.child? f = some c ∧ s.fits source c = true := by
  have hfound := child?_of_fits h f
  rw [hs, Option.toList_some] at hfound
  obtain ⟨c, hc, hfits⟩ := hfound.eq_singleton
  exact ⟨c, by simpa [Option.toList_eq_singleton_iff] using hc, hfits⟩

theorem child?_eq_none_of_fits {kind f : String} {field : Option String}
    (h : (branch kind field ss).fits source n = true)
    (hs : (ss.find? fun s => s.field == some f) = none) : n.child? f = none := by
  have hfound := child?_of_fits h f
  rw [hs, Option.toList_none] at hfound
  exact Option.toList_eq_nil_iff.mp hfound.eq_nil

end Sketch

end TypeLoom.ResolverModule
