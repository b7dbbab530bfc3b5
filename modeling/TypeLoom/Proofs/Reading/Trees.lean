import TypeLoom.ResolverModule.Node
import TypeLoom.Proofs.Span

/-!
# What is relied on of a parser

The stretches of a tree: the children of a node stand in it one after the other, none of them is
empty, and a variable has its name, its type and its value in this order. `Parser.Places` says so of
the tree that a parser gives of a text, if it finds no error in it. It is all that is known of the
parser where something is said of any text.
-/

namespace TypeLoom.ResolverModule

namespace Node

/-- What a variable has under fields, in the order of the grammar. -/
def variableFields : List String := ["name", "type", "value"]

mutual

/-- The children of a node stand in it one after the other, and so do theirs. -/
def Placed : Node → Prop
  | mk l cs => Span.Laid l.span.start (cs.map span) l.span.stop ∧
      (l.kind = "variable_declarator" →
        (cs.filterMap fun c => c.label.field).Sublist variableFields) ∧
      AllPlaced cs

def AllPlaced : List Node → Prop
  | [] => True
  | c :: cs => c.Placed ∧ AllPlaced cs

end

mutual

def decidablePlaced : (n : Node) → Decidable n.Placed
  | mk _ cs =>
    have := decidableAllPlaced cs
    inferInstanceAs (Decidable (_ ∧ (_ → _) ∧ _))

def decidableAllPlaced : (cs : List Node) → Decidable (AllPlaced cs)
  | [] => isTrue trivial
  | c :: cs =>
    have := decidablePlaced c
    have := decidableAllPlaced cs
    inferInstanceAs (Decidable (_ ∧ _))

end

instance (n : Node) : Decidable n.Placed := decidablePlaced n

theorem allPlaced_iff {cs : List Node} : AllPlaced cs ↔ ∀ c ∈ cs, c.Placed := by
  induction cs with
  | nil => simp [AllPlaced]
  | cons c cs ih => rw [AllPlaced, ih, List.forall_mem_cons]

/-- A node is another one or is somewhere below it. -/
inductive Contains : Node → Node → Prop where
  | self (n : Node) : Contains n n
  | child {n c d : Node} (hc : c ∈ n.children) (h : Contains c d) : Contains n d

theorem child?_mem {n c : Node} {field : String} (h : n.child? field = some c) :
    c ∈ n.children ∧ c.label.field = some field :=
  ⟨List.mem_of_find?_eq_some h, by simpa using List.find?_some h⟩

theorem namedChildren_sublist (n : Node) : n.namedChildren.Sublist n.children :=
  List.filter_sublist

namespace Placed

variable {n : Node} (h : n.Placed)

include h

theorem laid : Span.Laid n.span.start (n.children.map span) n.span.stop := by
  cases n
  exact h.1

theorem fields (hn : n.kind = "variable_declarator") :
    (n.children.filterMap fun c => c.label.field).Sublist variableFields := by
  cases n
  exact h.2.1 hn

theorem child {c : Node} (hc : c ∈ n.children) : c.Placed := by
  cases n
  exact allPlaced_iff.mp h.2.2 c hc

/-- A child lies in its parent and is not empty. -/
theorem bounds {c : Node} (hc : c ∈ n.children) :
    n.span.start ≤ c.span.start ∧ c.span.start < c.span.stop ∧ c.span.stop ≤ n.span.stop :=
  h.laid.of_mem (List.mem_map_of_mem hc)

/-- What a variable has under two fields stands in the order of the fields. -/
theorem before {f g : String} {a b : Node} (hn : n.kind = "variable_declarator")
    (hfg : variableFields.Pairwise fun x y => ¬(x = g ∧ y = f)) (hne : f ≠ g)
    (ha : n.child? f = some a) (hb : n.child? g = some b) : a.span.stop ≤ b.span.start := by
  obtain ⟨hamem, haf⟩ := child?_mem ha
  obtain ⟨hbmem, hbf⟩ := child?_mem hb
  have hspans := List.pairwise_map.mp h.laid.pairwise
  have hfields := List.pairwise_filterMap.mp (hfg.sublist (h.fields hn))
  obtain ⟨before, after, hsplit⟩ := List.append_of_mem hamem
  rw [hsplit] at hspans hfields hbmem
  rcases List.mem_append.mp hbmem with hmem | hmem
  · have hwrong := (List.pairwise_append.mp hfields).2.2 b hmem a List.mem_cons_self
    exact absurd ⟨rfl, rfl⟩ (hwrong g hbf f haf)
  · rcases List.mem_cons.mp hmem with rfl | hmem
    · exact absurd (Option.some.inj (haf.symm.trans hbf)) hne
    · exact List.rel_of_pairwise_cons (List.pairwise_append.mp hspans).2.1 hmem

end Placed

end Node

/-- Where a parser finds no error in a text, the tree that it gives lies in the text, and all its
nodes are in place. -/
def Parser.Places [Parser] (source : List Char) : Prop :=
  (Parser.root source).hasError = false →
    (Parser.root source).span.stop ≤ source.length ∧ (Parser.root source).Placed

instance [Parser] (source : List Char) : Decidable (Parser.Places source) :=
  inferInstanceAs (Decidable (_ → _))

end TypeLoom.ResolverModule
