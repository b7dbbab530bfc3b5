import TypeLoom.Proofs.Edit.Substitution
import TypeLoom.Proofs.Merge.Frame

/-!
# A merge as one substitution

The edits of a merge do not reach into each other, and where one inserts text at the start of a
stretch that another replaces, it is given first. So they are made as if all at once, in whatever
order the imports and the variable stand in the module.
-/

namespace TypeLoom.ResolverModule

open Edit (Apart Separate InsertionsFirst substituted)

namespace Edit

theorem Apart.follow {lo hi : Nat} {es : List Edit} (h : Apart lo es hi) :
    es.Pairwise fun a b => a.span.stop ≤ b.span.start := by
  induction es generalizing lo with
  | nil => exact List.Pairwise.nil
  | cons e es ih =>
    refine List.Pairwise.cons ?_ (ih h.2.2)
    intro f hf
    exact (h.2.2.of_mem hf).1

theorem separate_of_apart {cs : List Char} {es : List Edit} (h : Apart 0 es cs.length) :
    Separate cs es :=
  ⟨fun _ he => (h.of_mem he).2, h.follow.imp fun hab => Or.inl hab⟩

theorem insertionsFirst_of_apart {lo hi : Nat} {es : List Edit} (h : Apart lo es hi) :
    InsertionsFirst es := by
  refine List.Pairwise.imp_of_mem ?_ h.follow
  intro a b ha _ hab hstart
  have hspan := (h.of_mem ha).2.1
  omega

/-- Edits that all start later than others may be given before them. -/
theorem InsertionsFirst.swap {es later : List Edit} (h : InsertionsFirst (es ++ later))
    (hlt : ∀ e ∈ later, ∀ d ∈ es, d.span.start < e.span.start) : InsertionsFirst (later ++ es) := by
  obtain ⟨hes, hlater, -⟩ := List.pairwise_append.mp h
  refine List.pairwise_append.mpr ⟨hlater, hes, ?_⟩
  intro e he d hd hstart
  have hde := hlt e he d hd
  omega

end Edit

theorem edits_separate {source : List Char} {m : Outline} (hm : m.Placed source.length)
    (u : Update) (p : Plan) :
    Separate source (edits source m u p) ∧ InsertionsFirst (edits source m u p) := by
  obtain ⟨ann, obj, hedits, himp, hann, hobj⟩ := edits_targets hm u p
  obtain ⟨es, hapart, rfl | ⟨rfl, hlt⟩⟩ := exists_apart hm himp hann hobj
  · rw [hedits]
    exact ⟨Edit.separate_of_apart hapart, Edit.insertionsFirst_of_apart hapart⟩
  · rw [hedits]
    refine ⟨(Edit.separate_of_apart hapart).perm List.perm_append_comm, ?_⟩
    refine (Edit.insertionsFirst_of_apart hapart).swap fun e he d hd => ?_
    exact hlt e (Option.mem_toList.mp he) d hd

/-- A module that can be read is brought up to date by making its edits all at once. -/
theorem merge_eq_substituted [Parser] {text : String} {m : Outline}
    (hplaces : Parser.Places text.toList) (hblank : Text.allBlank text = false)
    (hread : read text.toList = .ok m) (u : Update) :
    merge (some text) u = .ok (String.ofList
      (substituted text.toList (edits text.toList m u (Plan.compute m u)))) := by
  obtain ⟨hseparate, hfirst⟩ := edits_separate (read_placed hplaces hread) u (Plan.compute m u)
  rw [merge_eq_applyAll hblank hread, Edit.applyAll_eq_substituted hseparate hfirst]

end TypeLoom.ResolverModule
