import Mathlib.Data.List.Induction
import TypeLoom.Schema.Folding

/-!
# What folding does to a list of definitions

An extension is folded into the first type with fields of its name, if both are of one kind. Kind
and name of a type stay what they are when it grows, so which extensions are folded is decided by
the definitions that are there at the start. Main statement: folding lets each of these types grow
by its extensions, in their order, and leaves over the extensions that no type takes.
-/

namespace TypeLoom.Schema.Folding

/-- The type of a definition that extensions may be folded into. -/
def base? : Definition → Option TypeDeclaration
  | .type t => if t.body.fieldedKind?.isSome then some t else none
  | _ => none

/-- A type and an extension of it: one of its kind is folded in, any other changes nothing. -/
def grow (t e : TypeDeclaration) : TypeDeclaration := (mergeType t e).getD t

/-- A type with all extensions of its name. -/
def grown (es : List TypeDeclaration) (t : TypeDeclaration) : TypeDeclaration :=
  (es.filter (·.name == t.name)).foldl grow t

/-- Definitions, of which the first base of each name has grown. -/
def enlarged : List TypeDeclaration → List Definition → List Definition
  | _, [] => []
  | es, d :: ds =>
    match base? d with
    | some t => .type (grown es t) :: enlarged (es.filter (·.name != t.name)) ds
    | none => d :: enlarged es ds

/-- Whether the first base of an extension's name is of its kind. -/
def takes (e : TypeDeclaration) : List Definition → Bool
  | [] => false
  | d :: ds =>
    match base? d with
    | some t =>
      if t.name == e.name then t.body.fieldedKind? == e.body.fieldedKind? else takes e ds
    | none => takes e ds

/-- The interfaces that are merged are those of the base, then the others, each once. -/
theorem mergeInterfaces_eq (base more : List String) :
    mergeInterfaces base more = base ++ (more.filter (!base.contains ·)).eraseDups := by
  induction more using List.reverseRecOn with
  | nil => simp [mergeInterfaces]
  | append_singleton more i ih =>
    have hstep : mergeInterfaces base (more ++ [i]) =
        if (mergeInterfaces base more).contains i then mergeInterfaces base more
        else mergeInterfaces base more ++ [i] := by
      simp [mergeInterfaces, List.foldl_append]
    rw [hstep, ih, List.filter_append, List.eraseDups_append]
    by_cases hbase : i ∈ base
    · simp [hbase]
    · by_cases hmore : i ∈ more <;> simp [hbase, hmore, List.removeAll, List.eraseDups_cons]

theorem base?_eq_some {d : Definition} {t : TypeDeclaration} (h : base? d = some t) :
    d = .type t ∧ t.body.fieldedKind?.isSome = true := by
  unfold base? at h
  split at h
  · split at h
    · cases h
      exact ⟨rfl, by assumption⟩
    · cases h
  · cases h

theorem base?_type {t : TypeDeclaration} (h : t.body.fieldedKind?.isSome = true) :
    base? (.type t) = some t := by
  simp [base?, h]

theorem isBaseOf_eq (name : String) (d : Definition) :
    isBaseOf name d = (base? d).any (·.name == name) := by
  cases d with
  | type t => cases h : t.body.fieldedKind?.isSome <;> simp [isBaseOf, base?, h]
  | _ => rfl

theorem mergeBody_isSome (b e : TypeBody) :
    (mergeBody b e).isSome = (b.fieldedKind?.isSome && b.fieldedKind? == e.fieldedKind?) := by
  cases b <;> cases e <;> rfl

theorem mergeBody_kind {b e merged : TypeBody} (h : mergeBody b e = some merged) :
    merged.fieldedKind? = b.fieldedKind? := by
  cases b <;> cases e <;> cases h <;> rfl

@[simp]
theorem grow_name (t e : TypeDeclaration) : (grow t e).name = t.name := by
  unfold grow mergeType
  cases mergeBody t.body e.body <;> rfl

@[simp]
theorem grow_kind (t e : TypeDeclaration) :
    (grow t e).body.fieldedKind? = t.body.fieldedKind? := by
  unfold grow mergeType
  cases h : mergeBody t.body e.body with
  | none => rfl
  | some body => exact mergeBody_kind h

theorem foldl_grow_name (es : List TypeDeclaration) (t : TypeDeclaration) :
    (es.foldl grow t).name = t.name := by
  induction es generalizing t with
  | nil => rfl
  | cons e es ih => rw [List.foldl_cons, ih, grow_name]

theorem foldl_grow_kind (es : List TypeDeclaration) (t : TypeDeclaration) :
    (es.foldl grow t).body.fieldedKind? = t.body.fieldedKind? := by
  induction es generalizing t with
  | nil => rfl
  | cons e es ih => rw [List.foldl_cons, ih, grow_kind]

@[simp]
theorem grown_name (es : List TypeDeclaration) (t : TypeDeclaration) :
    (grown es t).name = t.name := foldl_grow_name _ t

@[simp]
theorem grown_kind (es : List TypeDeclaration) (t : TypeDeclaration) :
    (grown es t).body.fieldedKind? = t.body.fieldedKind? := foldl_grow_kind _ t

theorem grown_of_name_ne {e t : TypeDeclaration} (h : e.name ≠ t.name) : grown [e] t = t := by
  simp [grown, h]

theorem grown_of_name_eq {e t : TypeDeclaration} (h : e.name = t.name) :
    grown [e] t = grow t e := by
  simp [grown, h]

theorem grown_append (es fs : List TypeDeclaration) (t : TypeDeclaration) :
    grown (es ++ fs) t = grown fs (grown es t) := by
  have hname := grown_name es t
  unfold grown at hname ⊢
  rw [List.filter_append, List.foldl_append, hname]

/-- Extensions of another name change nothing. -/
theorem grown_without (es : List TypeDeclaration) (t : TypeDeclaration) :
    grown (es.filter (·.name != t.name)) t = t := by
  have hnone : (es.filter (·.name != t.name)).filter (·.name == t.name) = [] := by
    simp +contextual [List.filter_eq_nil_iff]
  rw [grown, hnone, List.foldl_nil]

theorem grown_filter_of_ne {n : String} {t : TypeDeclaration} (h : n ≠ t.name)
    (es : List TypeDeclaration) : grown (es.filter (·.name != n)) t = grown es t := by
  unfold grown
  rw [List.filter_filter]
  congr 1
  refine List.filter_congr fun e _ => ?_
  by_cases he : e.name = t.name
  · simp [he, h.symm]
  · simp [he]

theorem base?_grown {d : Definition} {t : TypeDeclaration} (h : base? d = some t)
    (es : List TypeDeclaration) : base? (.type (grown es t)) = some (grown es t) :=
  base?_type (by rw [grown_kind]; exact (base?_eq_some h).2)

theorem enlarged_nil (ds : List Definition) : enlarged [] ds = ds := by
  induction ds with
  | nil => rfl
  | cons d ds ih =>
    unfold enlarged
    split
    · rename_i t ht
      rw [(base?_eq_some ht).1, List.filter_nil, ih]
      rfl
    · rw [ih]

/-- Extensions may be folded in one after the other. -/
theorem enlarged_append (es : List TypeDeclaration) (e : TypeDeclaration) (ds : List Definition) :
    enlarged (es ++ [e]) ds = enlarged [e] (enlarged es ds) := by
  induction ds generalizing es with
  | nil => rfl
  | cons d ds ih =>
    cases hd : base? d with
    | none => simp only [enlarged, hd, ih]
    | some t =>
      simp only [enlarged, hd, base?_grown hd, grown_append, grown_name, List.filter_append]
      by_cases hname : e.name = t.name
      · simp [hname, enlarged_nil]
      · simp [hname, ih]

theorem takes_enlarged (e : TypeDeclaration) (es : List TypeDeclaration) (ds : List Definition) :
    takes e (enlarged es ds) = takes e ds := by
  induction ds generalizing es with
  | nil => rfl
  | cons d ds ih =>
    cases hd : base? d with
    | none => simp only [enlarged, takes, hd, ih]
    | some t => simp only [enlarged, takes, hd, base?_grown hd, grown_name, grown_kind, ih]

/-- Absorbing an extension is to let its base grow, if that takes it. -/
theorem absorb_eq (e : TypeDeclaration) (ds : List Definition) :
    absorb e ds = if takes e ds then some (enlarged [e] ds) else none := by
  induction ds with
  | nil => rfl
  | cons d ds ih =>
    unfold absorb
    rw [isBaseOf_eq]
    cases hd : base? d with
    | none =>
      simp only [enlarged, takes, hd, ih, Option.any_none, Bool.false_eq_true, if_false]
      split <;> rfl
    | some t =>
      obtain ⟨rfl, hkind⟩ := base?_eq_some hd
      by_cases hname : t.name = e.name
      · have hmerge := mergeBody_isSome t.body e.body
        rw [hkind, Bool.true_and] at hmerge
        have hrest : [e].filter (·.name != t.name) = [] := by simp [hname]
        simp only [enlarged, takes, hd, hrest, enlarged_nil, Option.any_some,
          beq_iff_eq.mpr hname, if_true, grown_of_name_eq hname.symm, grow, mergeType, ← hmerge]
        cases mergeBody t.body e.body <;> rfl
      · have hother : e.name ≠ t.name := fun h => hname h.symm
        simp only [enlarged, takes, hd, ih, Option.any_some, beq_iff_eq, hname, if_false,
          grown_of_name_ne hother]
        split <;> simp [hother]

/-- An extension that is not taken changes nothing. -/
theorem enlarged_of_not_takes {e : TypeDeclaration} {ds : List Definition}
    (h : takes e ds = false) : enlarged [e] ds = ds := by
  induction ds with
  | nil => rfl
  | cons d ds ih =>
    cases hd : base? d with
    | none =>
      simp only [takes, hd] at h
      simp only [enlarged, hd, ih h]
    | some t =>
      obtain ⟨rfl, hkind⟩ := base?_eq_some hd
      simp only [takes, hd] at h
      by_cases hname : e.name = t.name
      · have hmerge := mergeBody_isSome t.body e.body
        rw [hkind, Bool.true_and] at hmerge
        rw [if_pos (beq_iff_eq.mpr hname.symm), ← hmerge] at h
        have hnone : mergeBody t.body e.body = none := by simpa using h
        simp [enlarged, hd, hname, grown_of_name_eq hname, grow, mergeType, hnone, enlarged_nil]
      · have hother : t.name ≠ e.name := fun h => hname h.symm
        rw [if_neg (by simpa using hother)] at h
        simp [enlarged, hd, hname, grown_of_name_ne hname, ih h]

/-- Folding extensions one after the other lets the bases grow, and keeps those that are not taken
in their order. -/
theorem foldl_foldStep (es : List TypeDeclaration) (ds : List Definition) :
    es.foldl foldStep (ds, []) = (enlarged es ds, es.filter fun e => !takes e ds) := by
  induction es using List.reverseRecOn with
  | nil => rw [enlarged_nil]; rfl
  | append_singleton es e ih =>
    rw [List.foldl_append, ih, List.foldl_cons, List.foldl_nil, foldStep, absorb_eq,
      takes_enlarged, enlarged_append, List.filter_append]
    cases htakes : takes e ds with
    | true => simp [htakes]
    | false =>
      have hsame := enlarged_of_not_takes ((takes_enlarged e es ds).trans htakes)
      simp [htakes, hsame]

/-- The definitions with their extensions folded in. -/
theorem fold_eq (ds : List Definition) :
    fold ds = enlarged (extensions ds) (bases ds) ++
      ((extensions ds).filter fun e => !takes e (bases ds)).map .extension := by
  rw [fold, foldl_foldStep]

theorem stripType_name (t : TypeDeclaration) : (stripType t).name = t.name := by
  unfold stripType
  split <;> rfl

theorem stripType_kind (t : TypeDeclaration) :
    (stripType t).body.fieldedKind? = t.body.fieldedKind? := by
  unfold stripType
  split <;> rename_i h <;> simp [h, TypeBody.fieldedKind?]

/-- An extension of another kind changes nothing. -/
theorem grow_of_kind_ne {t e : TypeDeclaration}
    (h : e.body.fieldedKind? ≠ t.body.fieldedKind?) : grow t e = t := by
  have hsome : (mergeBody t.body e.body).isSome = false := by
    rw [mergeBody_isSome, beq_false_of_ne (Ne.symm h), Bool.and_false]
  have hnone : mergeBody t.body e.body = none := by simpa using hsome
  rw [grow, mergeType, hnone]
  rfl

/-- Only the extensions of its own kind make a type grow. -/
theorem foldl_grow_filter (es : List TypeDeclaration) (t : TypeDeclaration) :
    es.foldl grow t = (es.filter (·.body.fieldedKind? == t.body.fieldedKind?)).foldl grow t := by
  induction es generalizing t with
  | nil => rfl
  | cons e es ih =>
    rw [List.foldl_cons, ih, grow_kind, List.filter_cons]
    by_cases hkind : e.body.fieldedKind? = t.body.fieldedKind?
    · rw [if_pos (beq_iff_eq.mpr hkind), List.foldl_cons]
    · rw [if_neg (by simpa using hkind), grow_of_kind_ne hkind]

theorem extension_notMem_enlarged {es : List TypeDeclaration} {ds : List Definition}
    {e : TypeDeclaration} (h : .extension e ∉ ds) : .extension e ∉ enlarged es ds := by
  induction ds generalizing es with
  | nil => exact List.not_mem_nil
  | cons d ds ih =>
    obtain ⟨hd, hds⟩ := not_or.mp fun hmem => h (List.mem_cons.mpr hmem)
    cases hbase : base? d with
    | none =>
      simp only [enlarged, hbase, List.mem_cons, not_or]
      exact ⟨hd, ih hds⟩
    | some t =>
      simp only [enlarged, hbase, List.mem_cons, not_or]
      exact ⟨nofun, ih hds⟩

theorem extension_notMem_bases (ds : List Definition) (e : TypeDeclaration) :
    .extension e ∉ bases ds := by
  intro he
  obtain ⟨d, -, hd⟩ := List.mem_filterMap.mp he
  split at hd
  case h_1 => split at hd <;> cases hd
  all_goals cases hd

end TypeLoom.Schema.Folding
