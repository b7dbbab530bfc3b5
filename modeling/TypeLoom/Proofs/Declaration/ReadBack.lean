import TypeLoom.Proofs.Declaration.Outcome

/-!
# Types that are read back as they were written

A type is read back from its text, up to the shape of its unions, exactly if no function in it is
one of several alternatives: `text_reads_back_iff`. Only the items of arrays are put in parentheses,
so the arrow of a function that is an alternative takes those after it, and after a bar it cannot be
read at all.
-/

namespace TypeLoom.Declaration.TypeExpr

/-! ### Flat alternatives -/

theorem allAlternatives_eq_flatMap (ts : List TypeExpr) :
    allAlternatives ts = ts.flatMap alternatives := by
  induction ts with
  | nil => rw [allAlternatives, List.flatMap_nil]
  | cons t ts ih => rw [allAlternatives, ih, List.flatMap_cons]

theorem flattenedTypes_eq_map (ts : List TypeExpr) : flattenedTypes ts = ts.map flattened := by
  induction ts with
  | nil => rw [flattenedTypes, List.map_nil]
  | cons t ts ih => rw [flattenedTypes, ih, List.map_cons, flattened]

theorem flattenedParameters_eq_map (ps : List (String × TypeExpr)) :
    flattenedParameters ps = ps.map fun p => (p.1, p.2.flattened) := by
  induction ps with
  | nil => rw [flattenedParameters, List.map_nil]
  | cons p ps ih => rw [flattenedParameters, ih, List.map_cons, flattened]

/-- Types that are their only alternatives. -/
def Flat (ts : List TypeExpr) : Prop := ∀ t ∈ ts, t.alternatives = [t]

theorem alternatives_ofAlternatives {ts : List TypeExpr} (h : Flat ts) :
    (ofAlternatives ts).alternatives = ts := by
  have hall : allAlternatives ts = ts := by
    rw [allAlternatives_eq_flatMap]
    conv_rhs => rw [← List.flatMap_singleton' ts]
    exact List.flatMap_congr h
  unfold ofAlternatives
  split
  · exact h _ List.mem_cons_self
  · rwa [alternatives]

theorem flattened_ofAlternatives {ts : List TypeExpr} (h : Flat ts) :
    (ofAlternatives ts).flattened = ofAlternatives ts := by
  rw [flattened, alternatives_ofAlternatives h]

theorem ofAlternatives_inj {ts us : List TypeExpr} (ht : Flat ts) (hu : Flat us) :
    ofAlternatives ts = ofAlternatives us ↔ ts = us := by
  refine ⟨fun h => ?_, congrArg _⟩
  rw [← alternatives_ofAlternatives ht, h, alternatives_ofAlternatives hu]

theorem flat_array {ts : List TypeExpr} (h : Flat ts) :
    (array (ofAlternatives ts)).alternatives = [array (ofAlternatives ts)] := by
  rw [alternatives, alternatives_ofAlternatives h]

theorem flat_function {ps : List (String × TypeExpr)} {ts : List TypeExpr}
    (hps : ∀ p ∈ ps, p.2.flattened = p.2) (h : Flat ts) :
    (function ps (ofAlternatives ts)).alternatives = [function ps (ofAlternatives ts)] := by
  rw [alternatives, alternatives_ofAlternatives h, flattenedParameters_eq_map,
    List.map_congr_left fun p hp => by rw [hps p hp], List.map_id']

theorem flat_reference {name : String} {ts : List TypeExpr} (h : ∀ t ∈ ts, t.flattened = t) :
    (reference name ts).alternatives = [reference name ts] := by
  rw [alternatives, flattenedTypes_eq_map, List.map_congr_left h, List.map_id']

theorem alternatives_keyword {t : TypeExpr} {w : String} (hw : t.keyword? = some w) :
    t.alternatives = [t] := by
  cases t <;> first | rfl | cases hw

theorem flat_alternatives {t : TypeExpr} (h : Written t) : Flat t.alternatives := by
  induction h with
  | keyword hw =>
    rw [alternatives_keyword hw, Flat, List.forall_mem_singleton, alternatives_keyword hw]
  | array _ ih =>
    rw [alternatives, Flat, List.forall_mem_singleton, flat_array ih]
  | function _ _ _ ihp ihr =>
    rw [alternatives, Flat, List.forall_mem_singleton, flat_function _ ihr]
    rw [flattenedParameters_eq_map, List.forall_mem_map]
    exact fun p hp => flattened_ofAlternatives (ihp p hp)
  | reference _ _ _ ih =>
    rw [alternatives, Flat, List.forall_mem_singleton, flat_reference]
    rw [flattenedTypes_eq_map, List.forall_mem_map]
    exact fun a ha => flattened_ofAlternatives (ih a ha)
  | @union m ms _ _ ihm ihms =>
    have hall : ∀ t ∈ m :: ms, Flat t.alternatives := List.forall_mem_cons.mpr ⟨ihm, ihms⟩
    rw [alternatives, allAlternatives_eq_flatMap]
    intro u hu
    obtain ⟨t, ht, hu⟩ := List.mem_flatMap.mp hu
    exact hall t ht u hu

/-! ### What is read is flat -/

theorem before_eq_some_iff {u : Option TypeExpr} {more : Option (List TypeExpr)}
    {us : List TypeExpr} :
    before u more = some us ↔ ∃ t ts, u = some t ∧ more = some ts ∧ us = t :: ts := by
  simp only [before, Option.bind_eq_some_iff, Option.map_eq_some_iff]
  constructor
  · rintro ⟨t, ht, ts, hts, rfl⟩
    exact ⟨t, ts, ht, hts, rfl⟩
  · rintro ⟨t, ts, ht, hts, rfl⟩
    exact ⟨t, ht, ts, hts, rfl⟩

/-- Whatever is read of a type, with anything flat after it, is flat. -/
def ReadsFlat (t : TypeExpr) : Prop :=
  ∀ {start : Bool} {more : Option (List TypeExpr)} {us : List TypeExpr},
    (∀ ts ∈ more, Flat ts) → t.outcome start more = some us → Flat us

theorem flat_nil : ∀ ts ∈ some ([] : List TypeExpr), Flat ts := by
  rintro ts ⟨⟩
  exact List.forall_mem_nil _

theorem flat_before {u : Option TypeExpr} {more : Option (List TypeExpr)} {us : List TypeExpr}
    (hu : ∀ t ∈ u, t.alternatives = [t]) (hmore : ∀ ts ∈ more, Flat ts)
    (h : before u more = some us) : Flat us := by
  obtain ⟨t, ts, ht, hts, rfl⟩ := before_eq_some_iff.mp h
  exact List.forall_mem_cons.mpr ⟨hu t ht, hmore ts hts⟩

theorem flattened_of_typeOutcomes {as ts : List TypeExpr} (ha : ∀ a ∈ as, ReadsFlat a)
    (h : typeOutcomes as = some ts) : ∀ t ∈ ts, t.flattened = t := by
  induction as generalizing ts with
  | nil =>
    cases h
    exact List.forall_mem_nil _
  | cons a as ih =>
    rw [List.forall_mem_cons] at ha
    rw [typeOutcomes] at h
    obtain ⟨t, us, ht, hus, rfl⟩ := before_eq_some_iff.mp h
    obtain ⟨vs, hvs, rfl⟩ := Option.map_eq_some_iff.mp ht
    exact List.forall_mem_cons.mpr
      ⟨flattened_ofAlternatives (ha.1 flat_nil hvs), ih ha.2 hus⟩

theorem flattened_of_parameterOutcomes {ps qs : List (String × TypeExpr)}
    (hp : ∀ p ∈ ps, ReadsFlat p.2) (h : parameterOutcomes ps = some qs) :
    ∀ q ∈ qs, q.2.flattened = q.2 := by
  induction ps generalizing qs with
  | nil =>
    cases h
    exact List.forall_mem_nil _
  | cons p ps ih =>
    rw [List.forall_mem_cons] at hp
    rw [parameterOutcomes] at h
    obtain ⟨vs, hvs, hqs⟩ := Option.bind_eq_some_iff.mp h
    obtain ⟨rs, hrs, rfl⟩ := Option.map_eq_some_iff.mp hqs
    exact List.forall_mem_cons.mpr
      ⟨flattened_ofAlternatives (hp.1 flat_nil hvs), ih hp.2 hrs⟩

theorem flat_outcomesAfter {ms : List TypeExpr} (hms : ∀ m ∈ ms, ReadsFlat m)
    {more : Option (List TypeExpr)} (hmore : ∀ ts ∈ more, Flat ts) :
    ∀ ts ∈ outcomesAfter ms more, Flat ts := by
  induction ms with
  | nil => exact hmore
  | cons m ms ih =>
    rw [List.forall_mem_cons] at hms
    rw [outcomesAfter]
    exact fun ts hts => hms.1 (ih hms.2) hts

theorem readsFlat {t : TypeExpr} (h : Written t) : ReadsFlat t := by
  induction h with
  | keyword hw =>
    intro start more us hmore hus
    rw [outcome_of_operand (isLoose_keyword hw), operand?_keyword hw] at hus
    refine flat_before ?_ hmore hus
    rintro u ⟨⟩
    exact alternatives_keyword hw
  | array _ ih =>
    intro start more us hmore hus
    rw [outcome] at hus
    refine flat_before (fun u hu => ?_) hmore hus
    obtain ⟨ts, hts, rfl⟩ := Option.map_eq_some_iff.mp hu
    exact flat_array (ih flat_nil hts)
  | function _ _ _ ihp ihr =>
    intro start more us hmore hus
    rw [outcome] at hus
    split at hus
    · obtain ⟨ps, hps, hus⟩ := Option.bind_eq_some_iff.mp hus
      obtain ⟨ts, hts, rfl⟩ := Option.map_eq_some_iff.mp hus
      exact List.forall_mem_singleton.mpr
        (flat_function (flattened_of_parameterOutcomes ihp hps) (ihr hmore hts))
    · cases hus
  | reference _ _ _ ih =>
    intro start more us hmore hus
    rw [outcome] at hus
    refine flat_before (fun u hu => ?_) hmore hus
    obtain ⟨ts, hts, rfl⟩ := Option.map_eq_some_iff.mp hu
    exact flat_reference (flattened_of_typeOutcomes ih hts)
  | union _ _ ihm ihms =>
    intro start more us hmore hus
    rw [outcome] at hus
    exact ihm (flat_outcomesAfter ihms hmore) hus

/-! ### Alternatives that are no functions -/

theorem alternatives_ne_nil {t : TypeExpr} (h : Written t) : t.alternatives ≠ [] := by
  induction h with
  | keyword hw =>
    rw [alternatives_keyword hw]
    exact List.cons_ne_nil _ _
  | array | function | reference =>
    rw [alternatives]
    exact List.cons_ne_nil _ _
  | union _ _ ih _ =>
    rw [alternatives, allAlternatives]
    exact List.append_ne_nil_of_left_ne_nil ih _

theorem length_alternatives_of_operand {t : TypeExpr} (ht : t.isLoose = false) :
    t.alternatives.length = 1 := by
  cases t <;> first | rfl | cases ht

/-- No alternative of a type is a function. -/
def Plain (t : TypeExpr) : Prop := ∀ u ∈ t.alternatives, u.isFunction = false

/-- Alternatives with those after them. -/
def followed (us : List TypeExpr) (more : Option (List TypeExpr)) : Option (List TypeExpr) :=
  more.map (us ++ ·)

/-- The same is read of a type wherever it stands and whatever is after it, and as many alternatives
as it has. -/
structure ReadsPlainly (t : TypeExpr) : Prop where
  outcome_eq : ∀ start more, t.outcome start more =
    (t.outcome true (some [])).bind (followed · more)
  length_eq : ∀ us ∈ t.outcome true (some []), us.length = t.alternatives.length

theorem readsPlainly_of_operand {t : TypeExpr} (ht : t.isLoose = false) : ReadsPlainly t where
  outcome_eq start more := by
    rw [outcome_of_operand ht, outcome_of_operand ht, before]
    cases t.operand? <;> rfl
  length_eq us hus := by
    rw [outcome_of_operand ht, Option.mem_def, before_eq_some_iff] at hus
    obtain ⟨u, ts, -, ⟨⟩, rfl⟩ := hus
    rw [length_alternatives_of_operand ht]
    rfl

theorem outcomesAfter_eq {ms : List TypeExpr} (hms : ∀ m ∈ ms, ReadsPlainly m)
    (more : Option (List TypeExpr)) :
    outcomesAfter ms more = (outcomesAfter ms (some [])).bind (followed · more) := by
  induction ms with
  | nil => cases more <;> rfl
  | cons m ms ih =>
    rw [List.forall_mem_cons] at hms
    rw [outcomesAfter, outcomesAfter, hms.1.outcome_eq, hms.1.outcome_eq _ (outcomesAfter ms _),
      ih hms.2]
    cases m.outcome true (some []) with
    | none => rfl
    | some us =>
      cases outcomesAfter ms (some []) with
      | none => rfl
      | some vs => cases more <;> simp [followed]

theorem length_of_outcomesAfter {ms : List TypeExpr} (hms : ∀ m ∈ ms, ReadsPlainly m) :
    ∀ us ∈ outcomesAfter ms (some []), us.length = (allAlternatives ms).length := by
  induction ms with
  | nil =>
    rintro us ⟨⟩
    rfl
  | cons m ms ih =>
    rw [List.forall_mem_cons] at hms
    intro us hus
    rw [outcomesAfter, hms.1.outcome_eq, Option.mem_def, Option.bind_eq_some_iff] at hus
    obtain ⟨vs, hvs, hus⟩ := hus
    obtain ⟨ws, hws, rfl⟩ := Option.map_eq_some_iff.mp hus
    rw [allAlternatives, List.length_append, List.length_append, hms.1.length_eq vs hvs,
      ih hms.2 ws hws]

theorem plain_union_iff {ms : List TypeExpr} : Plain (.union ms) ↔ ∀ m ∈ ms, Plain m := by
  rw [Plain, alternatives, allAlternatives_eq_flatMap]
  refine ⟨fun h m hm u hu => h u (List.mem_flatMap.mpr ⟨m, hm, hu⟩), fun h u hu => ?_⟩
  obtain ⟨m, hm, hu⟩ := List.mem_flatMap.mp hu
  exact h m hm u hu

theorem readsPlainly {t : TypeExpr} (h : Written t) (hplain : Plain t) : ReadsPlainly t := by
  induction h with
  | keyword hw => exact readsPlainly_of_operand (isLoose_keyword hw)
  | array | reference => exact readsPlainly_of_operand rfl
  | function =>
    rw [Plain, alternatives, List.forall_mem_singleton] at hplain
    cases hplain
  | @union m ms _ _ ihm ihms =>
    have hall := plain_union_iff.mp hplain
    have hm : ReadsPlainly m := ihm (hall m List.mem_cons_self)
    have hmembers : ∀ u ∈ m :: ms, ReadsPlainly u := List.forall_mem_cons.mpr
      ⟨hm, fun u hu => ihms u hu (hall u (List.mem_cons_of_mem m hu))⟩
    have hjoined : (union (m :: ms)).outcome true (some []) =
        outcomesAfter (m :: ms) (some []) := by
      rw [outcome, outcomesAfter, hm.outcome_eq, hm.outcome_eq false]
    refine ⟨fun start more => ?_, fun us hus => ?_⟩
    · rw [hjoined, ← outcomesAfter_eq hmembers, outcome, outcomesAfter, hm.outcome_eq,
        hm.outcome_eq false]
    · rw [hjoined] at hus
      rw [alternatives]
      exact length_of_outcomesAfter hmembers us hus

theorem ReadsPlainly.exists_after {t : TypeExpr} (h : ReadsPlainly t) {start : Bool}
    {more : Option (List TypeExpr)} {us : List TypeExpr} (hus : t.outcome start more = some us) :
    ∃ vs, more = some vs := by
  rw [h.outcome_eq] at hus
  obtain ⟨ws, -, hus⟩ := Option.bind_eq_some_iff.mp hus
  obtain ⟨vs, hvs, -⟩ := Option.map_eq_some_iff.mp hus
  exact ⟨vs, hvs⟩

theorem plain_of_outcomesAfter {ms : List TypeExpr} (hw : ∀ m ∈ ms, Written m)
    (hms : ∀ m ∈ ms, ∀ {more us}, m.outcome false more = some us → Plain m)
    {more : Option (List TypeExpr)} {us : List TypeExpr} (hus : outcomesAfter ms more = some us) :
    ∀ m ∈ ms, Plain m := by
  induction ms generalizing us with
  | nil => exact List.forall_mem_nil _
  | cons m ms ih =>
    rw [List.forall_mem_cons] at hw hms ⊢
    rw [outcomesAfter] at hus
    have hm : Plain m := hms.1 hus
    obtain ⟨vs, hvs⟩ := (readsPlainly hw.1 hm).exists_after hus
    exact ⟨hm, ih hw.2 hms.2 hvs⟩

/-- Where something is read, no alternative is a function, or there is one function that took
whatever is after it. -/
theorem plain_or_alone {t : TypeExpr} (h : Written t) {start : Bool}
    {more : Option (List TypeExpr)} {us : List TypeExpr} (hus : t.outcome start more = some us) :
    Plain t ∨ start = true ∧ us.length = 1 := by
  induction h generalizing start more us with
  | @keyword t w hw =>
    rw [Plain, alternatives_keyword hw, List.forall_mem_singleton]
    cases t <;> first | exact .inl rfl | cases hw
  | array | reference =>
    rw [Plain, alternatives, List.forall_mem_singleton]
    exact .inl rfl
  | function =>
    rw [outcome] at hus
    split at hus
    · next hstart =>
      obtain ⟨ps, -, hus⟩ := Option.bind_eq_some_iff.mp hus
      obtain ⟨ts, -, rfl⟩ := Option.map_eq_some_iff.mp hus
      exact .inr ⟨hstart, rfl⟩
    · cases hus
  | union hm hms ihm ihms =>
    rw [outcome] at hus
    -- If the first member is a function it takes all others; otherwise they stand after bars.
    refine (ihm hus).imp_left fun hplain => ?_
    obtain ⟨vs, hvs⟩ := (readsPlainly hm hplain).exists_after hus
    rw [plain_union_iff, List.forall_mem_cons]
    refine ⟨hplain, plain_of_outcomesAfter hms (fun u hu more us hus => ?_) hvs⟩
    exact (ihms u hu hus).resolve_right fun hstart => Bool.false_ne_true hstart.1

/-! ### Reading back -/

/-- A type is read as its own alternatives. -/
def ReadsBack (t : TypeExpr) : Prop := t.outcome true (some []) = some t.alternatives

theorem allAlone_iff {ts : List TypeExpr} :
    allAlone ts = true ↔ ∀ t ∈ ts, t.functionsAlone = true := by
  induction ts with
  | nil => simp [allAlone]
  | cons t ts ih => rw [allAlone, Bool.and_eq_true, ih, List.forall_mem_cons]

theorem parametersAlone_iff {ps : List (String × TypeExpr)} :
    parametersAlone ps = true ↔ ∀ p ∈ ps, p.2.functionsAlone = true := by
  induction ps with
  | nil => simp [parametersAlone]
  | cons p ps ih => rw [parametersAlone, Bool.and_eq_true, ih, List.forall_mem_cons]

/-- What is read of a type is one type if and only if it is that one, for flat alternatives. -/
theorem outcome_map_eq_iff {t : TypeExpr} (h : Written t) :
    (t.outcome true (some [])).map ofAlternatives = some t.flattened ↔ ReadsBack t := by
  rw [Option.map_eq_some_iff, ReadsBack]
  constructor
  · rintro ⟨us, hus, he⟩
    rw [hus, (ofAlternatives_inj (readsFlat h flat_nil hus) (flat_alternatives h)).mp he]
  · exact fun hback => ⟨_, hback, rfl⟩

theorem typeOutcomes_eq_iff {as : List TypeExpr} (has : ∀ a ∈ as, Written a) :
    typeOutcomes as = some (flattenedTypes as) ↔ ∀ a ∈ as, ReadsBack a := by
  induction as with
  | nil => simp [typeOutcomes, flattenedTypes]
  | cons a as ih =>
    rw [List.forall_mem_cons] at has
    rw [typeOutcomes, flattenedTypes, before_eq_some_iff, List.forall_mem_cons,
      ← outcome_map_eq_iff has.1, ← ih has.2]
    constructor
    · rintro ⟨t, ts, ht, hts, he⟩
      obtain ⟨rfl, rfl⟩ := List.cons.inj he
      exact ⟨ht, hts⟩
    · rintro ⟨ht, hts⟩
      exact ⟨_, _, ht, hts, rfl⟩

theorem parameterOutcomes_eq_iff {ps : List (String × TypeExpr)} (hps : ∀ p ∈ ps, Written p.2) :
    parameterOutcomes ps = some (flattenedParameters ps) ↔ ∀ p ∈ ps, ReadsBack p.2 := by
  induction ps with
  | nil => simp [parameterOutcomes, flattenedParameters]
  | cons p ps ih =>
    rw [List.forall_mem_cons] at hps
    rw [parameterOutcomes, flattenedParameters, List.forall_mem_cons, ← outcome_map_eq_iff hps.1,
      ← ih hps.2]
    simp only [Option.bind_eq_some_iff, Option.map_eq_some_iff]
    constructor
    · rintro ⟨us, hus, qs, hqs, he⟩
      obtain ⟨hp, rfl⟩ := List.cons.inj he
      exact ⟨⟨us, hus, (Prod.mk.inj hp).2⟩, hqs⟩
    · rintro ⟨⟨us, hus, he⟩, hqs⟩
      exact ⟨us, hus, _, hqs, by rw [he, flattened]⟩

/-- Alternatives without functions are read back one by one. -/
theorem outcomesAfter_eq_iff {ms : List TypeExpr} (hms : ∀ m ∈ ms, ReadsPlainly m) :
    outcomesAfter ms (some []) = some (allAlternatives ms) ↔ ∀ m ∈ ms, ReadsBack m := by
  induction ms with
  | nil => simp [outcomesAfter, allAlternatives]
  | cons m ms ih =>
    rw [List.forall_mem_cons] at hms
    rw [outcomesAfter, allAlternatives, hms.1.outcome_eq, List.forall_mem_cons, ← ih hms.2,
      ReadsBack]
    simp only [Option.bind_eq_some_iff, followed, Option.map_eq_some_iff]
    constructor
    · rintro ⟨us, hus, vs, hvs, he⟩
      -- The lists are cut at the same place, since the first parts have the same length.
      obtain ⟨rfl, rfl⟩ := List.append_inj he (hms.1.length_eq us hus)
      exact ⟨hus, hvs⟩
    · rintro ⟨hus, hvs⟩
      exact ⟨_, hus, _, hvs, rfl⟩

/-- A function that is read back is the only alternative. -/
theorem alone_of_readsBack {t : TypeExpr} (h : Written t) (hback : ReadsBack t) :
    t.alternatives.length = 1 ∨ Plain t :=
  (plain_or_alone h hback).symm.imp_left And.right

theorem readsBack_union_iff {m : TypeExpr} {ms : List TypeExpr} (hm : Written m)
    (hms : ∀ u ∈ ms, Written u)
    (halone : (allAlternatives (m :: ms)).length = 1 ∨ Plain (.union (m :: ms))) :
    ReadsBack (.union (m :: ms)) ↔ ∀ u ∈ m :: ms, ReadsBack u := by
  rcases halone with hone | hplain
  · -- Every member has an alternative, so there is no other one.
    have hnil : ms = [] := by
      cases ms with
      | nil => rfl
      | cons u us =>
        have hm := List.length_pos_iff.mpr (alternatives_ne_nil hm)
        have hu := List.length_pos_iff.mpr (alternatives_ne_nil (hms u List.mem_cons_self))
        simp only [allAlternatives, List.length_append] at hone
        omega
    subst hnil
    rw [List.forall_mem_singleton, ReadsBack, ReadsBack, outcome, outcomesAfter, alternatives,
      allAlternatives, allAlternatives, List.append_nil]
  · have hall := plain_union_iff.mp hplain
    have hmembers : ∀ u ∈ m :: ms, ReadsPlainly u := fun u hu =>
      readsPlainly (List.forall_mem_cons.mpr ⟨hm, hms⟩ u hu) (hall u hu)
    have hfirst := hmembers m List.mem_cons_self
    rw [← outcomesAfter_eq_iff hmembers, ReadsBack, outcome, outcomesAfter, alternatives,
      hfirst.outcome_eq, hfirst.outcome_eq false]

/-- A type is read as its own alternatives exactly if no function in it is one of several. -/
theorem readsBack_iff {t : TypeExpr} (h : Written t) : ReadsBack t ↔ t.functionsAlone = true := by
  induction h with
  | @keyword t w hw =>
    rw [ReadsBack, outcome_of_operand (isLoose_keyword hw), operand?_keyword hw,
      alternatives_keyword hw]
    cases t <;> first | exact iff_of_true rfl rfl | cases hw
  | @array item hi ih =>
    rw [ReadsBack, outcome, alternatives, functionsAlone, ← ih, ← outcome_map_eq_iff hi]
    cases item.outcome true (some []) <;> simp [before, flattened]
  | @function ps r _ hp hr ihp ihr =>
    rw [ReadsBack, outcome, if_pos rfl, alternatives, functionsAlone, Bool.and_eq_true,
      parametersAlone_iff, ← ihr, ← outcome_map_eq_iff hr,
      ← forall₂_congr ihp, ← parameterOutcomes_eq_iff hp]
    cases parameterOutcomes ps <;> cases r.outcome true (some []) <;> simp [flattened]
  | @reference name as _ _ ha ih =>
    rw [ReadsBack, outcome, alternatives, functionsAlone, allAlone_iff, ← forall₂_congr ih,
      ← typeOutcomes_eq_iff ha]
    cases typeOutcomes as <;> simp [before]
  | @union m ms hm hms ihm ihms =>
    have hmembers : (∀ u ∈ m :: ms, ReadsBack u) ↔ ∀ u ∈ m :: ms, u.functionsAlone = true :=
      forall₂_congr (List.forall_mem_cons.mpr ⟨ihm, ihms⟩)
    have halone : ((allAlternatives (m :: ms)).length == 1 ||
        (allAlternatives (m :: ms)).all (!·.isFunction)) = true ↔
          (allAlternatives (m :: ms)).length = 1 ∨ Plain (.union (m :: ms)) := by
      rw [Plain, alternatives, Bool.or_eq_true, beq_iff_eq, List.all_eq_true]
      simp
    rw [functionsAlone, Bool.and_eq_true, halone, allAlone_iff, ← hmembers]
    constructor
    · intro hback
      have hone := alone_of_readsBack (.union hm hms) hback
      rw [alternatives] at hone
      exact ⟨hone, (readsBack_union_iff hm hms hone).mp hback⟩
    · rintro ⟨hone, hall⟩
      exact (readsBack_union_iff hm hms hone).mpr hall

/-- A type is read back from its text, up to the shape of its unions, exactly if no function in it
is one of several alternatives. -/
theorem text_reads_back_iff {t : TypeExpr} (h : Written t) :
    (read? t.text).map flattened = some t.flattened ↔ t.functionsAlone = true := by
  have hflat : (read? t.text).map flattened = (t.outcome true (some [])).map ofAlternatives := by
    rw [read?_text h]
    cases hus : t.outcome true (some []) with
    | none => rfl
    | some us => exact congrArg some (flattened_ofAlternatives (readsFlat h flat_nil hus))
  rw [hflat, outcome_map_eq_iff h, readsBack_iff h]

/-- A union as the result of a function is read back. Next to the function it is taken for a part of
the result. -/
theorem result_reads_back_alternative_not :
    (Written (.function [("parent", .named "User")] (.union [.array .string, .null])) ∧
      (read? "(parent: User) => string[] | null").map flattened =
        some (.function [("parent", .named "User")] (.union [.array .string, .null]))) ∧
      Written (.union [.function [] .undefined, .null]) ∧
        (read? "() => undefined | null").map flattened ≠
          some (.union [.function [] .undefined, .null]) := by
  have hresult :
      Written (.function [("parent", .named "User")] (.union [.array .string, .null])) := by
    refine .function ?_ ?_ (.union (.array (.keyword rfl)) ?_)
    · exact List.forall_mem_singleton.mpr (by decide)
    · exact List.forall_mem_singleton.mpr (.reference (by decide) (by decide) nofun)
    · exact List.forall_mem_singleton.mpr (.keyword rfl)
  have hunion : Written (.union [.function [] .undefined, .null]) :=
    .union (.function nofun nofun (.keyword rfl)) (List.forall_mem_singleton.mpr (.keyword rfl))
  refine ⟨⟨hresult, ?_⟩, hunion, fun hback => ?_⟩
  · exact (text_reads_back_iff hresult).mpr (by decide)
  · exact absurd ((text_reads_back_iff hunion).mp hback) (by decide)

end TypeLoom.Declaration.TypeExpr
