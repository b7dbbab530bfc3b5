import TypeLoom.ResolverModule.Reading
import TypeLoom.Proofs.Reading.Trees

/-!
# Where the parts of a module stand

What is recorded of a module lies in its text, the import statements and the variable apart from
each other, if the nodes of its tree are in place: `read_placed`.
-/

namespace TypeLoom.ResolverModule

/-- The ends of names and the braces of an import statement lie inside it. -/
structure ImportStatement.Placed (i : ImportStatement) : Prop where
  span : i.span.start < i.span.stop
  default : ∀ s ∈ i.defaultStop, i.span.start < s ∧ s ≤ i.span.stop
  named : ∀ n ∈ i.named, i.span.start ≤ n.span.start ∧ n.span.start < n.span.stop ∧
    n.span.stop ≤ i.span.stop
  last : ∀ n ∈ i.named, ∀ s ∈ n.lastStop, i.span.start < s ∧ s ≤ i.span.stop
  empty : ∀ n ∈ i.named, n.lastStop = none → n.locals = []

/-- The name, the annotation and the value of a variable follow one another. -/
structure Binding.Placed (b : Binding) (lo hi : Nat) : Prop where
  name : lo < b.nameStop
  value : b.nameStop ≤ b.object.span.start
  object : b.object.span.start < b.object.span.stop
  stop : b.object.span.stop ≤ hi
  typed : ∀ a ∈ b.annotation, b.nameStop ≤ a.1.start ∧ a.1.start < a.1.stop ∧
    a.1.stop ≤ b.object.span.start

/-- What is known of a module up to an offset: import statements and the variable stand apart. -/
structure Outline.Placed (m : Outline) (hi : Nat) : Prop where
  imports : ∀ i ∈ m.imports, i.Placed ∧ i.span.stop ≤ hi
  binding : ∀ b ∈ m.binding, b.Placed 0 hi
  apart : ∀ i ∈ m.imports, ∀ b ∈ m.binding,
    i.span.stop < b.nameStop ∨ b.object.span.stop ≤ i.span.start

theorem Binding.Placed.mono {b : Binding} {lo lo' hi hi' : Nat} (h : b.Placed lo hi)
    (hlo : lo' ≤ lo) (hhi : hi ≤ hi') : b.Placed lo' hi' :=
  ⟨Nat.lt_of_le_of_lt hlo h.name, h.value, h.object, Nat.le_trans h.stop hhi, h.typed⟩

theorem Outline.Placed.mono {m : Outline} {lo hi : Nat} (h : m.Placed lo) (hle : lo ≤ hi) :
    m.Placed hi where
  imports i hi' := ⟨(h.imports i hi').1, Nat.le_trans (h.imports i hi').2 hle⟩
  binding b hb := (h.binding b hb).mono (Nat.le_refl 0) hle
  apart := h.apart

namespace Reading

variable {source : List Char}

/-! ### Imports -/

theorem namedImports_last {braces : Node} (h : braces.Placed) :
    ∀ s ∈ (namedImports source braces).lastStop, braces.span.start < s ∧ s ≤ braces.span.stop := by
  intro s hs
  obtain ⟨last, hlast, rfl⟩ := Option.map_eq_some_iff.mp hs
  have hmem : last ∈ braces.children :=
    braces.namedChildren_sublist.subset (List.mem_filter.mp (List.mem_of_getLast? hlast)).1
  have hbounds := h.bounds hmem
  omega

theorem namedImports_empty {braces : Node} (h : (namedImports source braces).lastStop = none) :
    (namedImports source braces).locals = [] := by
  have hnone : braces.namedChildren.filter (·.kind == "import_specifier") = [] := by
    simpa [namedImports] using h
  simp [namedImports, hnone]

/-- A part of a clause keeps what is known of a statement around it in place. -/
theorem addClausePart_placed (source : List Char) {i : ImportStatement} {part : Node} (hi : i.Placed)
    (hpart : part.Placed) (hstart : i.span.start ≤ part.span.start)
    (hlt : part.span.start < part.span.stop) (hstop : part.span.stop ≤ i.span.stop) :
    (addClausePart source i part).Placed ∧ (addClausePart source i part).span = i.span := by
  unfold addClausePart
  split
  · refine ⟨⟨hi.span, ?_, hi.named, hi.last, hi.empty⟩, rfl⟩
    rintro s ⟨⟩
    exact ⟨by dsimp only; omega, hstop⟩
  · split
    · refine ⟨⟨hi.span, hi.default, ?_, ?_, ?_⟩, rfl⟩
      · rintro n ⟨⟩
        exact ⟨hstart, hlt, hstop⟩
      · rintro n ⟨⟩ s hs
        have hlast := namedImports_last hpart s hs
        exact ⟨by dsimp only; omega, by dsimp only; omega⟩
      · rintro n ⟨⟩ hs
        exact namedImports_empty hs
    · exact ⟨hi, rfl⟩

theorem foldl_addClausePart_placed {parts : List Node} {i : ImportStatement} (hi : i.Placed)
    (hparts : ∀ p ∈ parts, p.Placed ∧ i.span.start ≤ p.span.start ∧
      p.span.start < p.span.stop ∧ p.span.stop ≤ i.span.stop) :
    (parts.foldl (addClausePart source) i).Placed ∧
      (parts.foldl (addClausePart source) i).span = i.span := by
  induction parts generalizing i with
  | nil => exact ⟨hi, rfl⟩
  | cons p parts ih =>
    rw [List.forall_mem_cons] at hparts
    obtain ⟨⟨hp, hstart, hlt, hstop⟩, hrest⟩ := hparts
    obtain ⟨hadded, hspan⟩ := addClausePart_placed source hi hp hstart hlt hstop
    rw [← hspan] at hrest
    obtain ⟨hfold, hfoldSpan⟩ := ih hadded hrest
    exact ⟨hfold, hfoldSpan.trans hspan⟩

theorem import?_placed {statement : Node} {i : ImportStatement} (hs : statement.Placed)
    (hlt : statement.span.start < statement.span.stop)
    (h : import? source statement = some i) : i.Placed ∧ i.span = statement.span := by
  obtain ⟨path, -, rfl⟩ := Option.map_eq_some_iff.mp h
  have hbare : ImportStatement.Placed
      ⟨none, none, unquote (path.text source), statement.span⟩ :=
    ⟨hlt, nofun, nofun, nofun, nofun⟩
  dsimp only
  split
  · next clause hclause =>
    have hmem : clause ∈ statement.children :=
      statement.namedChildren_sublist.subset (List.mem_of_find?_eq_some hclause)
    have hbounds := hs.bounds hmem
    refine foldl_addClausePart_placed hbare fun p hp => ?_
    have hpmem := clause.namedChildren_sublist.subset hp
    have hpbounds := (hs.child hmem).bounds hpmem
    exact ⟨(hs.child hmem).child hpmem, by dsimp only; omega, hpbounds.2.1,
      by dsimp only; omega⟩
  · exact ⟨hbare, rfl⟩

/-! ### The variable -/

/-- An annotation lies in the node that a variable has for its type. -/
theorem annotation?_bounds {v : Node} (hv : v.Placed) {a : Span × String}
    (h : annotation? source v = some a) : ∃ t, v.child? "type" = some t ∧
      t.span.start ≤ a.1.start ∧ a.1.start < a.1.stop ∧ a.1.stop ≤ t.span.stop := by
  obtain ⟨c, hc, rfl⟩ := Option.map_eq_some_iff.mp h
  obtain ⟨t, ht, hhead⟩ := Option.bind_eq_some_iff.mp hc
  have hmem := t.namedChildren_sublist.subset (List.mem_of_head? hhead)
  exact ⟨t, ht, (hv.child (Node.child?_mem ht).1).bounds hmem⟩

/-- A variable that is found is one of those declared, and its value is an object literal. -/
theorem binding?_cases {start : Nat} {declaration : Node} {b : Binding}
    (h : binding? source start declaration = .ok (some b)) :
    ∃ v name value, v ∈ declaration.children ∧ v.kind = "variable_declarator" ∧
      v.child? "name" = some name ∧ v.child? "value" = some value ∧ value.kind = "object" ∧
      b = ⟨(lineIndent source start).getD "", name.span.stop, objectLiteral source value,
        annotation? source v⟩ := by
  unfold binding? at h
  split at h
  · cases h
  · split at h
    · cases h
    · next v hv =>
      have hdeclares := List.find?_some hv
      simp only [declaresBinding, Bool.and_eq_true, beq_iff_eq] at hdeclares
      have hmem := declaration.namedChildren_sublist.subset (List.mem_of_find?_eq_some hv)
      split at h
      · cases h
      · cases h
      · next name value hname hvalue =>
        split at h
        · next hobject =>
          cases h
          exact ⟨v, name, value, hmem, hdeclares.1, hname, hvalue, hobject, rfl⟩
        · cases h

theorem binding?_placed {start : Nat} {declaration : Node} {b : Binding}
    (hd : declaration.Placed) (h : binding? source start declaration = .ok (some b)) :
    b.Placed declaration.span.start declaration.span.stop := by
  obtain ⟨v, name, value, hmem, hkind, hname, hvalue, -, rfl⟩ := binding?_cases h
  have hv := hd.child hmem
  have hvbounds := hd.bounds hmem
  have hnbounds := hv.bounds (Node.child?_mem hname).1
  have hobounds := hv.bounds (Node.child?_mem hvalue).1
  have horder : name.span.stop ≤ value.span.start :=
    hv.before hkind (by decide) (by decide) hname hvalue
  refine ⟨by dsimp only; omega, horder, hobounds.2.1, ?_, ?_⟩
  · exact Nat.le_trans hobounds.2.2 hvbounds.2.2
  · intro a ha
    obtain ⟨t, ht, hstart, hlt, hstop⟩ := annotation?_bounds hv ha
    have hbefore : name.span.stop ≤ t.span.start :=
      hv.before hkind (by decide) (by decide) hname ht
    have hafter : t.span.stop ≤ value.span.start :=
      hv.before hkind (by decide) (by decide) ht hvalue
    exact ⟨Nat.le_trans hbefore hstart, hlt, Nat.le_trans hstop hafter⟩

/-! ### Statements -/

/-- What a statement declares lies in it. -/
theorem declaration?_placed {statement d : Node} (hs : statement.Placed)
    (h : declaration? statement = some d) :
    d.Placed ∧ statement.span.start ≤ d.span.start ∧ d.span.stop ≤ statement.span.stop := by
  unfold declaration? at h
  split at h
  · obtain ⟨hmem, -⟩ := Node.child?_mem h
    have hbounds := hs.bounds hmem
    exact ⟨hs.child hmem, hbounds.1, hbounds.2.2⟩
  · obtain rfl := Option.some.inj (Option.ite_none_right_eq_some.mp h).2
    exact ⟨hs, Nat.le_refl _, Nat.le_refl _⟩

/-- What a statement adds to what is known of a module. -/
inductive Adds (source : List Char) (m : Outline) (statement : Node) : Outline → Prop
  | comment : Adds source m statement m
  | imported : Adds source m statement
      { m with hasStatements := true, imports := m.imports ++ (import? source statement).toList }
  | declared {d : Node} {binding : Option Binding} (hd : declaration? statement = some d)
      (hb : binding? source statement.span.start d = .ok binding) :
      Adds source m statement { m with hasStatements := true, binding }
  | other : Adds source m statement { m with hasStatements := true }

theorem adds_of_addStatement {m m' : Outline} {statement : Node}
    (h : addStatement source m statement = .ok m') : Adds source m statement m' := by
  unfold addStatement at h
  split at h
  · cases h
    exact .comment
  · split at h
    · cases h
      exact .imported
    · split at h
      · next d _ hd =>
        cases hbinding : binding? source statement.span.start d with
        | error e =>
          rw [hbinding] at h
          cases h
        | ok binding =>
          rw [hbinding] at h
          cases h
          exact .declared hd hbinding
      · cases h
        exact .other

/-- A statement more keeps what is known of a module in place. -/
theorem Adds.placed {m m' : Outline} {statement : Node} (h : Adds source m statement m')
    (hs : statement.Placed) (hlt : statement.span.start < statement.span.stop)
    (hm : m.Placed statement.span.start) : m'.Placed statement.span.stop := by
  have hkept := hm.mono (Nat.le_of_lt hlt)
  cases h with
  | comment => exact hkept
  | imported =>
    have hadded : ∀ i ∈ (import? source statement).toList, i.Placed ∧ i.span = statement.span :=
      fun i hi => import?_placed hs hlt (Option.mem_toList.mp hi)
    refine ⟨?_, hkept.binding, ?_⟩
    · intro i hi
      rcases List.mem_append.mp hi with hi | hi
      · exact hkept.imports i hi
      · obtain ⟨hplaced, hspan⟩ := hadded i hi
        exact ⟨hplaced, hspan ▸ Nat.le_refl _⟩
    -- A later import stands after the variable, which ends before this statement starts.
    · intro i hi b hb
      rcases List.mem_append.mp hi with hi | hi
      · exact hm.apart i hi b hb
      · rw [(hadded i hi).2]
        exact .inr (hm.binding b hb).stop
  | declared hd hbinding =>
    obtain ⟨hplaced, hstart, hstop⟩ := declaration?_placed hs hd
    refine ⟨hkept.imports, ?_, ?_⟩
    · rintro b ⟨⟩
      exact (binding?_placed hplaced hbinding).mono (Nat.zero_le _) hstop
    · rintro i hi b ⟨⟩
      have hname := (binding?_placed hplaced hbinding).name
      exact .inl (Nat.lt_of_le_of_lt (Nat.le_trans (hm.imports i hi).2 hstart) hname)
  | other => exact ⟨hkept.imports, hkept.binding, hkept.apart⟩

theorem foldlM_cons_ok {m m' : Outline} {statement : Node} {statements : List Node}
    (h : (statement :: statements).foldlM (addStatement source) m = .ok m') :
    ∃ m₁, Adds source m statement m₁ ∧ statements.foldlM (addStatement source) m₁ = .ok m' := by
  rw [List.foldlM_cons] at h
  cases hadd : addStatement source m statement with
  | error e =>
    rw [hadd] at h
    cases h
  | ok m₁ =>
    rw [hadd] at h
    exact ⟨m₁, adds_of_addStatement hadd, h⟩

theorem foldlM_placed {lo hi : Nat} {m m' : Outline} {statements : List Node}
    (hl : Span.Laid lo (statements.map Node.span) hi) (hs : ∀ s ∈ statements, s.Placed)
    (hm : m.Placed lo) (h : statements.foldlM (addStatement source) m = .ok m') :
    m'.Placed hi := by
  induction statements generalizing lo m with
  | nil =>
    cases h
    exact hm.mono hl
  | cons s statements ih =>
    rw [List.forall_mem_cons] at hs
    obtain ⟨hstart, hlt, hrest⟩ := hl
    obtain ⟨m₁, hadds, hlater⟩ := foldlM_cons_ok h
    exact ih hrest hs.2 (hadds.placed hs.1 hlt (hm.mono hstart)) hlater

/-! ### The literal of the variable -/

theorem declaration?_contains {statement d e : Node} (h : declaration? statement = some d)
    (hd : d.Contains e) : statement.Contains e := by
  unfold declaration? at h
  split at h
  · exact .child (Node.child?_mem h).1 hd
  · obtain rfl := Option.some.inj (Option.ite_none_right_eq_some.mp h).2
    exact hd

theorem binding?_object {start : Nat} {declaration : Node} {b : Binding}
    (h : binding? source start declaration = .ok (some b)) :
    ∃ object, declaration.Contains object ∧ object.kind = "object" ∧
      b.object = objectLiteral source object := by
  obtain ⟨v, name, value, hmem, -, -, hvalue, hkind, rfl⟩ := binding?_cases h
  exact ⟨value, .child hmem (.child (Node.child?_mem hvalue).1 (.self value)), hkind, rfl⟩

theorem Adds.object {m m' : Outline} {statement : Node} {b : Binding}
    (h : Adds source m statement m') (hb : b ∈ m'.binding) :
    b ∈ m.binding ∨ ∃ object, statement.Contains object ∧ object.kind = "object" ∧
      b.object = objectLiteral source object := by
  cases h with
  | comment => exact .inl hb
  | imported => exact .inl hb
  | declared hd hbinding =>
    cases hb
    obtain ⟨object, hcontains, hobject⟩ := binding?_object hbinding
    exact .inr ⟨object, declaration?_contains hd hcontains, hobject⟩
  | other => exact .inl hb

/-- A variable that is found was found in one of the statements. -/
theorem foldlM_object {m m' : Outline} {statements : List Node} {b : Binding}
    (h : statements.foldlM (addStatement source) m = .ok m') (hb : b ∈ m'.binding) :
    b ∈ m.binding ∨ ∃ s ∈ statements, ∃ object, s.Contains object ∧ object.kind = "object" ∧
      b.object = objectLiteral source object := by
  induction statements generalizing m with
  | nil =>
    cases h
    exact .inl hb
  | cons s statements ih =>
    obtain ⟨m₁, hadds, hlater⟩ := foldlM_cons_ok h
    rcases ih hlater with hfound | ⟨t, ht, hfound⟩
    · rcases hadds.object hfound with hold | hnew
      · exact .inl hold
      · exact .inr ⟨s, List.mem_cons_self, hnew⟩
    · exact .inr ⟨t, List.mem_cons_of_mem s ht, hfound⟩

end Reading

theorem read_eq_ok_iff [Parser] {source : List Char} {m : Outline} :
    read source = .ok m ↔ (Parser.root source).hasError = false ∧
      (Parser.root source).namedChildren.foldlM (Reading.addStatement source)
        ⟨false, [], none⟩ = .ok m := by
  cases herror : (Parser.root source).hasError <;> simp [read, herror]

/-- What `read` records of a text lies inside the text, in order and apart, if the parser places the
nodes of its tree. -/
theorem read_placed [Parser] {source : List Char} {m : Outline} (hplaces : Parser.Places source)
    (h : read source = .ok m) : m.Placed source.length := by
  obtain ⟨herror, hfold⟩ := read_eq_ok_iff.mp h
  obtain ⟨hstop, hroot⟩ := hplaces herror
  have hnamed := (Parser.root source).namedChildren_sublist
  have hlaid : Span.Laid 0 ((Parser.root source).namedChildren.map Node.span) source.length :=
    (hroot.laid.sublist (hnamed.map Node.span)).mono (Nat.zero_le _) hstop
  have hstart : Outline.Placed ⟨false, [], none⟩ 0 := ⟨nofun, nofun, nofun⟩
  exact Reading.foldlM_placed hlaid (fun s hs => hroot.child (hnamed.subset hs)) hstart hfold

/-- The object literal that `read` finds is a node of the tree. -/
theorem read_object [Parser] {source : List Char} {m : Outline} {b : Binding}
    (h : read source = .ok m) (hb : b ∈ m.binding) :
    ∃ object, (Parser.root source).Contains object ∧ object.kind = "object" ∧
      b.object = Reading.objectLiteral source object := by
  obtain ⟨-, hfold⟩ := read_eq_ok_iff.mp h
  obtain hnone | ⟨s, hs, object, hcontains, hobject⟩ := Reading.foldlM_object hfold hb
  · cases hnone
  · have hmem := (Parser.root source).namedChildren_sublist.subset hs
    exact ⟨object, .child hmem hcontains, hobject⟩

end TypeLoom.ResolverModule
