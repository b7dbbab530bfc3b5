import TypeLoom.Proofs.Merge.Frame

/-!
# When the type of the resolvers is imported

Of the import statements from the path of an update, the first one alone is asked whether it binds
the type. Main statement: that is right exactly where the first one binds the type if any of them
does. There a merge leaves every import statement alone if one of them binds the type, and otherwise
adds the type to the imports once.
-/

namespace TypeLoom.ResolverModule

open Edit (Apart replaced)

/-- Whether a statement binds a name by its named imports. -/
def ImportStatement.Binds (i : ImportStatement) (name : String) : Prop :=
  ∃ n ∈ i.named, name ∈ n.locals

/-- Whether some import statement from the path of an update binds its type. -/
def Imported (m : Outline) (u : Update) : Prop :=
  ∃ i ∈ m.imports, i.source = u.importPath ∧ i.Binds u.type

/-- Whether the first import statement from a path binds the type if any of them does. -/
def FirstDecides (m : Outline) (u : Update) : Prop :=
  Imported m u → ∃ i, m.importFrom? u.importPath = some i ∧ i.Binds u.type

/-- Where the variable of the resolvers is written. -/
def VariableTarget (m : Outline) (stop : Nat) (s : Span) : Prop :=
  AnnotationTarget m s ∨ ObjectTarget m stop s

variable {m : Outline} {u : Update}

/-! ### The plan -/

theorem missingImport_compute (m : Outline) (u : Update) :
    (Plan.compute m u).missingImport = Plan.lacksImport m u := by
  unfold Plan.compute
  split <;> rfl

theorem lacksImport_iff :
    Plan.lacksImport m u = true ↔ ¬ ∃ i, m.importFrom? u.importPath = some i ∧ i.Binds u.type := by
  unfold Plan.lacksImport ImportStatement.Binds
  cases m.importFrom? u.importPath with
  | none => simp
  | some i => cases hnamed : i.named <;> simp [hnamed]

theorem imported_of_first (h : ∃ i, m.importFrom? u.importPath = some i ∧ i.Binds u.type) :
    Imported m u := by
  obtain ⟨i, hfind, hbinds⟩ := h
  exact ⟨i, List.mem_of_find?_eq_some hfind, by simpa using List.find?_some hfind, hbinds⟩

/-- The plan is right about the import exactly where the first statement decides. -/
theorem missingImport_iff :
    ((Plan.compute m u).missingImport = true ↔ ¬ Imported m u) ↔ FirstDecides m u := by
  rw [missingImport_compute, lacksImport_iff, not_iff_not]
  constructor
  · intro h
    exact h.mpr
  · intro h
    exact ⟨imported_of_first, h⟩

/-! ### The edits -/

theorem toList_importText (u : Update) :
    ∃ rest, (importText u).toList =
      "import \x7b ".toList ++ u.type.toList ++ rest ++ [';', '\n'] := by
  refine ⟨(" \x7d from " ++ Declaration.quoted u.importPath).toList, ?_⟩
  simp [importText, String.toList_append]

theorem trimEnd_importText (u : Update) :
    ∃ rest, Text.trimEnd (importText u).toList =
      "import \x7b ".toList ++ u.type.toList ++ rest := by
  obtain ⟨rest, htext⟩ := toList_importText u
  refine ⟨rest ++ [';'], ?_⟩
  have hblank : Text.isBlank '\n' = true := by decide
  have hmark : Text.isBlank ';' = false := by decide
  rw [htext, Text.trimEnd]
  simp [hblank, hmark]

/-- What is written among the imports contains the type. -/
theorem type_infix_importEdit (m : Outline) (u : Update) :
    u.type.toList <:+: (importEdit m u).text := by
  have hstatement : u.type.toList <:+: (importStatementEdit m u).text := by
    obtain ⟨rest, htext⟩ := toList_importText u
    have hwhole (more : List Char) : u.type.toList <:+: (importText u).toList ++ more :=
      ⟨"import \x7b ".toList, rest ++ [';', '\n'] ++ more, by rw [htext]; simp⟩
    unfold importStatementEdit
    dsimp only
    split
    · obtain ⟨rest, htrimmed⟩ := trimEnd_importText u
      exact ⟨'\n' :: "import \x7b ".toList, rest, by simp [Edit.insertAt, htrimmed]⟩
    · rw [Edit.insertAt]
      split
      · rw [String.toList_append]
        exact hwhole _
      · simpa using hwhole []
  have hwritten (before after : String) :
      u.type.toList <:+: (before ++ u.type ++ after).toList :=
    ⟨before.toList, after.toList, by simp [String.toList_append]⟩
  unfold importEdit
  split
  · split
    · split
      · simpa [Edit.insertAt] using hwritten ", " ""
      · exact hwritten _ _
    · exact hwritten _ _
    · exact hstatement
  · exact hstatement

/-- A merge makes the edits of its plan at once, in the order of the text. -/
theorem merge_eq_edits [Parser] {text : String} (hplaces : Parser.Places text.toList)
    (hblank : Text.allBlank text = false) (hread : read text.toList = .ok m) (u : Update) :
    ∃ rest es, merge (some text) u = .ok (String.ofList (replaced text.toList 0 es)) ∧
      Apart 0 es text.toList.length ∧
      (∀ e ∈ rest, VariableTarget m text.toList.length e.span) ∧
      es.Perm ((importEdit? m u (Plan.compute m u)).toList ++ rest) := by
  obtain ⟨ann, obj, es, happlied, hapart, -, hann, hobj, horder⟩ :=
    applyAll_edits (read_placed hplaces hread) u (Plan.compute m u)
  refine ⟨ann.toList ++ obj.toList, es, ?_, hapart, ?_, ?_⟩
  · rw [merge_eq_applyAll hblank hread, happlied]
  · intro e he
    rcases List.mem_append.mp he with he | he
    · exact .inl (hann e (Option.mem_toList.mp he))
    · exact .inr (hobj e (Option.mem_toList.mp he))
  · rcases horder with rfl | ⟨rfl, -⟩
    · exact List.Perm.refl _
    · exact List.perm_append_comm

/-- Where the variable is written there is no import statement. -/
theorem VariableTarget.apart {stop : Nat} (hm : m.Placed stop) {s : Span}
    (h : VariableTarget m stop s) {i : ImportStatement} (hi : i ∈ m.imports) :
    s.stop ≤ i.span.start ∨ i.span.stop ≤ s.start := by
  rcases h with h | ⟨b, hb, rfl⟩ | ⟨-, rfl⟩
  · obtain ⟨b, hb, hname, hspan, hvalue⟩ := h.bounds hm
    have hobject := (hm.binding b hb).object
    have hapart := hm.apart i hi b hb
    omega
  · have hvalue := (hm.binding b hb).value
    have hapart := hm.apart i hi b hb
    omega
  · exact .inr (hm.imports i hi).2

/-- What a merge does to the imports of a text. -/
structure ImportsAsNeeded [Parser] (text : String) (m : Outline) (u : Update) : Prop where
  /-- The plan has the type imported where it is not, if the first statement decides; and only
  then. -/
  needed : ((Plan.compute m u).missingImport = true ↔ ¬ Imported m u) ↔ FirstDecides m u
  /-- If the type is imported, nothing is written into an import statement, nor a new one. -/
  present : FirstDecides m u → Imported m u →
    ∃ es, merge (some text) u = .ok (String.ofList (replaced text.toList 0 es)) ∧
      Apart 0 es text.toList.length ∧
      ∀ e ∈ es, VariableTarget m text.toList.length e.span ∧
        ∀ i ∈ m.imports, e.span.stop ≤ i.span.start ∨ i.span.stop ≤ e.span.start
  /-- Otherwise the type is written among the imports, in one place. -/
  absent : ¬ Imported m u →
    ∃ es rest e, merge (some text) u = .ok (String.ofList (replaced text.toList 0 es)) ∧
      Apart 0 es text.toList.length ∧ es.Perm (e :: rest) ∧
      ImportTarget m e.span ∧ u.type.toList <:+: e.text ∧
      ∀ d ∈ rest, VariableTarget m text.toList.length d.span ∧
        ∀ i ∈ m.imports, d.span.stop ≤ i.span.start ∨ i.span.stop ≤ d.span.start

/-- The type is imported exactly when needed, as long as the first statement from its path decides
whether it is bound. -/
theorem merge_imports_as_needed [Parser] {text : String} (hplaces : Parser.Places text.toList)
    (hblank : Text.allBlank text = false) (hread : read text.toList = .ok m) (u : Update) :
    ImportsAsNeeded text m u where
  needed := missingImport_iff
  present hfirst himported := by
    have hmissing : (Plan.compute m u).missingImport = false := by
      rw [missingImport_compute, Bool.eq_false_iff, ne_eq, lacksImport_iff, not_not]
      exact hfirst himported
    obtain ⟨rest, es, hmerge, hapart, hrest, hperm⟩ := merge_eq_edits hplaces hblank hread u
    rw [importEdit?, hmissing] at hperm
    refine ⟨es, hmerge, hapart, fun e he => ?_⟩
    have htarget := hrest e (hperm.mem_iff.mp he)
    exact ⟨htarget, fun i hi => htarget.apart (read_placed hplaces hread) hi⟩
  absent himported := by
    have hmissing : (Plan.compute m u).missingImport = true := by
      rw [missingImport_compute, lacksImport_iff]
      exact mt imported_of_first himported
    obtain ⟨rest, es, hmerge, hapart, hrest, hperm⟩ := merge_eq_edits hplaces hblank hread u
    rw [importEdit?, hmissing] at hperm
    refine ⟨es, rest, importEdit m u, hmerge, hapart, hperm,
      importEdit_target (read_placed hplaces hread) u, type_infix_importEdit m u, fun d hd => ?_⟩
    exact ⟨hrest d hd, fun i hi => (hrest d hd).apart (read_placed hplaces hread) hi⟩

/-- A type that is imported under another name, before an import of the path that binds nothing. -/
theorem merge_imports_as_needed_renamed :
    let text := "import \x7b S as T \x7d from 'p'\nimport 'p'"
    let m : Outline := ⟨true, [⟨none, some ⟨["T"], some 15, ⟨7, 17⟩⟩, "p", ⟨0, 26⟩⟩,
      ⟨none, none, "p", ⟨27, 37⟩⟩], none⟩
    let u : Update := ⟨"p", default, [], "T"⟩
    Parser.Places text.toList ∧ Text.allBlank text = false ∧ read text.toList = .ok m ∧
      FirstDecides m u ∧ Imported m u ∧ ImportsAsNeeded text m u := by
  intro text m u
  have hplaces : Parser.Places text.toList := by decide +kernel
  have hblank : Text.allBlank text = false := by decide +kernel
  have hread : read text.toList = .ok m := by decide +kernel
  have hfind : m.importFrom? u.importPath =
      some ⟨none, some ⟨["T"], some 15, ⟨7, 17⟩⟩, "p", ⟨0, 26⟩⟩ := by decide +kernel
  have hfirst : ∃ i, m.importFrom? u.importPath = some i ∧ i.Binds u.type :=
    ⟨_, hfind, ⟨["T"], some 15, ⟨7, 17⟩⟩, rfl, by simp [u]⟩
  exact ⟨hplaces, hblank, hread, fun _ => hfirst, imported_of_first hfirst,
    merge_imports_as_needed hplaces hblank hread u⟩

/-- Where another statement from the path comes first, the type is imported once more. -/
example :
    ["import 'p'\nimport \x7b T \x7d from 'p'",
      "import \x7b S \x7d from 'p'\nimport \x7b T \x7d from 'p'"].map (fun text =>
        (read text.toList).toOption.map fun m =>
          ((Plan.compute m ⟨"p", default, [], "T"⟩).missingImport,
            m.imports.map fun i => (i.source, i.named.map (·.locals)))) =
      [some (true, [("p", none), ("p", some ["T"])]),
        some (true, [("p", some ["S"]), ("p", some ["T"])])] := by
  decide +kernel

end TypeLoom.ResolverModule
