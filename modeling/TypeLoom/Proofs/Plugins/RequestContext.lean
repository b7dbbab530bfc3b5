import TypeLoom.Plugins.RequestContext
import TypeLoom.Proofs.Plugins.Configuration

/-!
# The two forms of the request context's type

A table names the type of the request context by a path and a name, or in short by both with a `#`
between them. The long form is read as the short one, which is cut at its first `#`. Main statement:
both forms set the same, and this is the trimmed path and the trimmed name exactly if there is no
`#` in the path.
-/

namespace TypeLoom.Text

/-- What is trimmed is between blanks. -/
theorem trim_sublist (cs : List Char) : (trim cs).Sublist cs := by
  have hend : (trim cs).Sublist (trimStart cs) := by
    have hrev := (List.dropWhile_sublist (l := (trimStart cs).reverse) isBlank).reverse
    rwa [List.reverse_reverse] at hrev
  exact hend.trans (List.dropWhile_sublist isBlank)

theorem mem_dropWhile {p : Char → Bool} {c : Char} {cs : List Char} (hc : c ∈ cs)
    (hp : p c = false) : c ∈ cs.dropWhile p := by
  rw [← List.takeWhile_append_dropWhile (p := p) (l := cs), List.mem_append] at hc
  refine hc.resolve_left fun hmem => ?_
  rw [List.mem_takeWhile_imp hmem] at hp
  cases hp

/-- Trimming takes away blanks only. -/
theorem mem_trim {c : Char} {cs : List Char} (hc : c ∈ cs) (hblank : isBlank c = false) :
    c ∈ trim cs := by
  unfold trim trimEnd trimStart
  rw [List.mem_reverse]
  exact mem_dropWhile (List.mem_reverse.mpr (mem_dropWhile hc hblank)) hblank

end TypeLoom.Text

namespace TypeLoom.Plugins

open Pipeline Collected Generation

/-! ### Cutting at the first `#` -/

/-- A text is cut at its first `#`, and neither part may be blank. -/
theorem parse?_cut {s : String} {before after : List Char} (hs : s.toList = before ++ '#' :: after)
    (hbefore : '#' ∉ before) : ContextImport.parse? s =
      if Text.trim before = [] ∨ Text.trim after = [] then none
      else some ⟨String.ofList (Text.trim before), String.ofList (Text.trim after)⟩ := by
  have hall : ∀ c ∈ before, (c != '#') = true := fun c hc =>
    bne_iff_ne.mpr fun heq => hbefore (heq ▸ hc)
  have htake : (before ++ '#' :: after).takeWhile (· != '#') = before := by
    rw [List.takeWhile_append_of_pos hall, List.takeWhile_cons_of_neg (by decide), List.append_nil]
  have hdrop : (before ++ '#' :: after).dropWhile (· != '#') = '#' :: after := by
    rw [List.dropWhile_append_of_pos hall, List.dropWhile_cons_of_neg (by decide)]
  have hcontains : (before ++ '#' :: after).contains '#' = true :=
    List.contains_iff_mem.mpr (List.mem_append_right before List.mem_cons_self)
  simp only [ContextImport.parse?, hs, htake, hdrop, hcontains, if_true, List.drop_succ_cons,
    List.drop_zero, Bool.or_eq_true, List.isEmpty_iff]

/-- A path and a name that are written with a `#` between them are read back where the path has no
other one. -/
theorem parse?_joined_iff {path name : String} (hpath : Text.trimmed path ≠ "")
    (hname : Text.trimmed name ≠ "") :
    ContextImport.parse? (path ++ "#" ++ name) = some ⟨Text.trimmed path, Text.trimmed name⟩ ↔
      '#' ∉ path.toList := by
  have htext : (path ++ "#" ++ name).toList = path.toList ++ '#' :: name.toList := by
    simp [String.toList_append]
  have hempty : ∀ {s : String}, Text.trimmed s ≠ "" → Text.trim s.toList ≠ [] := by
    intro s hs hnil
    exact hs (by rw [Text.trimmed, hnil])
  constructor
  · intro h hmem
    obtain ⟨before, after, hcut, hbefore⟩ := List.eq_append_cons_of_mem hmem
    rw [hcut, List.append_assoc, List.cons_append] at htext
    rw [parse?_cut htext hbefore] at h
    split at h
    · cases h
    · -- The mark is lost from the path, in which trimming would have left it.
      have hpaths := congrArg (fun i => i.path.toList) (Option.some.inj h)
      simp only [Text.trimmed, String.toList_ofList] at hpaths
      have hkept : '#' ∈ Text.trim path.toList := Text.mem_trim hmem (by decide)
      rw [← hpaths] at hkept
      exact hbefore ((Text.trim_sublist before).subset hkept)
  · intro hmem
    rw [parse?_cut htext hmem, if_neg (not_or.mpr ⟨hempty hpath, hempty hname⟩)]
    rfl

/-! ### Tables -/

/-- The entries for those keys that are given. -/
def importEntries (short name path : Option String) : List (String × Toml.Value) :=
  [("import", short), ("import_name", name), ("import_path", path)].filterMap fun entry =>
    entry.2.map fun text => (entry.1, Toml.Value.string text)

theorem keys_importEntries (short name path : Option String) :
    ((importEntries short name path).map (·.1)).Nodup := by
  cases short <;> cases name <;> cases path <;> simp [importEntries]

/-- Entries of distinct keys are looked up alike in any order. -/
theorem lookup_eq_of_perm {es fs : List (String × Toml.Value)} (h : es.Perm fs)
    (hnodup : (fs.map (·.1)).Nodup) (key : String) : es.lookup key = fs.lookup key := by
  have hnodup' : (es.map (·.1)).Nodup := (h.map _).nodup_iff.mpr hnodup
  cases hlookup : fs.lookup key with
  | none =>
    rw [List.lookup_eq_none_iff] at hlookup ⊢
    exact fun e he => hlookup e (h.mem_iff.mp he)
  | some value =>
    obtain ⟨before, after, rfl, -⟩ := List.lookup_eq_some_iff.mp hlookup
    exact lookup_of_nodup hnodup' (h.mem_iff.mpr (List.mem_append_right before List.mem_cons_self))

theorem forM_eq_ok {ε α : Type} {f : α → Except ε Unit} {xs : List α}
    (h : ∀ x ∈ xs, f x = .ok ()) : xs.forM f = .ok () := by
  induction xs with
  | nil => rfl
  | cons x xs ih =>
    obtain ⟨hx, hxs⟩ := List.forall_mem_cons.mp h
    rw [List.forM_eq_forM, List.forM_cons, hx]
    exact ih hxs

section

variable {short name path : Option String} {entries : List (String × Toml.Value)}

/-- Texts for known keys are a record, in whatever order they stand. -/
theorem record_of_perm (h : entries.Perm (importEntries short name path)) (plugin : String)
    (baseDir : Path) :
    (Table.mk plugin baseDir (.table entries)).record requestContextShape = .ok entries := by
  have hentries : ∀ e ∈ Toml.byKey entries, requestContextShape.checkEntry e = .ok () := by
    intro e he
    rw [Toml.byKey, List.mem_mergeSort, h.mem_iff] at he
    obtain ⟨⟨key, text⟩, hkey, htext⟩ := List.mem_filterMap.mp he
    obtain ⟨s, -, rfl⟩ := Option.map_eq_some_iff.mp htext
    simp only [List.mem_cons, Prod.mk.injEq, List.not_mem_nil, or_false] at hkey
    rcases hkey with ⟨rfl, -⟩ | ⟨rfl, -⟩ | ⟨rfl, -⟩ <;> rfl
  have hpresent : requestContextShape.fields.forM (Toml.RecordShape.checkPresent entries) =
      .ok () := rfl
  have hread : requestContextShape.read (.table entries) = .ok entries := by
    simp only [Toml.RecordShape.read, Toml.Value.entries?, Toml.RecordShape.ofEntries,
      forM_eq_ok hentries, hpresent]
    rfl
  rw [Table.record, hread]

/-- The type that is read from a table with some of the keys. -/
theorem readContextImport_of_perm (h : entries.Perm (importEntries short name path))
    (plugin : String) (baseDir : Path) :
    readContextImport ⟨plugin, baseDir, .table entries⟩ =
      match contextImport? short name path with
      | some i => .ok i
      | none => .error (.invalidTable plugin .unclearContextImport) := by
  have htext : ∀ key, Toml.text? entries key = Toml.text? (importEntries short name path) key := by
    intro key
    rw [Toml.text?, lookup_eq_of_perm h (keys_importEntries short name path), Toml.text?]
  have hshort : Toml.text? (importEntries short name path) "import" = short := by
    cases short <;> cases name <;> cases path <;> rfl
  have hname : Toml.text? (importEntries short name path) "import_name" = name := by
    cases short <;> cases name <;> cases path <;> rfl
  have hpath : Toml.text? (importEntries short name path) "import_path" = path := by
    cases short <;> cases name <;> cases path <;> rfl
  simp only [readContextImport, record_of_perm h, bind, Except.bind, htext, hshort, hname, hpath]
  cases contextImport? short name path <;> rfl

/-- Configured with some entries, the plugin sets a type and nothing else, whatever was set. -/
def SetsImport (entries : List (String × Toml.Value)) (i : ContextImport) : Prop :=
  ∀ (m : Type → Type) [Monad m] (baseDir : Path) (c : Context),
    (requestContextPlugin m).configure ⟨requestContextId, baseDir, .table entries⟩ c =
      pure (.ok (.idle m), { c with settings := { c.settings with contextImport := some i } })

theorem setsImport_iff (h : entries.Perm (importEntries short name path)) {i : ContextImport} :
    SetsImport entries i ↔ contextImport? short name path = some i := by
  constructor
  · intro hsets
    have hconfigured := hsets Id ⟨""⟩ Context.fresh
    simp only [requestContextPlugin, readContextImport_of_perm h] at hconfigured
    cases hread : contextImport? short name path with
    | none =>
      rw [hread] at hconfigured
      cases congrArg Prod.fst hconfigured
    | some j =>
      rw [hread] at hconfigured
      exact congrArg (fun r => r.2.settings.contextImport) hconfigured
  · intro hread m _ baseDir c
    simp only [requestContextPlugin, readContextImport_of_perm h, hread]

end

/-- The long form sets the trimmed path and name, or the name of the default export where none is
given, exactly if there is no `#` in the path; the short form sets what the long one sets. A path
with a `#` in it is cut there, and what follows counts as part of the name. -/
theorem forms_set_trimmed_iff {path : String} {name : Option String}
    (hpath : Text.trimmed path ≠ "") (hname : ∀ n ∈ name, Text.trimmed n ≠ "")
    {long short : List (String × Toml.Value)}
    (hlong : long.Perm (importEntries none name (some path)))
    (hshort : short =
      importEntries (some (path ++ "#" ++ name.getD ContextImport.defaultName)) none none) :
    (SetsImport long ⟨Text.trimmed path, (name.map Text.trimmed).getD ContextImport.defaultName⟩ ↔
        '#' ∉ path.toList) ∧
      (∀ i, SetsImport short i ↔ SetsImport long i) ∧
      ∀ before after, path.toList = before ++ '#' :: after → '#' ∉ before → ∀ i,
        (SetsImport long i ↔ Text.trim before ≠ [] ∧ i = ⟨String.ofList (Text.trim before),
          String.ofList (Text.trim
            (after ++ '#' :: (name.getD ContextImport.defaultName).toList))⟩) := by
  have hgiven : (name.map Text.trimmed).getD ContextImport.defaultName =
      Text.trimmed (name.getD ContextImport.defaultName) := by
    cases name with
    | none => decide +kernel
    | some n => rfl
  have hnonblank : Text.trimmed (name.getD ContextImport.defaultName) ≠ "" := by
    cases name with
    | none => decide +kernel
    | some n => exact hname n rfl
  have hsets := fun i => setsImport_iff hlong (i := i)
  refine ⟨?_, fun i => ?_, fun before after hcut hbefore i => ?_⟩
  · rw [hgiven, hsets]
    exact parse?_joined_iff hpath hnonblank
  · rw [hsets, setsImport_iff (List.Perm.of_eq hshort)]
    rfl
  · have hmark : Text.trim (after ++ '#' :: (name.getD ContextImport.defaultName).toList) ≠ [] :=
      List.ne_nil_of_mem
        (Text.mem_trim (List.mem_append_right after List.mem_cons_self) (by decide))
    have htext : (path ++ "#" ++ name.getD ContextImport.defaultName).toList =
        before ++ '#' :: (after ++ '#' :: (name.getD ContextImport.defaultName).toList) := by
      simp [String.toList_append, hcut]
    rw [hsets, contextImport?, parse?_cut htext hbefore]
    by_cases hblank : Text.trim before = []
    · simp [hblank]
    · simp [hblank, hmark, eq_comm]

/-- A path that begins with the mark is refused, since nothing stands before the mark. Blanks around
a path do not matter. -/
theorem forms_set_trimmed_of_marked :
    (Text.trimmed "#app/context" ≠ "" ∧ ∀ n ∈ some "RequestContext", Text.trimmed n ≠ "") ∧
      (∀ i, ¬SetsImport [("import_name", .string "RequestContext"),
        ("import_path", .string "#app/context")] i) ∧
      SetsImport [("import_path", .string " app/context")] ⟨"app/context", "default"⟩ := by
  have hmarked : Text.trimmed "#app/context" ≠ "" := by decide +kernel
  have hname : ∀ n ∈ some "RequestContext", Text.trimmed n ≠ "" := by
    rintro n ⟨⟩
    decide +kernel
  have hplain : Text.trimmed " app/context" = "app/context" := by decide +kernel
  obtain ⟨-, -, hcut⟩ := forms_set_trimmed_iff hmarked hname (List.Perm.refl _) rfl
  have hblank : Text.trimmed " app/context" ≠ "" := by
    rw [hplain]
    decide
  have hunnamed : ∀ n ∈ (none : Option String), Text.trimmed n ≠ "" := nofun
  obtain ⟨hset, -, -⟩ := forms_set_trimmed_iff hblank hunnamed (List.Perm.refl _) rfl
  refine ⟨⟨hmarked, hname⟩, fun i hi => ?_, ?_⟩
  · exact ((hcut [] "app/context".toList (by decide +kernel) List.not_mem_nil i).mp hi).1 rfl
  · rw [hplain] at hset
    exact hset.mpr (by decide +kernel)

end TypeLoom.Plugins
