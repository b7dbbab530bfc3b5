import TypeLoom.TypeScript.Syntax
import TypeLoom.Proofs.Merge.Recognition
import TypeLoom.Proofs.Merge.UpToDate

/-!
# Modules from scratch

A module that is written from scratch is a draft, so a parser that follows the draft lets it be read
back. If nothing in it had to be escaped it is then up to date: `fresh_reads_back`. With an escape
it is not, and the stub or the import that the escape is in is added once more:
`quoted_recognised_iff`.
-/

namespace TypeLoom.ResolverModule

open Declaration (quoted key isIdentifier isIdentifierChar)
open Reading (unquote)

/-- An update with the names that generation gives: the type of the resolvers, and types of the
schema as parents. -/
structure Update.WellNamed (u : Update) : Prop where
  type : isIdentifier u.type.toList = true
  suffix : "Resolvers".toList <:+ u.type.toList
  parents : ∀ s ∈ u.stubs, isIdentifier s.parent.toList = true

/-- The texts of an update that may be quoted. -/
def Update.texts (u : Update) : List String := u.importPath :: u.stubs.map (·.name)

/-- Stubs by name. -/
def sortStubs (stubs : List Stub) : List Stub := stubs.mergeSort fun a b => decide (a.name ≤ b.name)

/-- The stubs that a module from scratch gets. -/
def freshStubs (u : Update) : List Stub := sortStubs (Plan.unique [] u.stubs)

def freshNames (u : Update) : List String := (freshStubs u).map (·.name)

/-- The draft of a module from scratch. -/
def draft (u : Update) : Draft :=
  ⟨u.type, quoted u.importPath, (freshStubs u).map fun s => ⟨key s.name, parentParameter s.parent⟩⟩

theorem sortEntries_stubEntry (indent : String) (stubs : List Stub) :
    sortEntries (stubs.map (stubEntry indent)) = (sortStubs stubs).map (stubEntry indent) := by
  unfold sortEntries sortStubs
  rw [List.map_mergeSort]
  intro a _ b _
  rfl

theorem entryText_stubEntry (s : Stub) : entryText indentUnit (stubEntry indentUnit s) =
    DraftEntry.text ⟨key s.name, parentParameter s.parent⟩ := by
  have hbody : "        throw new Error('Not implemented yet!');\n    \x7d,\n" =
      "    " ++ ("    " ++ ("throw new Error('Not implemented yet!');\n" ++ ("    " ++
        ("\x7d" ++ ("," ++ "\n"))))) := by decide
  simp only [entryText, stubEntry, stubText, indentUnit, DraftEntry.text, Option.elim_none,
    String.append_empty, hbody, String.append_assoc]

theorem map_entryText (stubs : List Stub) :
    (sortEntries (stubs.map (stubEntry indentUnit))).map (entryText indentUnit) =
      (sortStubs stubs).map fun s => DraftEntry.text ⟨key s.name, parentParameter s.parent⟩ := by
  rw [sortEntries_stubEntry, List.map_map]
  exact List.map_congr_left fun s _ => entryText_stubEntry s

/-- A module from scratch is the text of its draft. -/
theorem text_draft (u : Update) : (draft u).text = freshModule u := by
  have hend : ";\n\n" = ";\n" ++ "\n" := by decide
  have hopen : " = \x7b\n" = " = " ++ "\x7b\n" := by decide
  have hclose : "\x7d;\n" = "\x7d" ++ ";\n" := by decide
  have hentries : (draft u).entries.map DraftEntry.text =
      (sortStubs (Plan.unique [] u.stubs)).map fun s =>
        DraftEntry.text ⟨key s.name, parentParameter s.parent⟩ := List.map_map
  unfold freshModule declarationText objectText Draft.text importText
  simp only [map_entryText, hentries, hend, hopen, hclose, Option.elim_none, String.append_empty,
    String.append_assoc]
  rfl

theorem mem_freshStubs {u : Update} {s : Stub} :
    s ∈ freshStubs u ↔ s ∈ Plan.unique [] u.stubs := List.mem_mergeSort

theorem freshStubs_of_unique {u : Update} {s : Stub} (h : Plan.unique [] u.stubs = [s]) :
    freshStubs u = [s] := by
  rw [freshStubs, h]
  exact List.mergeSort_singleton s

theorem mem_freshNames {u : Update} {name : String} :
    name ∈ freshNames u ↔ name ∈ u.stubs.map (·.name) := by
  rw [freshNames, List.mem_map, List.mem_map]
  constructor
  · rintro ⟨s, hs, rfl⟩
    exact ⟨s, Plan.mem_of_mem_unique (mem_freshStubs.mp hs), rfl⟩
  · rintro ⟨s, hs, rfl⟩
    have hunique : s.name ∈ [] ∨ s.name ∈ (Plan.unique [] u.stubs).map (·.name) :=
      Plan.mem_or_mem_unique hs
    obtain ⟨t, ht, hname⟩ := List.mem_map.mp (hunique.resolve_left List.not_mem_nil)
    exact ⟨t, mem_freshStubs.mpr ht, hname⟩

/-- Names in ascending order, none of them twice. -/
theorem freshNames_sorted (u : Update) : (freshNames u).Pairwise (· < ·) := by
  have hsorted : (freshNames u).Pairwise (· ≤ ·) := by
    have hentries := sortEntries_sorted ((Plan.unique [] u.stubs).map (stubEntry indentUnit))
    rw [sortEntries_stubEntry, List.map_map] at hentries
    exact hentries
  have hnodup : (freshNames u).Nodup :=
    ((List.mergeSort_perm _ _).map _).nodup_iff.mpr (Plan.nodup_unique [] u.stubs)
  refine hsorted.imp₂ ?_ hnodup
  intro a b hle hne
  exact Std.lt_of_le_of_ne hle hne

/-! ### Parameters -/

theorem isIdentifierChar_lowerOf {c d : Char} (hc : isIdentifierChar c = true)
    (hd : d ∈ Text.lowerOf c) : isIdentifierChar d = true := by
  have hall : ∀ n < 0x7B, isIdentifierChar (Char.ofNat n) = true →
      (Text.lowerOf (Char.ofNat n)).all isIdentifierChar = true := by decide +kernel
  have hlt := (TypeScript.Token.toNat_of_isIdentifierChar hc).2
  have hchar := hall c.toNat (by omega)
  rw [Char.ofNat_toNat] at hchar
  exact List.all_eq_true.mp (hchar hc) d hd

/-- The parameter for a parent has the characters of an identifier, as the parent's name has. -/
theorem parentParameter_chars {parent : String} (h : isIdentifier parent.toList = true) :
    (parentParameter parent).toList.all isIdentifierChar = true := by
  have hlower : (Text.lowerFirst parent).toList.all isIdentifierChar = true := by
    unfold Text.lowerFirst
    cases hchars : parent.toList with
    | nil => rfl
    | cons c cs =>
      have hmem := fun d hd => mem_identifier h (c := d) (hchars ▸ hd)
      rw [List.forall_mem_cons] at hmem
      rw [String.toList_ofList, List.all_append, Bool.and_eq_true, List.all_eq_true,
        List.all_eq_true]
      exact ⟨fun d hd => isIdentifierChar_lowerOf hmem.1 hd, hmem.2⟩
  unfold parentParameter
  dsimp only
  split
  · decide
  · exact hlower

/-- The draft of a module from scratch is well formed if its texts can be read. -/
theorem draft_wellFormed {u : Update} (hu : u.WellNamed) (htexts : ∀ s ∈ u.texts, Readable s) :
    (draft u).WellFormed := by
  rw [Update.texts, List.forall_mem_cons] at htexts
  have hstubs : ∀ s ∈ freshStubs u, s ∈ u.stubs := fun s hs =>
    Plan.mem_of_mem_unique (mem_freshStubs.mp hs)
  refine ⟨hu.type, hu.suffix, isLiteral_quoted htexts.1, ?_, ?_⟩
  · intro e he
    obtain ⟨s, hs, rfl⟩ := List.mem_map.mp he
    by_cases hid : isIdentifier s.name.toList = true
    · exact .inl (by rwa [key, if_pos hid])
    · refine .inr ?_
      rw [key, if_neg hid]
      exact isLiteral_quoted (htexts.2 _ (List.mem_map_of_mem (hstubs s hs)))
  · intro e he
    obtain ⟨s, hs, rfl⟩ := List.mem_map.mp he
    exact parentParameter_chars (hu.parents s (hstubs s hs))

/-! ### Plans -/

theorem trim_eq_self {cs : List Char} (h : ∀ c ∈ cs, Text.isBlank c = false) :
    Text.trim cs = cs := by
  have hstart : ∀ ds : List Char, (∀ c ∈ ds, Text.isBlank c = false) →
      ds.dropWhile Text.isBlank = ds := by
    intro ds hds
    cases ds with
    | nil => rfl
    | cons c ds => exact List.dropWhile_cons_of_neg (by simp [hds c List.mem_cons_self])
  rw [Text.trim, Text.trimStart, hstart cs h, Text.trimEnd,
    hstart cs.reverse fun c hc => h c (List.mem_reverse.mp hc), List.reverse_reverse]

theorem trimmed_of_isIdentifier {s : String} (h : isIdentifier s.toList = true) :
    Text.trimmed s = s := by
  rw [Text.trimmed, trim_eq_self, String.ofList_toList]
  intro c hc
  have hrange := TypeScript.Token.toNat_of_isIdentifierChar (mem_identifier h hc)
  rw [← Bool.not_eq_true]
  intro hblank
  simp only [Text.isBlank, Bool.or_eq_true, Bool.and_eq_true, decide_eq_true_eq, beq_iff_eq]
    at hblank
  omega

namespace Outline.Reads

variable {m : Outline} {u : Update} (h : m.Reads (draft u))

include h

theorem names : ∃ b, m.binding = some b ∧ (∃ span, b.annotation = some (span, u.type)) ∧
    b.object.properties.map (·.name) = (freshNames u).map readName := by
  obtain ⟨b, hb, hannotation, hnames⟩ := h.binding
  refine ⟨b, hb, hannotation, ?_⟩
  rw [hnames, draft, freshNames, List.map_map, List.map_map]
  rfl

theorem imports_iff : (∃ i, m.importFrom? u.importPath = some i ∧ i.Binds u.type) ↔
    Unescaped u.importPath := by
  obtain ⟨named, span, himports, hlocals⟩ := h.imports
  have hlocals' : named.locals = [u.type] := hlocals
  have hpath : unquote (draft u).path = unquote (quoted u.importPath) := rfl
  rw [← unquote_quoted_eq_iff]
  unfold Outline.importFrom? ImportStatement.Binds
  rw [himports, hpath]
  by_cases hsame : unquote (quoted u.importPath) = u.importPath
  · simp [hsame, hlocals']
  · simp [hsame]

/-- A module that holds what its draft does is up to date if its import and the required names are
recognised, and the names that are recognised are in order. -/
theorem current_iff (hu : u.WellNamed) : m.Current u ↔
    Unescaped u.importPath ∧ (∀ s ∈ u.stubs, s.name ∈ (freshNames u).map readName) ∧
      ((freshNames u).map readName).Pairwise (· ≤ ·) := by
  obtain ⟨b, hb, ⟨span, hannotation⟩, hnames⟩ := h.names
  rw [← h.imports_iff, ← hnames]
  constructor
  · rintro ⟨himported, b', hb', himplements⟩
    obtain rfl := Option.some.inj (hb.symm.trans hb')
    exact ⟨himported, himplements.complete, himplements.sorted⟩
  · rintro ⟨himported, hcomplete, hsorted⟩
    exact ⟨himported, b, hb, ⟨span, u.type, hannotation, trimmed_of_isIdentifier hu.type⟩, hsorted,
      hcomplete⟩

/-- Nothing is left to do for a module from scratch if nothing in it had to be escaped. -/
theorem isEmpty_compute_iff (hu : u.WellNamed) :
    (Plan.compute m u).isEmpty = true ↔ ∀ s ∈ u.texts, Unescaped s := by
  rw [Plan.isEmpty_compute_iff, h.current_iff hu, Update.texts, List.forall_mem_cons]
  refine and_congr_right fun _ => ?_
  constructor
  · rintro ⟨hfound, -⟩
    have hall : ∀ n ∈ freshNames u, Unescaped n := by
      refine unescaped_of_forall_read fun n hn => ?_
      obtain ⟨s, hs, rfl⟩ := List.mem_map.mp (mem_freshNames.mp hn)
      exact List.mem_map.mp (hfound s hs)
    exact fun n hn => hall n (mem_freshNames.mpr hn)
  · intro hall
    rw [map_readName fun n hn => hall n (mem_freshNames.mp hn)]
    refine ⟨fun s hs => mem_freshNames.mpr (List.mem_map_of_mem hs), ?_⟩
    exact (freshNames_sorted u).imp fun hlt => Std.le_of_lt hlt

end Outline.Reads

/-- A module from scratch can be read, and what is read of it is what was written. -/
theorem read_freshModule [Parser] {u : Update} (hu : u.WellNamed)
    (htexts : ∀ s ∈ u.texts, Readable s) (hfollows : Parser.Follows (draft u)) :
    ∃ m, read (freshModule u).toList = .ok m ∧ m.Reads (draft u) := by
  rw [← text_draft]
  exact read_draft (draft_wellFormed hu htexts) hfollows

/-- Bringing a module from scratch up to date once more leaves it as it is. -/
theorem merge_freshModule [Parser] {u : Update} (hu : u.WellNamed)
    (htexts : ∀ s ∈ u.texts, Readable s ∧ Unescaped s) (hfollows : Parser.Follows (draft u)) :
    merge (some (freshModule u)) u = .ok (freshModule u) := by
  obtain ⟨m, hm, hreads⟩ := read_freshModule hu (fun s hs => (htexts s hs).1) hfollows
  have hempty := (hreads.isEmpty_compute_iff hu).mpr fun s hs => (htexts s hs).2
  have hblank : Text.allBlank (freshModule u) = false := by
    unfold Text.allBlank freshModule importText
    simp only [String.toList_append]
    rfl
  exact merge_of_current hblank hm (Plan.isEmpty_compute_iff.mp hempty)

/-- A module from scratch whose stubs are named by identifiers and whose path can be quoted as it is
can be read. It is read as one import, of the type alone, and a variable with that type and with the
required names in ascending order, and nothing is left to do. -/
theorem fresh_reads_back [Parser] {u : Update} (hu : u.WellNamed)
    (hnames : ∀ s ∈ u.stubs, isIdentifier s.name.toList = true)
    (hreadable : Readable u.importPath) (hescaped : Unescaped u.importPath)
    (hfollows : Parser.Follows (draft u)) :
    ∃ text m, merge none u = .ok text ∧ read text.toList = .ok m ∧
      (∃ named span, m.imports = [⟨none, some named, u.importPath, span⟩] ∧
        named.locals = [u.type]) ∧
      (∃ b, m.binding = some b ∧ (∃ span, b.annotation = some (span, u.type)) ∧
        (b.object.properties.map (·.name)).Pairwise (· < ·) ∧
        ∀ name, name ∈ b.object.properties.map (·.name) ↔ name ∈ u.stubs.map (·.name)) ∧
      (Plan.compute m u).isEmpty = true := by
  have htexts : ∀ s ∈ u.texts, Readable s ∧ Unescaped s := by
    rw [Update.texts, List.forall_mem_cons, List.forall_mem_map]
    exact ⟨⟨hreadable, hescaped⟩, fun s hs =>
      ⟨readable_of_isIdentifier (hnames s hs), unescaped_of_isIdentifier (hnames s hs)⟩⟩
  obtain ⟨m, hm, hreads⟩ := read_freshModule hu (fun s hs => (htexts s hs).1) hfollows
  obtain ⟨named, span, himports, hlocals⟩ := hreads.imports
  obtain ⟨b, hb, hannotation, hproperties⟩ := hreads.names
  rw [map_readName fun n hn => (htexts n (List.mem_cons_of_mem _ (mem_freshNames.mp hn))).2]
    at hproperties
  refine ⟨freshModule u, m, rfl, hm, ⟨named, span, ?_, hlocals⟩, ⟨b, hb, hannotation, ?_, ?_⟩, ?_⟩
  · have hpath : unquote (draft u).path = u.importPath := unquote_quoted_of_unescaped hescaped
    rw [himports, hpath]
  · rw [hproperties]
    exact freshNames_sorted u
  · rw [hproperties]
    exact fun name => mem_freshNames
  · exact (hreads.isEmpty_compute_iff hu).mpr fun s hs => (htexts s hs).2

/-- Two fields of one name, which is a reserved word. -/
theorem fresh_reads_back_repeated :
    let u : Update := ⟨"app/q", ⟨"q.ts"⟩, [⟨"Query", "do"⟩, ⟨"Query", "do"⟩], "QueryResolvers"⟩
    u.WellNamed ∧ Readable u.importPath ∧ Unescaped u.importPath ∧ Parser.Follows (draft u) ∧
      ∃ text m, merge none u = .ok text ∧ read text.toList = .ok m ∧
        (∃ b, m.binding = some b ∧
          ∀ name, name ∈ b.object.properties.map (·.name) ↔ name ∈ ["do", "do"]) ∧
        (Plan.compute m u).isEmpty = true := by
  intro u
  have hu : u.WellNamed := ⟨by decide, by decide, by decide⟩
  have hreadable : Readable u.importPath := by decide
  have hescaped : Unescaped u.importPath := by decide
  have hstubs : freshStubs u = [⟨"Query", "do"⟩] := freshStubs_of_unique (by decide)
  have hfollows : Parser.Follows (draft u) := by
    intro _
    rw [draft, hstubs]
    decide +kernel
  obtain ⟨text, m, hmerge, hm, -, ⟨b, hb, -, -, hnames⟩, hempty⟩ :=
    fresh_reads_back hu (by decide) hreadable hescaped hfollows
  exact ⟨hu, hreadable, hescaped, hfollows, text, m, hmerge, hm, ⟨b, hb, hnames⟩, hempty⟩

/-- A null character in the path makes a module that cannot be read. -/
theorem fresh_null_unreadable :
    let u : Update := ⟨"a\x00b", ⟨"q.ts"⟩, [⟨"Query", "me"⟩], "QueryResolvers"⟩
    u.WellNamed ∧ (∀ s ∈ u.stubs, isIdentifier s.name.toList = true) ∧
      (∀ c ∈ u.importPath.toList, c ≠ '\'' ∧ c ≠ '\\' ∧ c ≠ '\n' ∧ c ≠ '\r') ∧
      ∃ text, merge none u = .ok text ∧ ∀ m, read text.toList ≠ .ok m := by
  intro u
  have hu : u.WellNamed := ⟨by decide, by decide, by decide⟩
  have hstubs : freshStubs u = [⟨"Query", "me"⟩] := freshStubs_of_unique (by decide)
  refine ⟨hu, by decide, by simp [u], freshModule u, rfl, fun m hm => ?_⟩
  have herror : (Parser.root (freshModule u).toList).hasError = true := by
    rw [← text_draft, draft, hstubs]
    decide +kernel
  rw [(read_eq_ok_iff.mp hm).1] at herror
  cases herror

/-- A quoted text, read as the path of an import or as a key, stands for itself exactly if no quote
and no backslash is in it. So a module from scratch whose texts can be read is up to date exactly if
none of them has one. -/
theorem quoted_recognised_iff [Parser] {u : Update} (hu : u.WellNamed)
    (htexts : ∀ s ∈ u.texts, Readable s) (hfollows : Parser.Follows (draft u)) :
    (∀ s : String, (unquote (quoted s) = s ↔ Unescaped s) ∧
      (∀ (source : List Char) (pair k : Node), pair.kind = "pair" → pair.child? "key" = some k →
        k.kind = keyKind (key s) → k.text source = key s →
        (Reading.elementName source pair = s ↔ Unescaped s)) ∧
      ∀ (source : List Char) (statement path : Node), statement.child? "source" = some path →
        path.text source = quoted s → ∃ i, Reading.import? source statement = some i ∧
          (i.source = s ↔ Unescaped s)) ∧
    ∃ m, read (freshModule u).toList = .ok m ∧
      ((Plan.compute m u).isEmpty = true ↔ ∀ s ∈ u.texts, Unescaped s) := by
  constructor
  · refine fun s => ⟨unquote_quoted_eq_iff, ?_, ?_⟩
    · intro source pair k hpair hk hkind htext
      rw [elementName_of_key hpair hk hkind htext]
      exact readName_eq_iff
    · intro source statement path hpath htext
      obtain ⟨i, hi, hsource⟩ := import?_source source hpath
      refine ⟨i, hi, ?_⟩
      rw [hsource, htext]
      exact unquote_quoted_eq_iff
  · obtain ⟨m, hm, hreads⟩ := read_freshModule hu htexts hfollows
    exact ⟨m, hm, hreads.isEmpty_compute_iff hu⟩

/-- A name that is no identifier, and a path with a double quote. -/
theorem quoted_recognised_dashed :
    let u : Update := ⟨"a\"b", ⟨"q.ts"⟩, [⟨"Query", "my-name"⟩], "QueryResolvers"⟩
    u.WellNamed ∧ (∀ s ∈ u.texts, Readable s) ∧ Parser.Follows (draft u) ∧
      unquote (quoted "my-name") = "my-name" ∧
      ∃ m, read (freshModule u).toList = .ok m ∧ (Plan.compute m u).isEmpty = true := by
  intro u
  have hu : u.WellNamed := ⟨by decide, by decide, by decide⟩
  have htexts : ∀ s ∈ u.texts, Readable s := by decide
  have hstubs : freshStubs u = [⟨"Query", "my-name"⟩] := freshStubs_of_unique (by decide)
  have hfollows : Parser.Follows (draft u) := by
    intro _
    rw [draft, hstubs]
    decide +kernel
  obtain ⟨hrecognised, m, hm, hempty⟩ := quoted_recognised_iff hu htexts hfollows
  exact ⟨hu, htexts, hfollows, (hrecognised _).1.mpr (by decide), m, hm, hempty.mpr (by decide)⟩

end TypeLoom.ResolverModule
