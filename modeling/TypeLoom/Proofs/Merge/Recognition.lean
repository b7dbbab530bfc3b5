import TypeLoom.Proofs.Merge.Drafts
import TypeLoom.Proofs.Merge.Rebuilding
import TypeLoom.Proofs.Token.Spelling

/-!
# What quoted texts are read as

Quotes are taken off when a module is read, but escapes are left as they stand. So a quoted text is
read as itself exactly if nothing in it had to be escaped, and otherwise as a longer one:
`unquote_quoted_eq_iff`, `readName_eq_iff`.
-/

namespace TypeLoom.ResolverModule

open Declaration (quoted key escapeQuoted isIdentifier isIdentifierChar)
open Reading (unquote)

/-- Nothing in a text has to be escaped between quotes. -/
def Unescaped (s : String) : Prop := ∀ c ∈ s.toList, c ≠ '\'' ∧ c ≠ '\\'

instance (s : String) : Decidable (Unescaped s) :=
  decidable_of_iff (s.toList.all (fun c => c != '\'' && c != '\\') = true) (by simp [Unescaped])

/-- Neither the end of a line nor a null character is in a text. -/
def Readable (s : String) : Prop := ∀ c ∈ s.toList, c ≠ '\n' ∧ c ≠ '\r' ∧ c ≠ '\x00'

instance (s : String) : Decidable (Readable s) :=
  decidable_of_iff (s.toList.all (fun c => c != '\n' && (c != '\r' && c != '\x00')) = true)
    (by simp [Readable])

theorem quoted_toList (s : String) :
    (quoted s).toList = '\'' :: (s.toList.flatMap escapeQuoted ++ ['\'']) := by
  simp [quoted]

theorem escapeQuoted_eq {c : Char} (h : c ≠ '\'' ∧ c ≠ '\\') : escapeQuoted c = [c] := by
  simp [escapeQuoted, h.1, h.2]

theorem escapeQuoted_marked {c : Char} (h : ¬(c ≠ '\'' ∧ c ≠ '\\')) : escapeQuoted c = ['\\', c] := by
  rw [not_and_or, not_not, not_not] at h
  rcases h with rfl | rfl <;> rfl

/-! ### Reading back -/

/-- Without its quotes, a quoted text is the escaped text. -/
theorem unquote_quoted (s : String) :
    unquote (quoted s) = String.ofList (s.toList.flatMap escapeQuoted) := by
  obtain ⟨d, cs, hcs⟩ : ∃ d cs, s.toList.flatMap escapeQuoted ++ ['\''] = d :: cs :=
    List.exists_cons_of_ne_nil (by simp)
  have hdrop : (d :: cs).dropLast = s.toList.flatMap escapeQuoted := by
    rw [← hcs, List.dropLast_concat]
  unfold unquote
  rw [quoted_toList, hcs]
  simp only [beq_self_eq_true, Bool.true_or, if_true, hdrop]

theorem unquote_quoted_of_unescaped {s : String} (hs : Unescaped s) : unquote (quoted s) = s := by
  have hsame : s.toList.flatMap escapeQuoted = s.toList.flatMap fun c => [c] :=
    List.flatMap_congr fun c hc => escapeQuoted_eq (hs c hc)
  rw [unquote_quoted, hsame, List.flatMap_singleton', String.ofList_toList]

theorem length_le_escaped (cs : List Char) : cs.length ≤ (cs.flatMap escapeQuoted).length := by
  induction cs with
  | nil => exact Nat.le_refl _
  | cons c cs ih =>
    rw [List.flatMap_cons, List.length_append, List.length_cons]
    by_cases hc : c ≠ '\'' ∧ c ≠ '\\'
    · rw [escapeQuoted_eq hc, List.length_singleton]
      omega
    · rw [escapeQuoted_marked hc, List.length_cons, List.length_singleton]
      omega

/-- A text with an escape in it comes back longer. -/
theorem length_lt_unquote {s : String} (hs : ¬Unescaped s) :
    s.toList.length < (unquote (quoted s)).toList.length := by
  obtain ⟨c, hc, hescape⟩ : ∃ c ∈ s.toList, ¬(c ≠ '\'' ∧ c ≠ '\\') := by
    simpa only [Unescaped, not_forall, exists_prop] using hs
  obtain ⟨before, after, hsplit⟩ := List.append_of_mem hc
  have hbefore := length_le_escaped before
  have hafter := length_le_escaped after
  rw [unquote_quoted, String.toList_ofList, hsplit, List.flatMap_append, List.flatMap_cons,
    escapeQuoted_marked hescape]
  simp only [List.length_append, List.length_cons, List.length_nil]
  omega

theorem unquote_quoted_eq_iff {s : String} : unquote (quoted s) = s ↔ Unescaped s := by
  refine ⟨fun h => ?_, unquote_quoted_of_unescaped⟩
  by_contra hs
  have hlt := length_lt_unquote hs
  rw [h] at hlt
  exact Nat.lt_irrefl _ hlt

/-! ### Names -/

/-- What the key that is written for a name is read as. -/
def readName (name : String) : String := spelledKey (key name)

theorem isIdentifier_quoted (s : String) : isIdentifier (quoted s).toList = false := by
  rw [quoted_toList]
  rfl

theorem readName_of_isIdentifier {name : String} (h : isIdentifier name.toList = true) :
    readName name = name := by
  rw [readName, key, if_pos h, spelledKey, if_pos h]

theorem readName_of_not_isIdentifier {name : String} (h : ¬isIdentifier name.toList = true) :
    readName name = unquote (quoted name) := by
  rw [readName, key, if_neg h, spelledKey, isIdentifier_quoted]
  rfl

theorem mem_identifier {s : String} (h : isIdentifier s.toList = true) {c : Char}
    (hc : c ∈ s.toList) : isIdentifierChar c = true := by
  cases hchars : s.toList with
  | nil =>
    rw [hchars] at hc
    cases hc
  | cons d cs =>
    rw [hchars] at h hc
    obtain ⟨hd, hcs⟩ := Bool.and_eq_true_iff.mp h
    rcases List.mem_cons.mp hc with rfl | hc
    · exact (TypeScript.Token.isNameStart_of_isIdentifierStart hd).2
    · exact List.all_eq_true.mp hcs c hc

theorem unescaped_of_isIdentifier {s : String} (h : isIdentifier s.toList = true) :
    Unescaped s := by
  intro c hc
  have hchar := mem_identifier h hc
  constructor
  · rintro rfl
    cases hchar
  · rintro rfl
    cases hchar

theorem readable_of_isIdentifier {s : String} (h : isIdentifier s.toList = true) : Readable s := by
  intro c hc
  have hrange := TypeScript.Token.toNat_of_isIdentifierChar (mem_identifier h hc)
  refine ⟨?_, ?_, ?_⟩ <;>
  · rintro rfl
    exact absurd hrange (by decide)

theorem length_lt_readName {name : String} (h : ¬Unescaped name) :
    name.toList.length < (readName name).toList.length := by
  rw [readName_of_not_isIdentifier fun hid => h (unescaped_of_isIdentifier hid)]
  exact length_lt_unquote h

theorem readName_of_unescaped {name : String} (h : Unescaped name) : readName name = name := by
  by_cases hid : isIdentifier name.toList = true
  · exact readName_of_isIdentifier hid
  · rw [readName_of_not_isIdentifier hid, unquote_quoted_of_unescaped h]

theorem readName_eq_iff {name : String} : readName name = name ↔ Unescaped name := by
  refine ⟨fun h => ?_, readName_of_unescaped⟩
  by_contra hname
  have hlt := length_lt_readName hname
  rw [h] at hlt
  exact Nat.lt_irrefl _ hlt

theorem map_readName {names : List String} (h : ∀ n ∈ names, Unescaped n) :
    names.map readName = names :=
  (List.map_congr_left fun n hn => readName_of_unescaped (h n hn)).trans (List.map_id _)

/-- If each of some names comes back as one of them, then each comes back as itself: a name with an
escape comes back as a longer one, which had to come back from one with an escape in turn. -/
theorem unescaped_of_forall_read {names : List String}
    (h : ∀ n ∈ names, ∃ n' ∈ names, readName n' = n) : ∀ n ∈ names, Unescaped n := by
  intro n hn
  induction hlen : n.toList.length using Nat.strongRecOn generalizing n with
  | _ length ih =>
    obtain ⟨n', hn', rfl⟩ := h n hn
    have hunescaped : Unescaped n' := by
      by_contra hescaped
      have hlt := length_lt_readName hescaped
      exact hescaped (ih _ (hlen ▸ hlt) n' hn' rfl)
    rwa [readName_of_unescaped hunescaped]

/-! ### Keys and paths in a tree -/

/-- A pair with the key that is written for a name has the name that the key is read as. -/
theorem elementName_of_key {source : List Char} {pair k : Node} {name : String}
    (hpair : pair.kind = "pair") (hk : pair.child? "key" = some k)
    (hkind : k.kind = keyKind (key name)) (htext : k.text source = key name) :
    Reading.elementName source pair = readName name := by
  simp only [elementName_eq, Node.name, Node.key?, hpair, hk, Option.elim_some, Node.spelled, hkind,
    htext, readName, spelledKey, keyKind]
  cases isIdentifier (key name).toList with
  | true => rfl
  | false => rfl

/-- An import statement is from what is between the quotes of its path. -/
theorem import?_source (source : List Char) {statement path : Node}
    (h : statement.child? "source" = some path) :
    ∃ i, Reading.import? source statement = some i ∧ i.source = unquote (path.text source) := by
  have hfold : ∀ (parts : List Node) (i : ImportStatement),
      (parts.foldl (Reading.addClausePart source) i).source = i.source := by
    intro parts
    induction parts with
    | nil => exact fun _ => rfl
    | cons p parts ih =>
      intro i
      rw [List.foldl_cons, ih, Reading.addClausePart]
      split
      · rfl
      · split <;> rfl
  rw [Reading.import?, h]
  refine ⟨_, rfl, ?_⟩
  dsimp only
  split
  · exact hfold _ _
  · rfl

/-! ### Quoted texts are strings -/

theorem closesLiteral_cons {c : Char} {cs : List Char} (h : c ≠ '\'' ∧ c ≠ '\\')
    (hreadable : c ≠ '\n' ∧ c ≠ '\r' ∧ c ≠ '\x00') :
    closesLiteral (c :: cs) = closesLiteral cs := by
  cases cs with
  | nil => simp [closesLiteral, h]
  | cons d cs => simp [closesLiteral, h, hreadable]

theorem closesLiteral_escaped {cs : List Char}
    (h : ∀ c ∈ cs, c ≠ '\n' ∧ c ≠ '\r' ∧ c ≠ '\x00') :
    closesLiteral (cs.flatMap escapeQuoted ++ ['\'']) = true := by
  induction cs with
  | nil => rfl
  | cons c cs ih =>
    rw [List.forall_mem_cons] at h
    rw [List.flatMap_cons, List.append_assoc]
    by_cases hc : c ≠ '\'' ∧ c ≠ '\\'
    · rw [escapeQuoted_eq hc, List.singleton_append, closesLiteral_cons hc h.1]
      exact ih h.2
    · rw [escapeQuoted_marked hc]
      rw [not_and_or, not_not, not_not] at hc
      rcases hc with rfl | rfl
      · exact ih h.2
      · exact ih h.2

theorem isLiteral_quoted {s : String} (h : Readable s) : isLiteral (quoted s).toList = true := by
  rw [quoted_toList]
  exact closesLiteral_escaped h

end TypeLoom.ResolverModule
