import TypeLoom.Generation.Naming
import TypeLoom.Proofs.Path.Relative
import TypeLoom.Proofs.Schema.Names
import TypeLoom.Proofs.Token.Spelling

/-!
# Generated names as identifiers

All that a generated name is made of are letters, digits and underscores: names of the schema, the
words of a file name and fixed endings. So it is an identifier unless it begins with a digit, and
only the words of a file name can bring one to the start. Main statement: a generated name is an
identifier if and only if it does not begin with a file name whose first word begins with a digit.
-/

namespace TypeLoom

theorem Text.flatten_splitAt (p : Char → Bool) (cs : List Char) :
    (Text.splitAt (!p ·) cs).flatten = cs.filter p := by
  induction cs with
  | nil => rfl
  | cons c cs ih =>
    rw [Text.splitAt, List.filter_cons]
    cases hc : p c with
    | false => simpa using ih
    | true =>
      obtain ⟨piece, pieces, hpieces⟩ := List.exists_cons_of_ne_nil (Text.splitAt_ne_nil (!p ·) cs)
      rw [hpieces] at ih
      simpa [hpieces] using ih

namespace Generation

open Schema Declaration

/-! ### Word characters -/

theorem isWordChar_toNat {ch : Char} (h : isWordChar ch = true) : ch.toNat < 0x7B := by
  have hidentifier : isIdentifierChar ch = true := Bool.or_eq_true_iff.mpr (.inl h)
  have hle := (TypeScript.Token.toNat_of_isIdentifierChar hidentifier).2
  omega

/-- In upper case, a word character is one or several of them, the first of which is a digit only
if it was one before. -/
theorem upperOf_of_isWordChar {ch : Char} (h : isWordChar ch = true) :
    (∀ d ∈ Text.upperOf ch, isWordChar d = true) ∧
      (Text.upperOf ch).head?.map Char.isDigit = some ch.isDigit := by
  have hall : ∀ n < 0x7B, isWordChar (Char.ofNat n) = true →
      (Text.upperOf (Char.ofNat n)).all isWordChar = true ∧
        (Text.upperOf (Char.ofNat n)).head?.map Char.isDigit = some (Char.ofNat n).isDigit := by
    decide +kernel
  have hch := hall ch.toNat (isWordChar_toNat h)
  rw [Char.ofNat_toNat] at hch
  exact ⟨List.all_eq_true.mp (hch h).1, (hch h).2⟩

theorem isWordChar_of_isNameChar {ch : Char} (h : Token.isNameChar ch = true) :
    isWordChar ch = true := by
  simp only [Token.isNameChar, Token.isNameStart, isWordChar, Char.isAlphanum, Bool.or_eq_true] at *
  tauto

/-- A word character starts an identifier unless it is a digit. -/
theorem isIdentifierStart_iff {ch : Char} (h : isWordChar ch = true) :
    isIdentifierStart ch = true ↔ ch.isDigit = false := by
  constructor
  · intro hstart
    have hname := (TypeScript.Token.isNameStart_of_isIdentifierStart hstart).1
    simpa using (Bool.and_eq_true_iff.mp hname).2
  · intro hdigit
    simp only [isWordChar, Char.isAlphanum, hdigit, isIdentifierStart, Bool.or_eq_true] at *
    tauto

/-! ### Words -/

/-- A text of word characters of which it is known whether the first one is a digit. -/
structure WordText (s : String) (digit : Bool) : Prop where
  words : ∀ ch ∈ s.toList, isWordChar ch = true
  first : s.toList.head?.map Char.isDigit = some digit

theorem WordText.append {s t : String} {digit : Bool} (hs : WordText s digit)
    (ht : ∀ ch ∈ t.toList, isWordChar ch = true) : WordText (s ++ t) digit := by
  constructor
  case words =>
    rw [String.toList_append, List.forall_mem_append]
    exact ⟨hs.words, ht⟩
  case first =>
    obtain ⟨ch, hch, -⟩ := Option.map_eq_some_iff.mp hs.first
    rw [String.toList_append, List.head?_append, hch, Option.some_or, ← hch]
    exact hs.first

/-- Words are an identifier unless they begin with a digit. -/
theorem WordText.isIdentifier_iff {s : String} {digit : Bool} (h : WordText s digit) :
    isIdentifier s.toList = true ↔ digit = false := by
  obtain ⟨ch, hch, rfl⟩ := Option.map_eq_some_iff.mp h.first
  obtain ⟨rest, hs⟩ := List.head?_eq_some_iff.mp hch
  have hwords := h.words
  rw [hs] at hwords ⊢
  have hrest : rest.all isIdentifierChar = true := List.all_eq_true.mpr fun d hd =>
    Bool.or_eq_true_iff.mpr (.inl (hwords d (List.mem_cons_of_mem ch hd)))
  rw [isIdentifier, hrest, Bool.and_true]
  exact isIdentifierStart_iff (hwords ch List.mem_cons_self)

theorem WordText.upperFirst {s : String} {digit : Bool} (h : WordText s digit) :
    WordText (Text.upperFirst s) digit := by
  obtain ⟨ch, hch, rfl⟩ := Option.map_eq_some_iff.mp h.first
  obtain ⟨rest, hs⟩ := List.head?_eq_some_iff.mp hch
  have hwords := h.words
  rw [hs] at hwords
  obtain ⟨hupper, hdigit⟩ := upperOf_of_isWordChar (hwords ch List.mem_cons_self)
  have htext : (Text.upperFirst s).toList = Text.upperOf ch ++ rest := by
    rw [Text.upperFirst, hs, String.toList_ofList]
  constructor
  case words =>
    rw [htext, List.forall_mem_append]
    exact ⟨hupper, fun d hd => hwords d (List.mem_cons_of_mem ch hd)⟩
  case first =>
    obtain ⟨d, hd, hdd⟩ := Option.map_eq_some_iff.mp hdigit
    rw [htext, List.head?_append, hd, Option.some_or, Option.map_some, hdd]

/-- Names of the schema do not begin with a digit. -/
theorem wordText_of_isNameText {s : String} (h : isNameText s = true) : WordText s false := by
  unfold isNameText at h
  split at h
  · cases h
  · rename_i ch rest hs
    obtain ⟨hstart, hrest⟩ := Bool.and_eq_true_iff.mp h
    have hword : isWordChar ch = true :=
      isWordChar_of_isNameChar (Bool.or_eq_true_iff.mpr (.inl hstart))
    have hidentifier : isIdentifierStart ch = true := by
      simp only [Token.isNameStart, isIdentifierStart, Bool.or_eq_true] at hstart ⊢
      tauto
    constructor
    case words =>
      rw [hs]
      exact List.forall_mem_cons.mpr ⟨hword, fun d hd =>
        isWordChar_of_isNameChar (List.all_eq_true.mp hrest d hd)⟩
    case first =>
      rw [hs]
      exact congrArg some ((isIdentifierStart_iff hword).mp hidentifier)

/-! ### File names -/

/-- Whether the first word character of a file's name is a digit. -/
def digitFirst (file : Path) : Bool :=
  ((file.stem?.getD "").toList.find? isWordChar).any Char.isDigit

/-- Words joined with their first letters in upper case begin as they do without. -/
theorem head?_capitalized {pieces : List (List Char)}
    (h : ∀ w ∈ pieces, ∀ ch ∈ w, isWordChar ch = true) :
    (String.join (pieces.map fun w => Text.upperFirst (String.ofList w))).toList.head?.map
        Char.isDigit = pieces.flatten.head?.map Char.isDigit ∧
      ∀ ch ∈ (String.join (pieces.map fun w => Text.upperFirst (String.ofList w))).toList,
        isWordChar ch = true := by
  rw [String.toList_join]
  induction pieces with
  | nil => exact ⟨rfl, by simp⟩
  | cons w pieces ih =>
    obtain ⟨hw, hpieces⟩ := List.forall_mem_cons.mp h
    obtain ⟨hhead, hwords⟩ := ih hpieces
    rw [List.map_cons, List.flatMap_cons, List.flatten_cons]
    cases w with
    | nil => exact ⟨hhead, hwords⟩
    | cons ch rest =>
      have hword : WordText (String.ofList (ch :: rest)) ch.isDigit :=
        ⟨by rwa [String.toList_ofList], by rw [String.toList_ofList]; rfl⟩
      obtain ⟨d, hd, hdigit⟩ := Option.map_eq_some_iff.mp hword.upperFirst.first
      refine ⟨?_, List.forall_mem_append.mpr ⟨hword.upperFirst.words, hwords⟩⟩
      rw [List.head?_append, hd, Option.some_or, Option.map_some, hdigit]
      rfl

/-- The piece of an identifier that a file's name gives has word characters only, the first of
which is a digit exactly if the first one in the name is. -/
theorem fileWord_spec (file : Path) :
    (∀ ch ∈ (fileWord file).toList, isWordChar ch = true) ∧
      (fileWord file).toList.head?.map Char.isDigit =
        ((file.stem?.getD "").toList.find? isWordChar).map Char.isDigit := by
  unfold fileWord
  generalize file.stem?.getD "" = stem
  dsimp only
  split
  · rename_i hall
    have hwords := List.all_eq_true.mp hall
    exact ⟨hwords, by rw [← List.head?_filter, List.filter_eq_self.mpr hwords]⟩
  · have hpieces : ∀ w ∈ (Text.splitAt (!isWordChar ·) stem.toList).filter (!·.isEmpty),
        ∀ ch ∈ w, isWordChar ch = true := by
      intro w hw ch hch
      simpa using Text.sep_of_mem_splitAt (List.mem_filter.mp hw).1 ch hch
    obtain ⟨hhead, hwords⟩ := head?_capitalized hpieces
    rw [List.flatten_filter_not_isEmpty, Text.flatten_splitAt, List.head?_filter] at hhead
    exact ⟨hwords, hhead⟩

theorem isWordChar_fileWord (file : Path) : ∀ ch ∈ (fileWord file).toList, isWordChar ch = true :=
  (fileWord_spec file).1

theorem wordText_fileWord (file : Path) :
    fileWord file = "" ∧ digitFirst file = false ∨ WordText (fileWord file) (digitFirst file) := by
  obtain ⟨hwords, hfirst⟩ := fileWord_spec file
  unfold digitFirst
  cases hfind : (file.stem?.getD "").toList.find? isWordChar with
  | none =>
    rw [hfind, Option.map_none, Option.map_eq_none_iff, List.head?_eq_none_iff] at hfirst
    exact Or.inl ⟨String.toList_eq_nil_iff.mp hfirst, rfl⟩
  | some ch =>
    rw [hfind] at hfirst
    exact Or.inr ⟨hwords, hfirst⟩

/-! ### Generated names -/

theorem wordText_groupName (file : Path) {parent : String} (h : WordText parent false) :
    WordText (groupName file parent) (digitFirst file) := by
  unfold groupName
  dsimp only
  obtain ⟨hempty, hfirst⟩ | hword := wordText_fileWord file
  · rw [hempty, hfirst]
    split
    · exact h
    · rwa [String.empty_append]
  · split
    · rename_i heq
      rw [beq_iff_eq] at heq
      rw [heq] at hword
      exact hword
    · exact hword.append h.words

/-- Generated names are identifiers exactly where they do not begin with a file name whose first
word begins with a digit. Those of the resolvers of mutations and subscriptions have no file name
in them. -/
theorem names_are_identifiers_iff (file : Path) {parent field : String}
    (hparent : isNameText parent = true) (hfield : isNameText field = true)
    (operation : Operation) :
    (isIdentifier (groupName file parent).toList = true ↔ digitFirst file = false) ∧
      (isIdentifier (resolversName (groupName file parent)).toList = true ↔
        digitFirst file = false) ∧
      (isIdentifier (resolverName file parent field operation).toList = true ↔
        (operation = .query → digitFirst file = false)) ∧
      (isIdentifier (argumentsName (resolverName file parent field operation)).toList = true ↔
        (operation = .query → digitFirst file = false)) := by
  have hgroup := wordText_groupName file (wordText_of_isNameText hparent)
  have hfield := (wordText_of_isNameText hfield).upperFirst
  have hname : ∃ digit, WordText (resolverName file parent field operation) digit ∧
      (digit = false ↔ (operation = .query → digitFirst file = false)) := by
    cases operation with
    | query =>
      exact ⟨_, (hgroup.append hfield.words).append (by simp [isWordChar]), by simp⟩
    | mutation => exact ⟨_, hfield.append (by simp [isWordChar]), by simp⟩
    | subscription => exact ⟨_, hfield.append (by simp [isWordChar]), by simp⟩
  obtain ⟨digit, hresolver, hdigit⟩ := hname
  refine ⟨hgroup.isIdentifier_iff, ?_, ?_, ?_⟩
  · exact (hgroup.append (t := "Resolvers") (by simp [isWordChar])).isIdentifier_iff
  · exact hresolver.isIdentifier_iff.trans hdigit
  · exact (hresolver.append (t := "Args") (by simp [isWordChar])).isIdentifier_iff.trans hdigit

/-- A file name with a digit before its first letter: what is declared for its queries cannot be
referred to. -/
theorem names_of_digit_first :
    (isNameText "Query" = true ∧ isNameText "code" = true) ∧
      isIdentifier (groupName ⟨"schema/2fa.graphql"⟩ "Query").toList = false ∧
      isIdentifier (resolverName ⟨"schema/2fa.graphql"⟩ "Query" "code" .query).toList = false ∧
      isIdentifier (resolverName ⟨"schema/2fa.graphql"⟩ "Query" "code" .mutation).toList = true := by
  have hdigit : digitFirst ⟨"schema/2fa.graphql"⟩ = true := by decide +kernel
  have hquery : isNameText "Query" = true := by decide
  have hcode : isNameText "code" = true := by decide
  obtain ⟨hgroup, -, hname, -⟩ :=
    names_are_identifiers_iff ⟨"schema/2fa.graphql"⟩ hquery hcode .query
  obtain ⟨-, -, hmutation, -⟩ :=
    names_are_identifiers_iff ⟨"schema/2fa.graphql"⟩ hquery hcode .mutation
  rw [hdigit] at hgroup hname
  refine ⟨⟨hquery, hcode⟩, ?_, ?_, hmutation.mpr (by simp)⟩
  · exact Bool.eq_false_iff.mpr fun h => Bool.noConfusion (hgroup.mp h)
  · exact Bool.eq_false_iff.mpr fun h => Bool.noConfusion (hname.mp h rfl)

end Generation

end TypeLoom
