import TypeLoom.Proofs.Schema.Consumption

/-!
# The names of types that were read

A reader takes its names from tokens, and a scanned token that is a name has at least one character
and only characters of names. Main statement: a type that was read has a name.
-/

namespace TypeLoom.Schema

/-- A letter or underscore, then letters, digits and underscores. -/
def isNameText (s : String) : Bool :=
  match s.toList with
  | [] => false
  | c :: cs => Token.isNameStart c && cs.all Token.isNameChar

namespace Token

/-- A token that is a name has the text of one. -/
def Proper (t : Token) : Prop := ∀ n, t.lexeme = .name n → isNameText n = true

theorem cut_proper {cs : List Char} {c : Cut} (h : cut cs = some c) {n : String}
    (hn : c.lexeme = .name n) : isNameText n = true := by
  unfold cut at h
  split at h
  · cases h
    cases hn
  · obtain ⟨_, -, rfl⟩ := Option.map_eq_some_iff.mp h
    cases hn
  · obtain ⟨_, -, h⟩ := Option.bind_eq_some_iff.mp h
    obtain ⟨_, -, rfl⟩ := Option.map_eq_some_iff.mp h
    cases hn
  · rename_i c cs _ _ _
    split at h
    · cases h
      cases hn
    · split at h
      · rename_i hstart
        cases h
        cases hn
        have hrest : (cs.takeWhile isNameChar).all isNameChar = true := List.all_takeWhile
        simp [isNameText, hstart, hrest]
      · split at h
        · cases h
          simp only [numberLexeme] at hn
          repeat' split at hn
          all_goals cases hn
        · cases h
  · cases h

theorem scanFrom_proper (fuel room : Nat) (p : Position) (cs : List Char) :
    ∀ t ∈ scanFrom fuel room p cs, t.Proper := by
  induction fuel generalizing room p cs with
  | zero => simp [scanFrom, Proper]
  | succ fuel ih =>
    unfold scanFrom
    split
    · simp [Proper]
    · split
      · simp [Proper]
      · rename_i hcut
        split
        · simp [Proper]
        · exact List.forall_mem_cons.mpr ⟨fun n hn => cut_proper hcut hn, ih _ _ _⟩

end Token

namespace Reading

variable {α β : Type}

/-- A reader that reads something with a name, from tokens one of which is that name. -/
abbrev Names (m : Reader α) (name? : α → Option String) : Prop :=
  Reads m fun used a => ∀ n, name? a = some n → ∃ t ∈ used, t.lexeme = .name n

theorem Names.after {m : Reader α} {f : α → Reader β} {name? : β → Option String}
    (hm : Leaves m) (hf : ∀ a, Names (f a) name?) : Names (m >>= f) name? := by
  refine Reads.bind hm hf fun us vs _ b _ hb n hn => ?_
  obtain ⟨t, ht, hname⟩ := hb n hn
  exact ⟨t, List.mem_append_right us ht, hname⟩

/-- What is made of something with a name has its name. -/
theorem Names.pure {m : Reader α} {make : α → β} {name? : α → Option String}
    {made? : β → Option String} (hm : Names m name?) (hmake : ∀ a, made? (make a) = name? a) :
    Names (m >>= fun a => Pure.pure (make a)) made? := by
  refine Reads.bind hm (S := fun a vs b => vs = [] ∧ b = make a) (fun a => reads_pure ⟨rfl, rfl⟩) ?_
  rintro us vs a b ha ⟨rfl, rfl⟩ n hn
  rw [List.append_nil]
  exact ha n (hmake a ▸ hn)

theorem names_of_unnamed {m : Reader α} (hm : Leaves m) {make : α → β} {name? : β → Option String}
    (h : ∀ a, name? (make a) = none) : Names (m >>= fun a => Pure.pure (make a)) name? := by
  refine Reads.bind hm (S := fun a _ b => b = make a) (fun a => reads_pure rfl) ?_
  rintro us vs a b - rfl n hn
  rw [h] at hn
  cases hn

/-- Whatever follows, a type has the name that was read first. -/
theorem names_typeDeclaration (p : Position) (text : Option String) (keyword : String) :
    Names (typeDeclaration p text keyword) fun t => some t.name := by
  refine Reads.bind reads_name (S := fun n _ t => t.name = n) (fun n => ?_) ?_
  · have hpure : ∀ t : TypeDeclaration, t.name = n →
        Reads (Pure.pure t) fun _ (u : TypeDeclaration) => u.name = n := fun t ht => reads_pure ht
    split
    · exact leaves_directives.then fun _ => hpure _ rfl
    · exact leaves_interfaces.then fun _ => leaves_directives.then fun _ =>
        leaves_fields.then fun _ => hpure _ rfl
    · exact leaves_interfaces.then fun _ => leaves_directives.then fun _ =>
        leaves_fields.then fun _ => hpure _ rfl
    · exact leaves_directives.then fun _ => leaves_unionMembers.then fun _ => hpure _ rfl
    · exact leaves_directives.then fun _ =>
        (leaves_optionally (leaves_many1 leaves_enumValue)).then fun _ => hpure _ rfl
    · exact leaves_directives.then fun _ => leaves_inputFields.then fun _ => hpure _ rfl
  · rintro us vs n t ⟨token, rfl, hname⟩ rfl m hm
    cases hm
    exact ⟨token, by simp, hname⟩

theorem names_extension : Names extension fun t => some t.name := by
  refine Names.after leaves_peek fun _ => Names.after leaves_peek fun _ => ?_
  split
  · refine reads_ite (Names.after leaves_advance fun _ => ?_) (reads_fail _)
    refine Reads.bind (names_typeDeclaration _ _ _) (S := fun t _ u => u = t)
      (fun t => reads_ite (reads_pure rfl) (reads_throw _ _)) ?_
    rintro us vs t u ht rfl n hn
    obtain ⟨token, htoken, hname⟩ := ht n hn
    exact ⟨token, List.mem_append_left vs htoken, hname⟩
  · exact reads_fail _

/-- The name of a type that is defined or extended. -/
def typeName? : Definition → Option String
  | .type t => some t.name
  | .extension t => some t.name
  | _ => none

theorem names_definition : Names definition typeName? := by
  refine Names.after leaves_description fun _ => Names.after leaves_peek fun _ =>
    Names.after leaves_peek fun _ => ?_
  split
  · refine reads_ite (Names.after leaves_advance fun _ => ?_)
      (reads_ite (Names.after leaves_advance fun _ => ?_) (reads_ite (reads_fail _)
        (reads_ite (Names.after leaves_advance fun _ => ?_)
          (reads_ite (Names.after leaves_advance fun _ => ?_) (reads_fail _)))))
    · exact (names_typeDeclaration _ _ _).pure fun _ => rfl
    · exact names_of_unnamed (leaves_directiveDefinition _ _) fun _ => rfl
    · exact names_of_unnamed (leaves_schemaBlock _) fun _ => rfl
    · exact names_extension.pure fun _ => rfl
  · exact reads_fail _

/-- Whether a type that is defined or extended has the text of a name as its name. -/
def WellNamed : Definition → Prop
  | .type t => isNameText t.name = true
  | .extension t => isNameText t.name = true
  | _ => True

theorem wellNamed_of_typeName? {d : Definition}
    (h : ∀ n, typeName? d = some n → isNameText n = true) : WellNamed d := by
  cases d with
  | type t => exact h t.name rfl
  | extension t => exact h t.name rfl
  | _ => trivial

/-- Every type that was read has a name. -/
theorem read_wellNamed {text : List Char} {ds : List Definition} (h : read text = .ok ds) :
    ∀ d ∈ ds, WellNamed d := by
  obtain ⟨used, rest, hscan, hnames⟩ := reads_of_read names_definition
    (S := fun used ds => ∀ d ∈ ds, ∀ n, typeName? d = some n → ∃ t ∈ used, t.lexeme = .name n)
    (by simp) (by
      intro us vs d ds hd hds e he n hn
      rcases List.mem_cons.mp he with rfl | he
      · obtain ⟨t, ht, hname⟩ := hd n hn
        exact ⟨t, List.mem_append_left vs ht, hname⟩
      · obtain ⟨t, ht, hname⟩ := hds e he n hn
        exact ⟨t, List.mem_append_right us ht, hname⟩) h
  intro d hd
  refine wellNamed_of_typeName? fun n hn => ?_
  obtain ⟨t, ht, hname⟩ := hnames d hd n hn
  have hmem : t ∈ Token.scan text := hscan ▸ List.mem_append_left rest ht
  exact Token.scanFrom_proper _ _ _ _ t hmem n hname

end Reading

end TypeLoom.Schema
