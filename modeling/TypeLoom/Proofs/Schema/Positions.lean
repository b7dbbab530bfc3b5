import TypeLoom.Proofs.Schema.Consumption

/-!
# Where fields stand in a file

Every token stands after the one before it, however much is skipped between them, and a field
stands where its first token does. Main statement: the fields of a text are read in the order of
their positions, no two of which are the same.
-/

namespace TypeLoom

namespace Position

/-- The strict order of positions: by line, then by column. -/
def Lt (p q : Position) : Prop := p.line < q.line ∨ p.line = q.line ∧ p.column < q.column

theorem Lt.trans {p q r : Position} (h : p.Lt q) (h' : q.Lt r) : p.Lt r := by
  unfold Lt at *
  omega

theorem Lt.ne {p q : Position} (h : p.Lt q) : p ≠ q := by
  rintro rfl
  unfold Lt at h
  omega

theorem lt_nextLine (p : Position) : p.Lt p.nextLine := Or.inl (Nat.lt_succ_self p.line)

theorem lt_advance (p : Position) {n : Nat} (hn : 0 < n) : p.Lt (p.advance n) :=
  Or.inr ⟨rfl, Nat.lt_add_of_pos_right hn⟩

/-- A position that is not before another one. -/
def From (p q : Position) : Prop := q = p ∨ p.Lt q

theorem from_refl (p : Position) : p.From p := Or.inl rfl

theorem Lt.from {p q r : Position} (h : p.Lt q) (h' : q.From r) : p.Lt r := by
  rcases h' with rfl | h'
  · exact h
  · exact h.trans h'

theorem From.lt {p q r : Position} (h : p.From q) (h' : q.Lt r) : p.Lt r := by
  rcases h with rfl | h
  · exact h'
  · exact h.trans h'

theorem lt_over (p : Position) (c : Char) :
    p.Lt (if c == '\n' then p.nextLine else p.advance 1) := by
  split
  · exact p.lt_nextLine
  · exact p.lt_advance Nat.one_pos

theorem from_after (p : Position) (cs : List Char) : p.From (p.after cs) := by
  induction cs generalizing p with
  | nil => exact p.from_refl
  | cons c cs ih => exact Or.inr ((p.lt_over c).from (ih _))

theorem lt_after (p : Position) {cs : List Char} (hcs : cs ≠ []) : p.Lt (p.after cs) := by
  obtain ⟨c, cs, rfl⟩ := List.exists_cons_of_ne_nil hcs
  exact (p.lt_over c).from (from_after _ cs)

end Position

namespace Schema

namespace Token

theorem from_skip (inComment : Bool) (p : Position) (cs : List Char) :
    p.From (skip inComment p cs).1 := by
  induction cs generalizing inComment p with
  | nil => exact p.from_refl
  | cons c cs ih =>
    unfold skip
    split
    · split
      · exact Or.inr (p.lt_nextLine.from (ih _ _))
      · exact ih _ _
    · split
      · exact ih _ _
      · split
        · exact Or.inr ((p.lt_advance (by decide)).from (ih _ _))
        · split
          · exact Or.inr (p.lt_nextLine.from (ih _ _))
          · split
            · exact Or.inr ((p.lt_advance (by decide)).from (ih _ _))
            · split
              · exact ih _ _
              · exact p.from_refl

theorem consumed_ne_nil {cs : List Char} {c : Cut} (h : cut cs = some c) : c.consumed ≠ [] := by
  unfold cut at h
  split at h
  · cases h
    simp
  · obtain ⟨_, -, rfl⟩ := Option.map_eq_some_iff.mp h
    simp
  · obtain ⟨_, -, h⟩ := Option.bind_eq_some_iff.mp h
    obtain ⟨_, -, rfl⟩ := Option.map_eq_some_iff.mp h
    simp
  · split at h
    · cases h
      simp
    · split at h
      · cases h
        simp
      · split at h
        · cases h
          simp
        · cases h
  · cases h

/-- Tokens stand one after the other, the first of them not before where scanning starts. -/
theorem scanFrom_ascending (fuel room : Nat) (p : Position) (cs : List Char) :
    ((scanFrom fuel room p cs).map (·.position)).Pairwise Position.Lt ∧
      ∀ t ∈ scanFrom fuel room p cs, p.From t.position := by
  induction fuel generalizing room p cs with
  | zero => simp [scanFrom, Position.from_refl]
  | succ fuel ih =>
    have hskip := from_skip false p cs
    unfold scanFrom
    split
    · rename_i q heq
      rw [heq] at hskip
      simpa using hskip
    · rename_i q rest hne heq
      rw [heq] at hskip
      split
      · simpa using hskip
      · rename_i lexeme consumed left hcut
        have hlt := q.lt_after (consumed_ne_nil hcut)
        split
        · simpa using hskip
        · obtain ⟨hpairwise, hfrom⟩ := ih (if isOpener lexeme then room - 1
            else if isCloser lexeme then room + 1 else room) (q.after consumed) left
          constructor
          · rw [List.map_cons, List.pairwise_cons]
            refine ⟨?_, hpairwise⟩
            intro r hr
            obtain ⟨t, ht, rfl⟩ := List.mem_map.mp hr
            exact hlt.from (hfrom t ht)
          · intro t ht
            rcases List.mem_cons.mp ht with rfl | ht
            · exact hskip
            · exact Or.inr (hskip.lt (hlt.from (hfrom t ht)))

end Token

namespace Reading

variable {α β : Type}

/-- A reader that reads things at the positions of tokens it uses, in their order. -/
abbrev Places (m : Reader α) (positions : α → List Position) : Prop :=
  Reads m fun used a => (positions a).Sublist (used.map (·.position))

theorem Places.after {m : Reader α} {f : α → Reader β} {positions : β → List Position}
    (hm : Leaves m) (hf : ∀ a, Places (f a) positions) : Places (m >>= f) positions := by
  refine Reads.bind hm hf fun us vs _ b _ hb => ?_
  rw [List.map_append]
  exact List.sublist_append_of_sublist_right hb

/-- What follows adds nothing that has a position. -/
theorem Places.then {m : Reader α} {f : α → Reader β} {positions : α → List Position}
    {all : β → List Position} (hm : Places m positions)
    (hf : ∀ a, Reads (f a) fun _ b => all b = positions a) : Places (m >>= f) all := by
  refine Reads.bind hm hf fun us vs a b ha hb => ?_
  rw [hb, List.map_append]
  exact List.sublist_append_of_sublist_left ha

theorem places_of_none {m : Reader α} {positions : α → List Position}
    (h : Reads m fun _ a => positions a = []) : Places m positions :=
  h.imp fun _ _ ha => ha ▸ List.nil_sublist _

/-- What looks at the position of the next token and then uses it, stands there. -/
theorem places_of_peek {f : Token → Reader α} {position : α → Position}
    (hf : ∀ t, Reads (f t) fun used a => used ≠ [] ∧ position a = t.position) :
    Places (peek >>= f) fun a => [position a] := by
  intro ts a rest h
  cases ts with
  | nil =>
    obtain ⟨used, hused, hne, -⟩ := hf _ [] a rest h
    exact absurd (List.append_eq_nil_iff.mp hused.symm).1 hne
  | cons t ts =>
    obtain ⟨used, hused, hne, hposition⟩ := hf t (t :: ts) a rest h
    obtain ⟨u, us, rfl⟩ := List.exists_cons_of_ne_nil hne
    obtain ⟨rfl, -⟩ := List.cons.inj hused
    refine ⟨t :: us, hused, ?_⟩
    show [position a].Sublist (t.position :: us.map (·.position))
    rw [hposition]
    exact List.Sublist.cons_cons _ (List.nil_sublist _)

theorem places_field : Places field fun f => [f.position] := by
  refine places_of_peek fun t => ?_
  refine Reads.bind leaves_description (S := fun _ used f => used ≠ [] ∧ f.position = t.position)
    (fun _ => Reads.bind reads_name (S := fun _ _ f => f.position = t.position) (fun n => ?_) ?_) ?_
  · exact leaves_arguments.then fun _ => (leaves_punctuator _).then fun _ => leaves_typeRef.then
      fun _ => leaves_directives.then fun _ => reads_pure rfl
  · rintro us vs n f ⟨token, rfl, -⟩ hf
    exact ⟨by simp, hf⟩
  · intro us vs _ f _ hf
    exact ⟨fun h => hf.1 (List.append_eq_nil_iff.mp h).2, hf.2⟩

theorem places_fields : Places fields fun fs => fs.map (·.position) := by
  have hmany : Places (many1 startsEntry field) fun fs => fs.map (·.position) := by
    refine reads_many1 places_field (List.nil_sublist _) fun us vs f fs hf hfs => ?_
    rw [List.map_append]
    exact List.Sublist.append hf hfs
  refine Places.after (leaves_isNext _) fun _ => reads_ite ?_ (reads_pure (List.nil_sublist _))
  exact Places.after (leaves_punctuator _) fun _ => hmany.then fun fs =>
    (leaves_punctuator _).then fun _ => reads_pure rfl

/-- The positions of the fields of an object or interface type. -/
def bodyPositions : TypeBody → List Position
  | .object _ fields => fields.map (·.position)
  | .interface _ fields => fields.map (·.position)
  | _ => []

/-- The positions of the fields that a definition or an extension declares for an object or
interface type. -/
def fieldPositions : Definition → List Position
  | .type t => bodyPositions t.body
  | .extension t => bodyPositions t.body
  | _ => []

theorem places_typeDeclaration (p : Position) (text : Option String) (keyword : String) :
    Places (typeDeclaration p text keyword) fun t => bodyPositions t.body := by
  refine Places.after leaves_name fun n => ?_
  split
  · exact places_of_none (leaves_directives.then fun _ => reads_pure rfl)
  · exact Places.after leaves_interfaces fun _ => Places.after leaves_directives fun _ =>
      places_fields.then fun _ => reads_pure rfl
  · exact Places.after leaves_interfaces fun _ => Places.after leaves_directives fun _ =>
      places_fields.then fun _ => reads_pure rfl
  · exact places_of_none (leaves_directives.then fun _ => leaves_unionMembers.then fun _ =>
      reads_pure rfl)
  · exact places_of_none (leaves_directives.then fun _ =>
      (leaves_optionally (leaves_many1 leaves_enumValue)).then fun _ => reads_pure rfl)
  · exact places_of_none (leaves_directives.then fun _ => leaves_inputFields.then fun _ =>
      reads_pure rfl)

theorem places_extension : Places extension fun t => bodyPositions t.body := by
  refine Places.after leaves_peek fun _ => Places.after leaves_peek fun _ => ?_
  split
  · refine reads_ite (Places.after leaves_advance fun _ => ?_) (reads_fail _)
    exact (places_typeDeclaration _ _ _).then fun t => reads_ite (reads_pure rfl) (reads_throw _ _)
  · exact reads_fail _

theorem places_definition : Places definition fieldPositions := by
  refine Places.after leaves_description fun _ => Places.after leaves_peek fun _ =>
    Places.after leaves_peek fun _ => ?_
  split
  · refine reads_ite (Places.after leaves_advance fun _ => ?_)
      (reads_ite (Places.after leaves_advance fun _ => ?_) (reads_ite (reads_fail _)
        (reads_ite (Places.after leaves_advance fun _ => ?_)
          (reads_ite (Places.after leaves_advance fun _ => ?_) (reads_fail _)))))
    · exact (places_typeDeclaration _ _ _).then fun _ => reads_pure rfl
    · exact places_of_none ((leaves_directiveDefinition _ _).then fun _ => reads_pure rfl)
    · exact places_of_none ((leaves_schemaBlock _).then fun _ => reads_pure rfl)
    · exact places_extension.then fun _ => reads_pure rfl
  · exact reads_fail _

/-- The fields of a text stand one after the other. -/
theorem read_ascending {text : List Char} {ds : List Definition} (h : read text = .ok ds) :
    (ds.flatMap fieldPositions).Pairwise Position.Lt := by
  obtain ⟨used, rest, hscan, hplaces⟩ := reads_of_read places_definition
    (S := fun used ds => (ds.flatMap fieldPositions).Sublist (used.map (·.position)))
    (List.nil_sublist _) (by
      intro us vs d ds hd hds
      rw [List.flatMap_cons, List.map_append]
      exact List.Sublist.append hd hds) h
  have hscanned : ((Token.scan text).map (·.position)).Pairwise Position.Lt :=
    (Token.scanFrom_ascending _ _ _ _).1
  rw [hscan, List.map_append] at hscanned
  exact hscanned.sublist (List.sublist_append_of_sublist_left hplaces)

end Reading

end Schema

end TypeLoom
