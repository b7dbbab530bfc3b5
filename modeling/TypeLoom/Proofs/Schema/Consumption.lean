import TypeLoom.Schema.Reading

/-!
# The tokens that a reader uses

A reader takes tokens from the front and leaves the others as they are, so what it reads is made
from the tokens it has used. A statement about a reader relates the two, and statements about the
parts of a reader join as the used tokens do.
-/

namespace TypeLoom.Schema.Reading

variable {α β : Type}

/-- A reader that succeeds has used some tokens and left the rest, and `R` holds of the used tokens
and of what was read. -/
def Reads (m : Reader α) (R : List Token → α → Prop) : Prop :=
  ∀ ts a rest, m.run ts = .ok (a, rest) → ∃ used, ts = used ++ rest ∧ R used a

/-- A reader that takes tokens from the front only. -/
abbrev Leaves (m : Reader α) : Prop := Reads m fun _ _ => True

theorem Reads.imp {m : Reader α} {R S : List Token → α → Prop} (h : Reads m R)
    (hRS : ∀ used a, R used a → S used a) : Reads m S := by
  intro ts a rest hrun
  obtain ⟨used, hts, hR⟩ := h ts a rest hrun
  exact ⟨used, hts, hRS used a hR⟩

theorem Reads.leaves {m : Reader α} {R : List Token → α → Prop} (h : Reads m R) : Leaves m :=
  h.imp fun _ _ _ => trivial

/-- One reader after another uses the tokens of both. -/
theorem Reads.bind {m : Reader α} {f : α → Reader β} {R : List Token → α → Prop}
    {S : α → List Token → β → Prop} {T : List Token → β → Prop} (hm : Reads m R)
    (hf : ∀ a, Reads (f a) (S a)) (hT : ∀ us vs a b, R us a → S a vs b → T (us ++ vs) b) :
    Reads (m >>= f) T := by
  intro ts b rest h
  rw [StateT.run_bind] at h
  cases hrun : m.run ts with
  | error e =>
    rw [hrun] at h
    cases h
  | ok r =>
    obtain ⟨a, left⟩ := r
    rw [hrun] at h
    obtain ⟨us, rfl, hR⟩ := hm ts a left hrun
    obtain ⟨vs, rfl, hS⟩ := hf a left b rest h
    exact ⟨us ++ vs, (List.append_assoc us vs rest).symm, hT us vs a b hR hS⟩

/-- What uses nothing does not count. -/
theorem Reads.skip {m : Reader α} {f : α → Reader β} {T : List Token → β → Prop}
    (hm : Reads m fun used _ => used = []) (hf : ∀ a, Reads (f a) T) : Reads (m >>= f) T :=
  Reads.bind hm hf fun us vs _ b hus hT => by rwa [hus, List.nil_append]

theorem Leaves.bind {m : Reader α} {f : α → Reader β} (hm : Leaves m) (hf : ∀ a, Leaves (f a)) :
    Leaves (m >>= f) :=
  Reads.bind hm hf fun _ _ _ _ _ _ => trivial

/-- What holds of all that may be read in the end holds whatever was used before. -/
theorem Leaves.then {m : Reader α} {f : α → Reader β} {P : β → Prop} (hm : Leaves m)
    (hf : ∀ a, Reads (f a) fun _ b => P b) : Reads (m >>= f) fun _ b => P b :=
  Reads.bind hm hf fun _ _ _ _ _ hb => hb

theorem reads_pure {R : List Token → α → Prop} {a : α} (ha : R [] a) : Reads (pure a) R := by
  intro ts b rest h
  cases h
  exact ⟨[], rfl, ha⟩

theorem leaves_pure (a : α) : Leaves (pure a) := reads_pure trivial

theorem reads_throw (p : Position) (R : List Token → α → Prop) :
    Reads (throw p : Reader α) R := by
  intro ts a rest h
  cases h

/-- Looking ahead uses nothing. -/
theorem reads_peek : Reads peek fun used _ => used = [] := by
  intro ts t rest h
  cases ts <;> cases h <;> exact ⟨[], rfl, rfl⟩

theorem leaves_peek : Leaves peek := reads_peek.leaves

theorem leaves_advance : Leaves advance := by
  intro ts u rest h
  cases h
  exact ⟨ts.take 1, (List.take_append_drop 1 ts).symm, trivial⟩

theorem reads_get : Reads (get : Reader (List Token)) fun used _ => used = [] := by
  intro ts u rest h
  cases h
  exact ⟨[], rfl, rfl⟩

theorem leaves_get : Leaves (get : Reader (List Token)) := reads_get.leaves

theorem reads_fail (R : List Token → α → Prop) : Reads (fail : Reader α) R :=
  Reads.bind leaves_peek (fun t => reads_throw t.position fun _ _ => False)
    fun _ _ _ _ _ h => h.elim

theorem leaves_fail : Leaves (fail : Reader α) := reads_fail _

theorem reads_ite {b : Prop} [Decidable b] {m m' : Reader α} {R : List Token → α → Prop}
    (h : Reads m R) (h' : Reads m' R) : Reads (if b then m else m') R := by
  split
  · exact h
  · exact h'

theorem leaves_isNext (l : Lexeme) : Leaves (isNext l) := leaves_peek.bind fun _ => leaves_pure _

theorem leaves_accept (l : Lexeme) : Leaves (accept l) :=
  (leaves_isNext l).bind fun _ =>
    reads_ite (leaves_advance.bind fun _ => leaves_pure true) (leaves_pure false)

theorem leaves_expect (l : Lexeme) : Leaves (expect l) :=
  (leaves_accept l).bind fun _ => reads_ite (leaves_pure _) leaves_fail

theorem leaves_punctuator (text : String) : Leaves (punctuator text) := leaves_expect _

/-- A name is the text of the one token that is used for it. -/
theorem reads_name : Reads name fun used n => ∃ t, used = [t] ∧ t.lexeme = .name n := by
  intro ts n rest h
  cases ts with
  | nil => cases h
  | cons t ts =>
    obtain ⟨lexeme, position⟩ := t
    cases lexeme with
    | name m =>
      cases h
      exact ⟨[_], rfl, _, rfl, rfl⟩
    | _ => cases h

theorem leaves_name : Leaves name := reads_name.leaves

section

variable {more : Lexeme → Bool} {item : Reader α} {R : List Token → α → Prop}
  {S : List Token → List α → Prop}

theorem reads_cons {items : Reader (List α)} (h : Reads item R) (hs : Reads items S)
    (hcons : ∀ us vs x xs, R us x → S vs xs → S (us ++ vs) (x :: xs)) :
    Reads (do let x ← item; let xs ← items; return x :: xs) S := by
  refine Reads.bind h (fun x => Reads.bind (T := fun vs ys => ∃ xs, ys = x :: xs ∧ S vs xs) hs
    (fun xs => reads_pure (R := fun us ys => us = [] ∧ ys = x :: xs) ⟨rfl, rfl⟩) ?_) ?_
  · rintro us vs xs ys hxs ⟨rfl, rfl⟩
    exact ⟨xs, rfl, by rwa [List.append_nil]⟩
  · rintro us vs x _ hx ⟨xs, rfl, hxs⟩
    exact hcons us vs x xs hx hxs

/-- Items in a row use their tokens one after the other. -/
theorem reads_manyWithin (h : Reads item R) (hnil : S [] [])
    (hcons : ∀ us vs x xs, R us x → S vs xs → S (us ++ vs) (x :: xs)) (fuel : Nat) :
    Reads (manyWithin more item fuel) S := by
  induction fuel with
  | zero => exact reads_pure hnil
  | succ fuel ih =>
    exact reads_peek.skip fun t => reads_ite (reads_cons h ih hcons) (reads_pure hnil)

theorem reads_many (h : Reads item R) (hnil : S [] [])
    (hcons : ∀ us vs x xs, R us x → S vs xs → S (us ++ vs) (x :: xs)) :
    Reads (many more item) S :=
  reads_get.skip fun ts => reads_manyWithin h hnil hcons ts.length

theorem reads_many1 (h : Reads item R) (hnil : S [] [])
    (hcons : ∀ us vs x xs, R us x → S vs xs → S (us ++ vs) (x :: xs)) :
    Reads (many1 more item) S :=
  reads_cons h (reads_many h hnil hcons) hcons

theorem leaves_many (h : Leaves item) : Leaves (many more item) :=
  reads_many h trivial fun _ _ _ _ _ _ => trivial

theorem leaves_many1 (h : Leaves item) : Leaves (many1 more item) :=
  reads_many1 h trivial fun _ _ _ _ _ _ => trivial

end

theorem leaves_enclosed {opening closing : String} {entries : Reader α} (h : Leaves entries) :
    Leaves (enclosed opening closing entries) :=
  (leaves_punctuator _).bind fun _ => h.bind fun xs =>
    (leaves_punctuator _).bind fun _ => leaves_pure xs

theorem leaves_optionally {opening closing : String} {entries : Reader (List α)}
    (h : Leaves entries) : Leaves (optionally opening closing entries) :=
  (leaves_isNext _).bind fun _ => reads_ite (leaves_enclosed h) (leaves_pure [])

theorem leaves_valueWithin (withVariables : Bool) (fuel : Nat) :
    Leaves (valueWithin withVariables fuel) := by
  induction fuel with
  | zero => exact leaves_fail
  | succ fuel ih =>
    refine leaves_peek.bind fun t => ?_
    split
    · exact leaves_advance.bind fun _ => leaves_pure _
    · exact leaves_advance.bind fun _ => leaves_pure _
    · exact leaves_advance.bind fun _ => leaves_pure _
    · exact leaves_advance.bind fun _ => leaves_pure _
    · refine reads_ite ?_ (leaves_fail)
      exact leaves_advance.bind fun _ => leaves_name.bind fun _ => leaves_pure _
    · exact (leaves_enclosed (leaves_many ih)).bind fun _ => leaves_pure _
    · have hentry : Leaves (do
          let key ← name
          punctuator ":"
          return (key, ← valueWithin withVariables fuel)) :=
        leaves_name.bind fun _ => (leaves_punctuator _).bind fun _ => ih.bind fun _ => leaves_pure _
      exact (leaves_enclosed (leaves_many hentry)).bind fun entries => leaves_pure _
    · exact leaves_fail

theorem leaves_value (withVariables : Bool) : Leaves (value withVariables) :=
  leaves_get.bind fun ts => leaves_valueWithin withVariables ts.length

theorem leaves_typeRefWithin (fuel : Nat) : Leaves (typeRefWithin fuel) := by
  induction fuel with
  | zero => exact leaves_fail
  | succ fuel ih =>
    have hmark : ∀ inner : TypeRef, Leaves (do
        if ← accept (.punctuator "!") then return TypeRef.nonNull inner else return inner) :=
      fun _ => (leaves_accept _).bind fun _ => reads_ite (leaves_pure _) (leaves_pure _)
    refine (leaves_isNext _).bind fun _ => reads_ite ?_ ?_
    · exact (leaves_enclosed ih).bind fun _ => (leaves_pure _).bind hmark
    · exact leaves_name.bind fun _ => (leaves_pure _).bind hmark

theorem leaves_typeRef : Leaves typeRef := leaves_get.bind fun ts => leaves_typeRefWithin ts.length

theorem leaves_directiveArgument : Leaves directiveArgument :=
  leaves_name.bind fun _ => (leaves_punctuator _).bind fun _ => (leaves_value true).bind fun _ =>
    leaves_pure _

theorem leaves_directive : Leaves directive :=
  leaves_peek.bind fun _ => (leaves_punctuator _).bind fun _ => leaves_name.bind fun _ =>
    (leaves_optionally (leaves_many1 leaves_directiveArgument)).bind fun _ => leaves_pure _

theorem leaves_directives : Leaves directives := leaves_many leaves_directive

theorem leaves_description : Leaves description := by
  refine leaves_peek.bind fun t => ?_
  split
  · exact leaves_advance.bind fun _ => leaves_pure _
  · exact leaves_pure none

theorem leaves_inputValue : Leaves inputValue := by
  refine leaves_peek.bind fun _ => leaves_description.bind fun _ => leaves_name.bind fun _ =>
    (leaves_punctuator _).bind fun _ => leaves_typeRef.bind fun _ => ?_
  refine (leaves_accept _).bind fun _ => reads_ite ?_ ?_
  · exact (leaves_value false).bind fun _ => (leaves_pure _).bind fun _ =>
      leaves_directives.bind fun _ => leaves_pure _
  · exact (leaves_pure _).bind fun _ => leaves_directives.bind fun _ => leaves_pure _

theorem leaves_arguments : Leaves arguments := leaves_optionally (leaves_many1 leaves_inputValue)

theorem leaves_field : Leaves field :=
  leaves_peek.bind fun _ => leaves_description.bind fun _ => leaves_name.bind fun _ =>
    leaves_arguments.bind fun _ => (leaves_punctuator _).bind fun _ => leaves_typeRef.bind fun _ =>
      leaves_directives.bind fun _ => leaves_pure _

theorem leaves_fields : Leaves fields := leaves_optionally (leaves_many1 leaves_field)

theorem leaves_inputFields : Leaves inputFields := leaves_optionally (leaves_many1 leaves_inputValue)

theorem leaves_enumValue : Leaves enumValue :=
  leaves_peek.bind fun _ => leaves_description.bind fun _ => leaves_name.bind fun _ =>
    leaves_directives.bind fun _ => leaves_pure _

theorem leaves_separatedNames {separator : String} {item : Reader String} (h : Leaves item) :
    Leaves (separatedNames separator item) :=
  (leaves_accept _).bind fun _ => h.bind fun _ =>
    (leaves_many ((leaves_punctuator _).bind fun _ => h)).bind fun _ => leaves_pure _

theorem leaves_interfaces : Leaves interfaces :=
  (leaves_accept _).bind fun _ => reads_ite (leaves_separatedNames leaves_name) (leaves_pure [])

theorem leaves_unionMembers : Leaves unionMembers :=
  (leaves_accept _).bind fun _ => reads_ite (leaves_separatedNames leaves_name) (leaves_pure [])

theorem leaves_directiveLocation : Leaves directiveLocation := by
  refine leaves_peek.bind fun t => ?_
  split
  · exact reads_ite (leaves_advance.bind fun _ => leaves_pure _) (leaves_fail)
  · exact leaves_fail

theorem leaves_locations : Leaves locations := by
  refine (leaves_accept _).bind fun _ => leaves_peek.bind fun _ => reads_ite ?_ (leaves_pure [])
  exact leaves_directiveLocation.bind fun _ =>
    (leaves_many ((leaves_punctuator _).bind fun _ => leaves_directiveLocation)).bind fun _ =>
      leaves_pure _

theorem leaves_directiveDefinition (p : Position) (text : Option String) :
    Leaves (directiveDefinition p text) :=
  (leaves_punctuator _).bind fun _ => leaves_name.bind fun _ => leaves_arguments.bind fun _ =>
    (leaves_accept _).bind fun _ => (leaves_expect _).bind fun _ => leaves_locations.bind fun _ =>
      leaves_pure _

theorem leaves_schemaBlock (p : Position) : Leaves (schemaBlock p) := by
  have hentry : Leaves operationEntry :=
    leaves_name.bind fun _ => (leaves_punctuator _).bind fun _ => leaves_name.bind fun _ =>
      leaves_pure _
  exact leaves_directives.bind fun _ => (leaves_enclosed (leaves_many hentry)).bind fun _ =>
    reads_ite (leaves_pure _) (reads_throw p _)

/-- A text is read from its tokens as a whole, definition after definition. -/
theorem reads_of_read {R : List Token → Definition → Prop} {S : List Token → List Definition → Prop}
    (h : Reads definition R) (hnil : S [] [])
    (hcons : ∀ us vs d ds, R us d → S vs ds → S (us ++ vs) (d :: ds)) {text : List Char}
    {ds : List Definition} (hread : read text = .ok ds) :
    ∃ used rest, Token.scan text = used ++ rest ∧ S used ds := by
  have hall : Reads definitions fun used ds => ∃ us vs, used = us ++ vs ∧ S us ds := by
    refine Reads.bind (reads_many1 h hnil hcons) (S := fun ds _ es => es = ds)
      (fun ds => (leaves_expect _).then fun _ => reads_pure rfl) ?_
    rintro us vs ds _ hds rfl
    exact ⟨us, vs, rfl, hds⟩
  unfold read at hread
  cases hrun : definitions.run (Token.scan text) with
  | error p =>
    rw [hrun] at hread
    cases hread
  | ok r =>
    rw [hrun] at hread
    cases hread
    obtain ⟨used, hused, us, vs, rfl, hS⟩ := hall _ _ _ hrun
    exact ⟨us, vs ++ r.2, by rw [hused, List.append_assoc], hS⟩

end TypeLoom.Schema.Reading
