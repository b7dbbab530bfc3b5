import TypeLoom.Schema.Document

/-!
# Documents that are compared

Values hold values, so whether two are the same is found by going through both. All that is made of
values is compared by its parts, up to whole documents.
-/

namespace TypeLoom.Schema

namespace Value

mutual

/-- Whether two values are the same. -/
def same : Value → Value → Bool
  | .variable x, .variable y => x == y
  | .int x, .int y => x == y
  | .float x, .float y => x == y
  | .string x, .string y => x == y
  | .boolean x, .boolean y => x == y
  | .null, .null => true
  | .enum x, .enum y => x == y
  | .list xs, .list ys => sameItems xs ys
  | .object xs, .object ys => sameEntries xs ys
  | _, _ => false

/-- Item by item. -/
def sameItems : List Value → List Value → Bool
  | [], [] => true
  | x :: xs, y :: ys => same x y && sameItems xs ys
  | _, _ => false

/-- Entry by entry. -/
def sameEntries : List (String × Value) → List (String × Value) → Bool
  | [], [] => true
  | (k, x) :: xs, (l, y) :: ys => k == l && same x y && sameEntries xs ys
  | _, _ => false

end

mutual

theorem same_iff : ∀ v w : Value, v.same w = true ↔ v = w
  | .variable _, w => by cases w <;> simp [same]
  | .int _, w => by cases w <;> simp [same]
  | .float _, w => by cases w <;> simp [same]
  | .string _, w => by cases w <;> simp [same]
  | .boolean _, w => by cases w <;> simp [same]
  | .null, w => by cases w <;> simp [same]
  | .enum _, w => by cases w <;> simp [same]
  | .list vs, w => by cases w <;> simp [same, sameItems_iff vs]
  | .object es, w => by cases w <;> simp [same, sameEntries_iff es]

theorem sameItems_iff : ∀ vs ws : List Value, sameItems vs ws = true ↔ vs = ws
  | [], ws => by cases ws <;> simp [sameItems]
  | v :: vs, ws => by cases ws <;> simp [sameItems, same_iff v, sameItems_iff vs]

theorem sameEntries_iff :
    ∀ es fs : List (String × Value), sameEntries es fs = true ↔ es = fs
  | [], fs => by cases fs <;> simp [sameEntries]
  | (_, v) :: es, fs => by
    rcases fs with _ | ⟨⟨_, _⟩, _⟩ <;>
      simp [sameEntries, same_iff v, sameEntries_iff es, and_assoc]

end

instance : DecidableEq Value := fun v w => decidable_of_iff (v.same w = true) (same_iff v w)

end Value

deriving instance DecidableEq for Directive, InputValue, Field, EnumValue, TypeBody, TypeDeclaration,
  DirectiveDefinition, SchemaBlock, Definition, SourcedDefinition, Document

end TypeLoom.Schema
