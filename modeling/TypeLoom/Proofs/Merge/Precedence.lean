import TypeLoom.Proofs.Merge.Rebuilding
import TypeLoom.Proofs.Reading.Placement

/-!
# Which entry of a literal decides a key

Of the entries of a literal that can define a key, the last one decides. Entries of one name keep
their order when a literal is written anew, so the last entry of a name stays the last one. Spread
elements can define every key, but they have no name and go to the front, and then no longer
override what stood before them: `rebuilt_keeps_last`.
-/

namespace TypeLoom.ResolverModule

open Reading

/-- What an entry of a literal can define. -/
structure Slot where
  name : String
  isSpread : Bool
  deriving DecidableEq, Inhabited, Repr

namespace Slot

/-- Whether an entry names a key. -/
def names (k : String) (s : Slot) : Bool := !s.isSpread && s.name == k

/-- Whether an entry can define a key. -/
def canDefine (k : String) (s : Slot) : Bool := s.isSpread || s.names k

theorem canDefine_of_names {k : String} {s : Slot} (h : s.names k = true) :
    s.canDefine k = true := by
  rw [canDefine, h, Bool.or_true]

end Slot

/-- An element as an entry. Spread elements have no name. -/
def Node.slot (source : List Char) (element : Node) : Slot :=
  ⟨element.name source, element.kind == "spread_element"⟩

/-- The entries of a literal. -/
def Node.slots (source : List Char) (object : Node) : List Slot :=
  object.elements.map (Node.slot source)

def stubSlot (s : Stub) : Slot := ⟨s.name, false⟩

/-- The last of some entries with a property, by its place in a literal, as they are written in some
order. -/
def lastWhere (p : Slot → Bool) (slots : List Slot) (order : List Nat) : Option Nat :=
  (order.filter fun i => slots[i]?.any p).getLast?

/-- The last of some entries with a property as they stand. -/
def lastOf (p : Slot → Bool) (slots : List Slot) : Option Nat :=
  lastWhere p slots (List.range slots.length)

/-- The order in which entries are written, by their places. -/
def writtenOrder (names : List String) : List Nat :=
  (List.range names.length).mergeSort fun i j => decide (names[i]! ≤ names[j]!)

theorem map_getElem!_range (ls : List Line) : (List.range ls.length).map (ls[·]!) = ls := by
  refine List.ext_getElem (by simp) fun i hi _ => ?_
  rw [List.length_map, List.length_range] at hi
  simp [hi]

/-- Lines sorted by name are those at the places of the written order. -/
theorem map_line_sortEntries (es : List Entry) : (sortEntries es).map Entry.line =
    (writtenOrder ((es.map Entry.line).map (·.name))).map ((es.map Entry.line)[·]!) := by
  have hsort : (sortEntries es).map Entry.line =
      (es.map Entry.line).mergeSort fun a b => decide (a.name ≤ b.name) :=
    List.map_mergeSort fun _ _ _ _ => rfl
  rw [hsort]
  generalize es.map Entry.line = ls
  unfold writtenOrder
  rw [List.map_mergeSort (s := fun a b => decide (a.name ≤ b.name)), List.length_map,
    map_getElem!_range]
  intro i hi j hj
  rw [List.length_map, List.mem_range] at hi hj
  simp [hi, hj]

theorem writtenOrder_perm (names : List String) :
    (writtenOrder names).Perm (List.range names.length) :=
  List.mergeSort_perm _ _

theorem place_le_trans (names : List String) (i j k : Nat)
    (hij : decide (names[i]! ≤ names[j]!) = true) (hjk : decide (names[j]! ≤ names[k]!) = true) :
    decide (names[i]! ≤ names[k]!) = true := by
  simp only [decide_eq_true_eq] at hij hjk ⊢
  exact String.le_trans hij hjk

theorem place_le_total (names : List String) (i j : Nat) :
    (decide (names[i]! ≤ names[j]!) || decide (names[j]! ≤ names[i]!)) = true := by
  simp only [Bool.or_eq_true, decide_eq_true_eq]
  exact String.le_total _ _

theorem writtenOrder_sorted (names : List String) :
    (writtenOrder names).Pairwise fun i j => names[i]! ≤ names[j]! := by
  refine (List.pairwise_mergeSort (place_le_trans names) (place_le_total names) _).imp ?_
  intro i j h
  simpa using h

/-- Entries of one name are written in the order in which they stood. -/
theorem writtenOrder_filter {names : List String} {p : Nat → Bool} {k : String}
    (hp : ∀ i, p i = true → names[i]! = k) :
    (writtenOrder names).filter p = (List.range names.length).filter p := by
  refine Sorting.mergeSort_filter (place_le_trans names) (place_le_total names) _ _ ?_
  intro i j hi hj
  rw [hp i hi, hp j hj]
  exact decide_eq_true (String.le_refl k)

/-- The last item with a property is also the last with a narrower one that it has. -/
theorem getLast?_filter_of_imp {α : Type} {p q : α → Bool} {l : List α} {a : α}
    (h : (l.filter p).getLast? = some a) (ha : q a = true) (hqp : ∀ b, q b = true → p b = true) :
    (l.filter q).getLast? = some a := by
  have hq : (l.filter p).filter q = l.filter q := by
    rw [List.filter_filter]
    refine List.filter_congr fun b _ => ?_
    cases hb : q b with
    | true => simp [hqp b hb]
    | false => simp
  obtain ⟨init, hinit⟩ := List.getLast?_eq_some_iff.mp h
  rw [← hq, hinit, List.filter_append, List.filter_cons_of_pos ha, List.filter_nil,
    List.getLast?_concat]

section

variable {slots : List Slot}

theorem any_getElem?_iff {p : Slot → Bool} {i : Nat} :
    (slots[i]?.any p) = true ↔ ∃ s, slots[i]? = some s ∧ p s = true := by
  rw [Option.any_eq_true]

theorem name_of_getElem? {i : Nat} {s : Slot} (h : slots[i]? = some s) :
    (slots.map (·.name))[i]! = s.name := by
  rw [List.getElem!_eq_getElem?_getD, List.getElem?_map, h]
  rfl

/-- The last entry with a property is also the last one with a narrower property that it has. -/
theorem lastWhere_of_imp {p q : Slot → Bool} (hqp : ∀ s, q s = true → p s = true)
    {order : List Nat} {i : Nat} {s : Slot} (h : lastWhere p slots order = some i)
    (hs : slots[i]? = some s) (hq : q s = true) : lastWhere q slots order = some i := by
  refine getLast?_filter_of_imp h (any_getElem?_iff.mpr ⟨s, hs, hq⟩) ?_
  intro j hj
  obtain ⟨u, hu, hqu⟩ := any_getElem?_iff.mp hj
  exact any_getElem?_iff.mpr ⟨u, hu, hqp u hqu⟩

/-- If an entry that is written has a property, there is a last one that has it. -/
theorem exists_lastWhere {p : Slot → Bool} {order : List Nat} {i : Nat} {s : Slot} (hi : i ∈ order)
    (hs : slots[i]? = some s) (hp : p s = true) :
    ∃ j u, lastWhere p slots order = some j ∧ slots[j]? = some u ∧ p u = true := by
  have hmem : i ∈ order.filter fun i => slots[i]?.any p :=
    List.mem_filter.mpr ⟨hi, any_getElem?_iff.mpr ⟨s, hs, hp⟩⟩
  obtain ⟨j, hj⟩ : ∃ j, lastWhere p slots order = some j :=
    Option.isSome_iff_exists.mp (List.getLast?_isSome.mpr (List.ne_nil_of_mem hmem))
  obtain ⟨u, hu, hpu⟩ := any_getElem?_iff.mp (List.mem_filter.mp (List.mem_of_getLast? hj)).2
  exact ⟨j, u, hj, hu, hpu⟩

/-- The last entry that names a key stays the last one. -/
theorem lastWhere_names (k : String) :
    lastWhere (Slot.names k) slots (writtenOrder (slots.map (·.name))) =
      lastOf (Slot.names k) slots := by
  unfold lastOf lastWhere
  rw [writtenOrder_filter (k := k), List.length_map]
  intro i hi
  obtain ⟨s, hs, hname⟩ := any_getElem?_iff.mp hi
  rw [name_of_getElem? hs]
  simp only [Slot.names, Bool.and_eq_true, beq_iff_eq] at hname
  exact hname.2

/-- No entry with a property has a greater name than the last one with it that is written. -/
theorem name_le_of_lastWhere {p : Slot → Bool} {i j : Nat} {s u : Slot}
    (hj : lastWhere p slots (writtenOrder (slots.map (·.name))) = some j)
    (hu : slots[j]? = some u) (hi : i ∈ writtenOrder (slots.map (·.name)))
    (hs : slots[i]? = some s) (hp : p s = true) : s.name ≤ u.name := by
  obtain ⟨init, hinit⟩ := List.getLast?_eq_some_iff.mp hj
  have hsorted := (writtenOrder_sorted (slots.map (·.name))).filter fun i => slots[i]?.any p
  have hwritten : i ∈ (writtenOrder (slots.map (·.name))).filter fun i => slots[i]?.any p :=
    List.mem_filter.mpr ⟨hi, any_getElem?_iff.mpr ⟨s, hs, hp⟩⟩
  rw [hinit] at hsorted hwritten
  rw [← name_of_getElem? hs, ← name_of_getElem? hu]
  rcases List.mem_append.mp hwritten with hmem | hmem
  · exact (List.pairwise_append.mp hsorted).2.2 i hmem j List.mem_cons_self
  · obtain rfl := List.mem_singleton.mp hmem
    exact String.le_refl _

variable (hspread : ∀ s ∈ slots, s.isSpread = true → s.name = "")

include hspread

/-- Entries that can define the empty key all have no name, so they keep their order. -/
theorem lastWhere_canDefine_empty :
    lastWhere (Slot.canDefine "") slots (writtenOrder (slots.map (·.name))) =
      lastOf (Slot.canDefine "") slots := by
  unfold lastOf lastWhere
  rw [writtenOrder_filter (k := ""), List.length_map]
  intro i hi
  obtain ⟨s, hs, hdefines⟩ := any_getElem?_iff.mp hi
  rw [name_of_getElem? hs]
  simp only [Slot.canDefine, Slot.names, Bool.or_eq_true, Bool.and_eq_true, beq_iff_eq] at hdefines
  rcases hdefines with hs' | ⟨-, hname⟩
  · exact hspread s (List.mem_of_getElem? hs) hs'
  · exact hname

/-- Any other key that an entry names is defined last by an entry that names it. -/
theorem lastWhere_canDefine {k : String} (hk : k ≠ "") (hnamed : ∃ s ∈ slots, s.names k = true) :
    lastWhere (Slot.canDefine k) slots (writtenOrder (slots.map (·.name))) =
      lastOf (Slot.names k) slots := by
  rw [← lastWhere_names k]
  obtain ⟨s, hs, hname⟩ := hnamed
  obtain ⟨i, hi⟩ := List.mem_iff_getElem?.mp hs
  have hlt : i < slots.length := (List.getElem?_eq_some_iff.mp hi).1
  have hi' : i ∈ writtenOrder (slots.map (·.name)) :=
    (writtenOrder_perm _).mem_iff.mpr (by simpa using hlt)
  have hdefinesKey := Slot.canDefine_of_names hname
  obtain ⟨j, u, hj, hu, hdefines⟩ := exists_lastWhere hi' hi hdefinesKey
  rw [hj]
  have hle : s.name ≤ u.name := name_le_of_lastWhere hj hu hi' hi hdefinesKey
  -- A spread element at the end would have a name that is not below the key.
  have hnames : u.names k = true := by
    simp only [Slot.canDefine, Bool.or_eq_true] at hdefines
    refine hdefines.resolve_left fun hu' => hk ?_
    simp only [Slot.names, Bool.and_eq_true, beq_iff_eq] at hname
    rw [hname.2, hspread u (List.mem_of_getElem? hu) hu'] at hle
    exact String.le_antisymm hle (String.not_lt.mp (List.not_lt_nil k.toList))
  exact (lastWhere_of_imp (fun _ => Slot.canDefine_of_names) hj hu hnames).symm

end

-- A spread element that overrides `viewer` is overtaken by it once the entries are sorted.
example :
    let slots : List Slot := [⟨"viewer", false⟩, ⟨"", true⟩, ⟨"account", false⟩]
    lastOf (Slot.canDefine "viewer") slots = some 1 ∧
      lastWhere (Slot.canDefine "viewer") slots (writtenOrder (slots.map (·.name))) = some 0 :=
  ⟨by decide, (lastWhere_canDefine (by decide) (by decide) (by decide)).trans (by decide)⟩

theorem slot_of_spread {source : List Char} {element : Node}
    (h : (element.slot source).isSpread = true) : (element.slot source).name = "" := by
  have hkind : element.kind = "spread_element" := by simpa [Node.slot] using h
  simp [Node.slot, Node.name, Node.key?, hkind]

/-- What is written has the names of the elements that were read and of the stubs that are added. -/
theorem lines_names {source : List Char} {object : Node} {b : Binding}
    (h : b.object = Reading.objectLiteral source object) (missing : List Stub) :
    (object.slots source ++ missing.map stubSlot).map (·.name) =
      (b.lines source missing).map (·.name) := by
  have hmarks := congrArg (List.map Prod.fst) (objectLiteral_marks source object)
  rw [← h, List.map_map, List.map_map] at hmarks
  rw [Node.slots, Binding.lines, List.map_append, List.map_append, List.map_map, List.map_map,
    List.map_map, List.map_map]
  exact congrArg₂ (· ++ ·) hmarks.symm rfl

/-- No stub is added for a name that a property has. -/
theorem Plan.name_notMem_of_missing {m : Outline} {b : Binding} (hb : b ∈ m.binding) {u : Update}
    {s : Stub} (hs : s ∈ (Plan.compute m u).missingStubs) :
    s.name ∉ b.object.properties.map (·.name) := by
  rw [Plan.compute, Option.mem_def.mp hb] at hs
  exact Plan.name_notMem_of_mem_unique hs

/-- A stub of another name defines no key but its own. -/
theorem stubSlot_of_ne {s : Stub} {k : String} (h : s.name ≠ k) :
    (stubSlot s).names k = false ∧ (stubSlot s).canDefine k = false := by
  simp [stubSlot, Slot.names, Slot.canDefine, h]

/-- Entries that cannot define a key do not matter at the end of a literal. -/
theorem lastOf_append {p : Slot → Bool} {slots more : List Slot}
    (h : ∀ s ∈ more, p s = false) :
    lastOf p (slots ++ more) = lastOf p slots := by
  unfold lastOf lastWhere
  rw [List.length_append, List.range_add, List.filter_append]
  have hnone : ((List.range more.length).map (slots.length + ·)).filter
      (fun i => (slots ++ more)[i]?.any p) = [] := by
    refine List.filter_eq_nil_iff.mpr ?_
    intro i hi
    obtain ⟨j, -, rfl⟩ := List.mem_map.mp hi
    rw [List.getElem?_append_right (Nat.le_add_right _ _), Nat.add_sub_cancel_left]
    cases hj : more[j]? with
    | none => simp
    | some s => simp [h s (List.mem_of_getElem? hj)]
  rw [hnone, List.append_nil]
  congr 1
  refine List.filter_congr fun i hi => ?_
  rw [List.getElem?_append_left (List.mem_range.mp hi)]

/-- How the entries of a literal and the stubs that are added to it are written in an order, and
which of them come last. -/
structure KeepsLast (source : List Char) (object : Node) (b : Binding) (missing : List Stub)
    (order : List Nat) : Prop where
  /-- Each line is written once. -/
  perm : order.Perm (List.range (b.lines source missing).length)
  written : rebuilt source b missing = b.textOf source (order.map ((b.lines source missing)[·]!))
  /-- The lines are those of the elements and then those of the stubs. -/
  names : (object.slots source ++ missing.map stubSlot).map (·.name) =
    (b.lines source missing).map (·.name)
  /-- The last entry that names a key is the same one as before. -/
  named : ∀ k, (∃ s ∈ object.slots source, s.names k = true) →
    lastWhere (Slot.names k) (object.slots source ++ missing.map stubSlot) order =
      lastOf (Slot.names k) (object.slots source)
  /-- The last entry that can define a key is the same one as before exactly where it is no spread
  element; the empty key is not affected, since it sorts like a spread element. -/
  decided : ∀ k, (∃ s ∈ object.slots source, s.names k = true) →
    (lastWhere (Slot.canDefine k) (object.slots source ++ missing.map stubSlot) order =
        lastOf (Slot.canDefine k) (object.slots source) ↔
      k = "" ∨ ∃ i s, lastOf (Slot.canDefine k) (object.slots source) = some i ∧
        (object.slots source)[i]? = some s ∧ s.isSpread = false)

/-- Entries that name a key have a last one. -/
theorem exists_lastOf_names {slots : List Slot} {k : String}
    (h : ∃ s ∈ slots, s.names k = true) :
    ∃ i s, lastOf (Slot.names k) slots = some i ∧ slots[i]? = some s ∧ s.names k = true := by
  obtain ⟨s, hs, hk⟩ := h
  obtain ⟨i, hi⟩ := List.mem_iff_getElem?.mp hs
  have hlt : i < slots.length := (List.getElem?_eq_some_iff.mp hi).1
  exact exists_lastWhere (List.mem_range.mpr hlt) hi hk

/-- A key other than the empty one is decided by the last entry that names it, whatever spread
elements come after it. -/
theorem lastWhere_canDefine_eq_iff {slots more : List Slot} {k : String}
    (hspread : ∀ s ∈ slots ++ more, s.isSpread = true → s.name = "")
    (hmore : ∀ s ∈ more, s.names k = false ∧ s.canDefine k = false)
    (hnamed : ∃ s ∈ slots, s.names k = true) :
    lastWhere (Slot.canDefine k) (slots ++ more) (writtenOrder ((slots ++ more).map (·.name))) =
        lastOf (Slot.canDefine k) slots ↔
      k = "" ∨ ∃ i s, lastOf (Slot.canDefine k) slots = some i ∧ slots[i]? = some s ∧
        s.isSpread = false := by
  by_cases hk : k = ""
  · subst hk
    rw [lastWhere_canDefine_empty hspread, lastOf_append fun s hs => (hmore s hs).2]
    simp
  · obtain ⟨t, ht, htk⟩ := hnamed
    rw [lastWhere_canDefine hspread hk ⟨t, List.mem_append_left more ht, htk⟩,
      lastOf_append fun s hs => (hmore s hs).1, or_iff_right hk]
    obtain ⟨i, s, hi, hs, hsk⟩ := exists_lastOf_names ⟨t, ht, htk⟩
    constructor
    · intro h
      have hno : s.isSpread = false := by simpa using (Bool.and_eq_true_iff.mp hsk).1
      exact ⟨i, s, h ▸ hi, hs, hno⟩
    · rintro ⟨j, u, hj, hu, hno⟩
      have hdefines := (List.mem_filter.mp (List.mem_of_getLast? hj)).2
      have huk : u.names k = true := by
        rw [hu, Option.any_some, Slot.canDefine, hno, Bool.false_or] at hdefines
        exact hdefines
      rw [hj]
      exact lastWhere_of_imp (fun _ => Slot.canDefine_of_names) hj hu huk

/-- A literal is written anew with its entries and the missing stubs in one order. The last entry
that names a key is the same one as before, and the last one that can define it is so too unless
that was a spread element. -/
theorem rebuilt_keeps_last [Parser] {source : List Char} {m : Outline} {b : Binding}
    (hread : read source = .ok m) (hb : b ∈ m.binding) (u : Update) :
    ∃ object, (Parser.root source).Contains object ∧ object.kind = "object" ∧
      b.object = Reading.objectLiteral source object ∧ ∃ order,
        KeepsLast source object b (Plan.compute m u).missingStubs order := by
  obtain ⟨object, hcontains, hkind, hobject⟩ := read_object hread hb
  have hfree : ∀ s ∈ (Plan.compute m u).missingStubs,
      s.name ∉ (object.slots source).map (·.name) := by
    intro s hs
    have hnames := congrArg (List.map Prod.fst) (objectLiteral_marks source object)
    rw [← hobject, List.map_map, List.map_map] at hnames
    have hname := Plan.name_notMem_of_missing hb hs
    rw [Node.slots, List.map_map]
    exact fun hmem => hname (hnames ▸ hmem)
  generalize (Plan.compute m u).missingStubs = missing at hfree ⊢
  -- The key is taken, so no stub is added for it.
  have hstubs : ∀ k, (∃ s ∈ object.slots source, s.names k = true) →
      ∀ s ∈ missing.map stubSlot, s.names k = false ∧ s.canDefine k = false := by
    rintro k ⟨s, hs, hsk⟩ t ht
    obtain ⟨stub, hstub, rfl⟩ := List.mem_map.mp ht
    refine stubSlot_of_ne ?_
    rintro rfl
    simp only [Slot.names, Bool.and_eq_true, beq_iff_eq] at hsk
    exact hfree stub hstub (List.mem_map.mpr ⟨s, hs, hsk.2⟩)
  have hspread : ∀ s ∈ object.slots source ++ missing.map stubSlot,
      s.isSpread = true → s.name = "" := by
    intro s hs hspread
    rcases List.mem_append.mp hs with hs | hs
    · obtain ⟨e, -, rfl⟩ := List.mem_map.mp hs
      exact slot_of_spread hspread
    · obtain ⟨stub, -, rfl⟩ := List.mem_map.mp hs
      cases hspread
  have hnames := lines_names hobject missing
  refine ⟨object, hcontains, hkind, hobject,
    writtenOrder ((object.slots source ++ missing.map stubSlot).map (·.name)), ?_, ?_, hnames,
    fun k hk => ?_, fun k hk => lastWhere_canDefine_eq_iff hspread (hstubs k hk) hk⟩
  · have hperm := writtenOrder_perm ((b.lines source missing).map (·.name))
    rwa [List.length_map, ← hnames] at hperm
  · rw [hnames, rebuilt_eq, map_line_sortEntries, map_line_entries]
  · rw [lastWhere_names, lastOf_append fun s hs => (hstubs k hk s hs).1]

/-- An accessor, a spread element and a name that is repeated after it, out of order. -/
theorem rebuilt_keeps_last_repeated :
    let source := "let resolvers = \x7b b, ...s, get a() \x7b\x7d, b \x7d".toList
    ∃ m, read source = .ok m ∧ ∃ b ∈ m.binding, ∃ object,
      (Parser.root source).Contains object ∧
      b.object = Reading.objectLiteral source object ∧
      (object.slots source).map (·.name) = ["b", "", "a", "b"] ∧ ∃ order,
        KeepsLast source object b [⟨"Query", "c"⟩] order := by
  intro source
  let b : Binding := ⟨"", 13, ⟨[⟨"b", ⟨18, 19⟩, none⟩, ⟨"", ⟨21, 25⟩, none⟩, ⟨"a", ⟨27, 37⟩, none⟩,
    ⟨"b", ⟨39, 40⟩, none⟩], none, ⟨16, 42⟩, none⟩, none⟩
  have hread : read source = .ok ⟨true, [], some b⟩ := by
    have hsome : (read source).toOption = some ⟨true, [], some b⟩ := by decide +kernel
    cases hm : read source with
    | error e => simp [hm, Except.toOption] at hsome
    | ok m => simpa [hm, Except.toOption] using hsome
  obtain ⟨object, hcontains, -, hobject, order, hkeeps⟩ := rebuilt_keeps_last hread rfl
    ⟨"q", ⟨"q.ts"⟩, [⟨"Query", "c"⟩], "QueryResolvers"⟩
  have hnames := hkeeps.names
  refine ⟨_, hread, b, rfl, object, hcontains, hobject, ?_, order, hkeeps⟩
  rw [List.map_append] at hnames
  exact List.append_cancel_right hnames

end TypeLoom.ResolverModule
