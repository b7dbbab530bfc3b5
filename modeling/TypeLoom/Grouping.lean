/-!
# Groups in order of first appearance

Values under keys: keys stand in the order in which they first appeared, and the values of a key in
the order in which they were added. `get` of a key without values is the empty list.
-/

namespace TypeLoom

abbrev Grouping (κ α : Type) := List (κ × List α)

namespace Grouping

variable {κ α : Type}

def empty : Grouping κ α := []

/-- Adds values to a key; a key that is new goes to the end. -/
def addAll [BEq κ] (k : κ) (xs : List α) : Grouping κ α → Grouping κ α
  | [] => [(k, xs)]
  | (k', ys) :: rest => if k' == k then (k', ys ++ xs) :: rest else (k', ys) :: addAll k xs rest

def add [BEq κ] (k : κ) (x : α) (g : Grouping κ α) : Grouping κ α := addAll k [x] g

def get [BEq κ] (g : Grouping κ α) (k : κ) : List α := (g.lookup k).getD []

def hasKey [BEq κ] (g : Grouping κ α) (k : κ) : Bool := g.any (·.1 == k)

def keys (g : Grouping κ α) : List κ := g.map (·.1)

/-- All values, group after group. -/
def values (g : Grouping κ α) : List α := g.flatMap (·.2)

/-- The values of a list by their keys. -/
def ofList [BEq κ] (key : α → κ) (xs : List α) : Grouping κ α :=
  xs.foldl (fun g x => add (key x) x g) empty

/-- Adding to a key extends that key's values and leaves all others alone. -/
theorem get_addAll [BEq κ] [LawfulBEq κ] (k k' : κ) (xs : List α) (g : Grouping κ α) :
    get (addAll k xs g) k' = if k' == k then get g k' ++ xs else get g k' := by
  induction g with
  | nil =>
    by_cases h : k' == k
    · simp [addAll, get, List.lookup_cons, h]
    · simp [addAll, get, List.lookup_cons, h]
  | cons e rest ih =>
    obtain ⟨j, ys⟩ := e
    by_cases hj : j == k
    · have hj' : j = k := LawfulBEq.eq_of_beq hj
      subst hj'
      by_cases hk : k' == j
      · simp [addAll, get, List.lookup_cons, hk]
      · simp [addAll, get, List.lookup_cons, hk]
    · by_cases hk : k' == j
      · have hk' : k' = j := LawfulBEq.eq_of_beq hk
        subst hk'
        simp [addAll, get, hj]
      · simpa [addAll, get, List.lookup_cons, hj, hk] using ih

theorem get_add [BEq κ] [LawfulBEq κ] (k k' : κ) (x : α) (g : Grouping κ α) :
    get (add k x g) k' = if k' == k then get g k' ++ [x] else get g k' :=
  get_addAll k k' [x] g

end Grouping

end TypeLoom
