import TypeLoom.Files.Access

/-!
# A tree of files in memory

A file system as a value: what stands at every place, and the working directory from which relative
paths start. A place is the list of names from the root down to it, and paths are resolved to
places the way an operating system does it: every step but the last needs a directory, `..` leads
to the directory above, and links are followed, though not without end.
-/

namespace TypeLoom.Files

abbrev Place := List String

inductive Entry where
  | file (content : List UInt8)
  | directory
  | link (target : Path)
  deriving DecidableEq, Inhabited, Repr

structure Tree where
  home : Place
  entries : List (Place × Entry)
  deriving Inhabited, Repr

/-- Where a path leads. A place where nothing stands is in a directory that exists. -/
inductive Destination where
  | present (place : Place) (entry : Entry)
  | absent (place : Place)
  deriving DecidableEq, Inhabited, Repr

namespace Tree

/-- A tree with nothing in it but the working directory. -/
def bare (home : Place) : Tree :=
  ⟨home, (List.range home.length).map fun n => (home.take (n + 1), .directory)⟩

/-- What stands at a place. The root is always a directory. -/
def at? (t : Tree) (place : Place) : Option Entry :=
  if place.isEmpty then some .directory else t.entries.lookup place

def put (t : Tree) (place : Place) (e : Entry) : Tree :=
  { t with entries := (place, e) :: t.entries.filter (·.1 != place) }

/-- Putting something at a place changes what stands there, and nothing elsewhere. -/
theorem at?_put (t : Tree) {place : Place} (hp : place ≠ []) (e : Entry) (q : Place) :
    (t.put place e).at? q = if q = place then some e else t.at? q := by
  have hrest : q ≠ place → (t.entries.filter (·.1 != place)).lookup q = t.entries.lookup q := by
    intro hq
    induction t.entries with
    | nil => rfl
    | cons x xs ih =>
      obtain ⟨r, f⟩ := x
      by_cases hr : r = place
      · simp [List.lookup_cons, hr, ih, beq_false_of_ne hq]
      · simp [List.lookup_cons, hr, ih]
  by_cases hq : q = place
  · subst hq
    simp [put, at?, hp]
  · cases q with
    | nil => simp [at?, hq]
    | cons n ns =>
      have hne : ((n :: ns) == place) = false := beq_false_of_ne hq
      simpa [put, at?, hq, hne, List.lookup_cons] using hrest hq

/-- Where the steps of a path start that is met in a directory. -/
def start (dir : Place) (p : Path) : Place := if p.isAbsolute then [] else dir

def steps (p : Path) : List String := (Text.splitAt (· == '/') p.raw.toList).map String.ofList

/-- Takes steps from a directory. `hop` goes on from there with the steps of a link; a link at the
end is only followed if `follow` holds. -/
def advance (t : Tree) (follow : Bool) (hop : Place → List String → Except OsError Destination) :
    Place → List String → Except OsError Destination
  | dir, [] => .ok (.present dir .directory)
  | dir, step :: rest =>
    if Path.isIdle step then advance t follow hop dir rest
    else if step == ".." then advance t follow hop dir.dropLast rest
    else
      let place := dir ++ [step]
      match t.at? place with
      | none => if rest.isEmpty then .ok (.absent place) else .error .notFound
      | some .directory => advance t follow hop place rest
      | some (.file content) =>
        if rest.isEmpty then .ok (.present place (.file content)) else .error .notADirectory
      | some (.link target) =>
        if rest.isEmpty && !follow then .ok (.present place (.link target))
        else hop (start dir target) (steps target ++ rest)

/-- Takes steps and follows fewer links than a bound. -/
def advanceWithin (t : Tree) (follow : Bool) :
    Nat → Place → List String → Except OsError Destination
  | 0, _, _ => .error .tooManyLinks
  | n + 1, dir, steps => t.advance follow (advanceWithin t follow n) dir steps

/-- How many links are followed in one path. -/
def maxLinks : Nat := 40

/-- Resolves a path. -/
def locate (t : Tree) (follow : Bool) (p : Path) : Except OsError Destination :=
  if p.raw.isEmpty then .error .notFound
  else t.advanceWithin follow (maxLinks + 1) (start t.home p) (steps p)

def kind (t : Tree) (p : Path) : Except OsError Kind :=
  match t.locate true p with
  | .ok (.present _ (.file _)) => .ok .file
  | .ok (.present _ .directory) => .ok .directory
  | .ok (.present _ (.link _)) => .ok .other
  | .ok (.absent _) => .error .notFound
  | .error e => .error e

def canonical (t : Tree) (p : Path) : Except OsError Path :=
  match t.locate true p with
  | .ok (.present place _) => .ok ⟨"/" ++ "/".intercalate place⟩
  | .ok (.absent _) => .error .notFound
  | .error e => .error e

/-- The names of what stands directly in a directory. -/
def namesIn (t : Tree) (dir : Place) : List String :=
  t.entries.filterMap fun (place, _) =>
    match place.getLast? with
    | some name => if place.dropLast == dir then some name else none
    | none => none

def names (t : Tree) (p : Path) : Except OsError (List String) :=
  match t.locate true p with
  | .ok (.present place .directory) => .ok (t.namesIn place)
  | .ok (.present _ _) => .error .notADirectory
  | .ok (.absent _) => .error .notFound
  | .error e => .error e

def read (t : Tree) (p : Path) : Except OsError (List UInt8) :=
  match t.locate true p with
  | .ok (.present _ (.file content)) => .ok content
  | .ok (.present _ _) => .error .isADirectory
  | .ok (.absent _) => .error .notFound
  | .error e => .error e

def write (t : Tree) (p : Path) (content : List UInt8) : Except OsError Unit × Tree :=
  match t.locate true p with
  | .ok (.present place (.file _)) => (.ok (), t.put place (.file content))
  | .ok (.present _ _) => (.error .isADirectory, t)
  | .ok (.absent place) => (.ok (), t.put place (.file content))
  | .error e => (.error e, t)

/-- The path without separators at its end. -/
def trimmedPath (p : Path) : Path :=
  ⟨String.ofList (p.raw.toList.reverse.dropWhile (· == '/')).reverse⟩

/-- Creates one directory, where nothing may stand. -/
def createDirectory (t : Tree) (p : Path) : Except OsError Unit × Tree :=
  match t.locate false (trimmedPath p) with
  | .ok (.present _ _) => (.error .alreadyExists, t)
  | .ok (.absent place) => (.ok (), t.put place .directory)
  | .error e => (.error e, t)

/-- Puts a link where nothing stands. -/
def link (t : Tree) (p target : Path) : Except OsError Unit × Tree :=
  match t.locate false p with
  | .ok (.present _ _) => (.error .alreadyExists, t)
  | .ok (.absent place) => (.ok (), t.put place (.link target))
  | .error e => (.error e, t)

/-- Removes what a path leads to, with everything below it. -/
def remove (t : Tree) (p : Path) : Except OsError Unit × Tree :=
  match t.locate false p with
  | .ok (.present place _) =>
    (.ok (), { t with entries := t.entries.filter fun e => !place.isPrefixOf e.1 })
  | .ok (.absent _) => (.error .notFound, t)
  | .error e => (.error e, t)

/-- The files below the working directory, by ascending path. -/
def files (t : Tree) : List (Path × List UInt8) :=
  let all := t.entries.filterMap fun
    | (place, .file content) =>
      if t.home.isPrefixOf place then
        some ((⟨"/".intercalate (place.drop t.home.length)⟩ : Path), content)
      else none
    | _ => none
  all.mergeSort fun a b => decide (a.1.raw ≤ b.1.raw)

/-- The files that are not in an earlier tree, or not with their content. -/
def changes (before after : Tree) : List (Path × List UInt8) :=
  let old := before.files
  after.files.filter fun f => !old.contains f

end Tree

instance : FileAccess (StateM Tree) where
  kind p t := (t.kind p, t)
  canonical p t := (t.canonical p, t)
  names p t := (t.names p, t)
  read p t := (t.read p, t)
  createDirectory p t := t.createDirectory p
  write p content t := t.write p content

end TypeLoom.Files
