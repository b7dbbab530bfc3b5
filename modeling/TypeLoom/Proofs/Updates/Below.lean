import TypeLoom.Proofs.Emission.Identifiers
import TypeLoom.Proofs.Path.Lexical
import TypeLoom.Proofs.Path.Modules
import TypeLoom.Proofs.Updates.Groups

/-!
# Resolver modules below their directory

A module is placed by joining the directory of resolver modules and a path that a directive or the
place of the schema file asks for. What is cut from the text of a directive leaves a relative path
with no `..` that the directive does not have itself. Main statement: a module is under the
directory if no `..` remains of the path that was asked for, and modules that were asked for without
any `..` are different paths after resolving, too. With a `..` neither holds.
-/

namespace TypeLoom.ResolverModule

open Schema Collected Generation TypeLoom.Path

section

variable (c : Context) (paths : OutputPaths) (r : ResolverField)

/-- What is asked for, as a path from the directory of resolver modules. -/
def askedPath : Path :=
  match requestOf c r with
  | some i => ⟨moduleStem i paths.resolversImport ++ ".ts"⟩
  | none =>
    let dir := (paths.relative r.field.file).parent?.getD ⟨""⟩
    let word := fileWord r.field.file
    (if word == r.field.parent then dir else dir.join ⟨word⟩).join ⟨r.field.parent ++ ".ts"⟩

end

variable {c : Context} {paths : OutputPaths} {r : ResolverField}

theorem askedPath_some {i : String} (h : requestOf c r = some i) :
    askedPath c paths r = ⟨moduleStem i paths.resolversImport ++ ".ts"⟩ := by
  rw [askedPath, h]

/-- Without a directive the place below the schema root is asked for. -/
theorem askedPath_none (h : requestOf c r = none) :
    askedPath c paths r =
      (if fileWord r.field.file == r.field.parent then
        (paths.relative r.field.file).parent?.getD ⟨""⟩
      else ((paths.relative r.field.file).parent?.getD ⟨""⟩).join ⟨fileWord r.field.file⟩).join
        ⟨r.field.parent ++ ".ts"⟩ := by
  rw [askedPath, h]

theorem moduleOf?_eq_join :
    moduleOf? c paths r = paths.resolversOutput.map (·.join (askedPath c paths r)) := by
  rw [moduleOf?, OutputPaths.resolverModule?, askedPath]
  cases requestOf c r with
  | some i => rfl
  | none =>
    refine congrArg (paths.resolversOutput.map ·) (funext fun output => ?_)
    dsimp only
    split <;> simp only [join_assoc]

/-! ### The last step -/

theorem getLast?_askedPath (h : (askedPath c paths r).isAbsolute = false) :
    ∃ n, (askedPath c paths r).stepComponents.getLast? = some (.name n) := by
  have hlast (s : String) : ∃ n, (stepComponents ⟨s ++ ".ts"⟩).getLast? = some (.name n) := by
    obtain ⟨initial, piece, -, hsteps⟩ := stepComponents_append_ts s
    exact ⟨piece ++ ".ts", by rw [hsteps, List.getLast?_concat]⟩
  cases hrequest : requestOf c r with
  | some i =>
    rw [askedPath_some hrequest]
    exact hlast _
  | none =>
    rw [askedPath_none hrequest, isAbsolute_join, Bool.or_eq_false_iff] at h
    obtain ⟨n, hn⟩ := hlast r.field.parent
    refine ⟨n, ?_⟩
    rw [askedPath_none hrequest, stepComponents_join _ h.2, List.getLast?_append, hn]
    rfl

/-! ### What a directive asks for -/

/-- Whether a text has a `..` between its separators, the text after the last one apart. -/
def Ascends (cs : List Char) : Prop := ['.', '.'] ∈ (Text.splitAt (· == '/') cs).dropLast

theorem ascends_iff {s : String} : Ascends s.toList ↔ ".." ∈ (pieces ⟨s⟩).dropLast := by
  rw [pieces, ← List.map_dropLast, List.mem_map]
  constructor
  · intro h
    exact ⟨_, h, rfl⟩
  · rintro ⟨piece, hpiece, hup⟩
    obtain rfl : piece = ['.', '.'] := by
      rw [← String.toList_inj, String.toList_ofList] at hup
      exact hup
    exact hpiece

theorem dropLast_splitAt_append (ds cs : List Char) :
    (Text.splitAt (· == '/') (ds ++ '/' :: cs)).dropLast =
      Text.splitAt (· == '/') ds ++ (Text.splitAt (· == '/') cs).dropLast := by
  rw [Text.splitAt_append_cons (by simp), List.dropLast_append_of_ne_nil (Text.splitAt_ne_nil _ _)]

/-- What stands after a separator ascends only if all of the text does. -/
theorem Ascends.append {cs : List Char} (h : Ascends cs) (ds : List Char) :
    Ascends (ds ++ '/' :: cs) := by
  rw [Ascends, dropLast_splitAt_append]
  exact List.mem_append_right _ h

theorem ascends_cons_separator {cs : List Char} : Ascends ('/' :: cs) ↔ Ascends cs := by
  have hsplit := dropLast_splitAt_append [] cs
  rw [List.nil_append] at hsplit
  rw [Ascends, hsplit, Ascends]
  simp [Text.splitAt]

theorem Ascends.of_dropRepeated {n : Nat} {cs : List Char}
    (h : Ascends (dropRepeated ['.', '/'] n cs)) : Ascends cs := by
  induction n generalizing cs with
  | zero => exact h
  | succ n ih =>
    rw [dropRepeated] at h
    split at h
    · rename_i hlead
      obtain ⟨rest, rfl⟩ := List.isPrefixOf_iff_prefix.mp hlead
      exact (ih h).append ['.']
    · exact h

theorem Ascends.of_dropWhile {cs : List Char} (h : Ascends (cs.dropWhile (· == '/'))) :
    Ascends cs := by
  induction cs with
  | nil => exact h
  | cons d cs ih =>
    rw [List.dropWhile_cons] at h
    split at h
    · rename_i hd
      obtain rfl : d = '/' := by simpa using hd
      exact ascends_cons_separator.mpr (ih h)
    · exact h

/-- What follows a leading text is cut at a separator. -/
theorem Ascends.of_drop {k : Nat} {cs : List Char} (hhead : (cs.drop k).head? = some '/')
    (h : Ascends (cs.drop k)) : Ascends cs := by
  obtain ⟨rest, hrest⟩ := List.head?_eq_some_iff.mp hhead
  rw [hrest, ascends_cons_separator] at h
  rw [← List.take_append_drop k cs, hrest]
  exact h.append _

theorem dropEnding_cases (ending cs : List Char) :
    dropEnding ending cs = cs ∨ cs = dropEnding ending cs ++ ending := by
  unfold dropEnding
  split
  · rename_i hending
    obtain ⟨front, rfl⟩ := List.isSuffixOf_iff_suffix.mp hending
    exact .inr (by simp)
  · exact .inl rfl

/-- What remains of an import path is relative, and ascends only if the import path does. -/
theorem moduleStem_spec (i : String) (lead : Option String) :
    (moduleStem i lead).toList.head? ≠ some '/' ∧
      (Ascends (moduleStem i lead).toList → Ascends i.toList) := by
  unfold moduleStem
  extract_lets cs inside rest
  have hinside : Ascends (inside.getD cs) → Ascends cs := by
    cases hlead : lead with
    | none => simp [inside, hlead]
    | some l =>
      simp only [inside, hlead, Option.bind_some]
      split
      · rename_i hcut
        intro h
        exact Ascends.of_drop (by simpa using (Bool.and_eq_true_iff.mp hcut).2) h
      · exact id
  have hrest : Ascends (rest.dropWhile (· == '/')) → Ascends i.toList := fun h =>
    hinside h.of_dropWhile.of_dropRepeated
  have hhead : (rest.dropWhile (· == '/')).head? ≠ some '/' := by
    have hnot := List.head?_dropWhile_not (· == '/') rest
    intro h
    rw [h] at hnot
    exact absurd hnot (by decide)
  rw [String.toList_ofList]
  generalize rest.dropWhile (· == '/') = stem at hrest hhead
  rcases dropEnding_cases ".ts".toList stem with hstem | hstem
  · rw [hstem]
    exact ⟨hhead, hrest⟩
  · generalize dropEnding ".ts".toList stem = front at hstem
    constructor
    · intro h
      refine hhead ?_
      rw [hstem, List.head?_append, h]
      rfl
    · intro h
      refine hrest ?_
      obtain ⟨initial, piece, hfront, happend⟩ := splitAt_append_ts front
      rw [Ascends, hstem, happend, List.dropLast_concat]
      rwa [Ascends, hfront, List.dropLast_concat] at h

theorem isAbsolute_requested {i : String} (h : requestOf c r = some i) :
    (askedPath c paths r).isAbsolute = false := by
  rw [askedPath_some h, isAbsolute, String.toList_append, beq_eq_false_iff_ne]
  intro hhead
  cases hstem : (moduleStem i paths.resolversImport).toList with
  | nil =>
    rw [hstem] at hhead
    exact absurd hhead (by decide)
  | cons d ds =>
    rw [hstem] at hhead
    exact (moduleStem_spec i paths.resolversImport).1 (by rw [hstem]; exact hhead)

/-- Only a `..` of the import path itself is asked for, and the last step never is one. -/
theorem up_notMem_requested {i : String} (h : requestOf c r = some i)
    (hup : ".." ∉ (pieces ⟨i⟩).dropLast) : .up ∉ (askedPath c paths r).components := by
  intro hmem
  rw [askedPath_some h] at hmem
  obtain ⟨initial, piece, hstem, hsteps⟩ :=
    stepComponents_append_ts (moduleStem i paths.resolversImport)
  have hstep : Component.up ∈ stepComponents ⟨moduleStem i paths.resolversImport ++ ".ts"⟩ := by
    simpa using mem_components_cases hmem
  rw [hsteps] at hstep
  have hinitial : ".." ∈ initial := by
    rcases List.mem_append.mp hstep with hstep | hstep
    · obtain ⟨s, hs, hcomponent⟩ := List.mem_map.mp hstep
      unfold stepComponent at hcomponent
      split at hcomponent
      · rename_i hdots
        exact beq_iff_eq.mp hdots ▸ (List.mem_filter.mp hs).1
      · cases hcomponent
    · cases List.mem_singleton.mp hstep
  refine hup (ascends_iff.mp ((moduleStem_spec i paths.resolversImport).2 (ascends_iff.mpr ?_)))
  rwa [hstem, List.dropLast_concat]

/-! ### What the place of a file asks for -/

/-- Whether a file below a root is reached by names alone. Elsewhere, a file is placed by its
name. -/
def NamesFollow (root file : Path) : Prop :=
  root.components <+: file.components →
    ∀ c ∈ file.components.drop root.components.length, ∃ n, c = .name n

theorem plain_relative {file : Path} (h : NamesFollow paths.schemaRoot file) :
    Plain (paths.relative file) := by
  by_cases hbase : paths.schemaRoot.components <+: file.components
  · obtain ⟨rest, hstrip, hrest⟩ := denotes_stripBase? hbase
    rw [OutputPaths.relative, hstrip]
    dsimp only
    split
    · exact plain_fileName file
    · intro comp hcomp
      exact h hbase comp (hrest.components ▸ hcomp)
  · rw [OutputPaths.relative, stripBase?_eq_none hbase]
    exact plain_fileName file

theorem plain_fileWord (file : Path) : Plain ⟨fileWord file⟩ := by
  have hword := isWordChar_fileWord file
  have hdot {s : String} (hs : '.' ∈ s.toList) : fileWord file ≠ s := by
    rintro rfl
    exact absurd (hword '.' hs) (by decide)
  refine plain_step (fun hmem => ?_) (hdot (by decide)) (hdot (by decide))
  exact absurd (hword '/' hmem) (by decide)

/-- Without a directive, files below the schema root lead to names alone. -/
theorem plain_askedPath (hrequest : requestOf c r = none)
    (hfile : NamesFollow paths.schemaRoot r.field.file) (hparent : IsStep r.field.parent) :
    Plain (askedPath c paths r) := by
  have hts : Plain ⟨r.field.parent ++ ".ts"⟩ := by
    refine plain_step (fun hmem => ?_) (append_ts_ne _ (by decide)) (append_ts_ne _ (by decide))
    rw [String.toList_append, List.mem_append] at hmem
    exact hmem.elim hparent (by decide)
  rw [askedPath_none hrequest]
  refine Plain.join ?_ hts
  split
  · exact (plain_relative hfile).parent
  · exact (plain_relative hfile).parent.join (plain_fileWord _)

/-! ### All modules -/

/-- A path without `..` that is put after the output directory. Where that directory is the empty
path, nothing stands before the path, and a leading `.` of it counts. -/
structure Straight (output asked : Path) : Prop where
  relative : asked.isAbsolute = false
  level : .up ∉ asked.components
  bare : output.raw = "" → .here ∉ asked.components

variable {output : Path}

namespace Straight

variable {asked other : Path}

theorem of_plain (h : asked.Plain) : Straight output asked :=
  ⟨h.isAbsolute_eq, h.up_notMem, fun _ => h.here_notMem⟩

theorem components_join (h : Straight output asked) :
    (output.join asked).components = output.components ++ asked.stepComponents := by
  by_cases hraw : output.raw = ""
  · obtain rfl : output = ⟨""⟩ := congrArg Path.mk hraw
    rw [empty_join h.relative, components_empty, List.nil_append]
    refine (components_relative h.relative).resolve_right fun hhere => h.bare rfl ?_
    rw [hhere]
    exact List.mem_cons_self
  · exact Path.components_join h.relative hraw

/-- Below one directory, such paths are known from where they lead. -/
theorem components_eq_of_lexical (h : Straight output asked) (h' : Straight output other)
    (hlexical : (output.join asked).lexical = (output.join other).lexical) :
    (output.join asked).components = (output.join other).components := by
  rw [(lexical_join output h.relative (up_notMem_lexical h.level)).2,
    (lexical_join output h'.relative (up_notMem_lexical h'.level)).2,
    lexical_of_up_notMem h.relative h.level,
    lexical_of_up_notMem h'.relative h'.level] at hlexical
  rw [h.components_join, h'.components_join, List.append_cancel_left hlexical]

end Straight

theorem components_of_mem_fieldsOf (houtput : paths.resolversOutput = some output) {m : Path}
    (hr : r ∈ fieldsOf c paths m) :
    m.components = (output.join (askedPath c paths r)).components := by
  have hmodule := (List.mem_filter.mp hr).2
  rw [moduleOf?_eq_join, houtput] at hmodule
  have hsame : (output.join (askedPath c paths r)).same m = true := hmodule
  exact (beq_iff_eq.mp hsame).symm

/-- Where the modules of updates lie, from what their fields ask for. -/
structure LieBelow (c : Context) (paths : OutputPaths) (output : Path) (us : List Update) :
    Prop where
  /-- A directive cannot ask for an absolute path, and a `..` that is asked for is its own. -/
  requested : ∀ r i, requestOf c r = some i → (askedPath c paths r).isAbsolute = false ∧
    (".." ∉ (pieces ⟨i⟩).dropLast → .up ∉ (askedPath c paths r).components)
  /-- Without a directive, no file that names alone lead to below the schema root asks for `..`. -/
  mirrored : ∀ r, requestOf c r = none → NamesFollow paths.schemaRoot r.field.file →
    IsStep r.field.parent → Straight output (askedPath c paths r)
  /-- Where no `..` remains of what any field of a module asks for, the module is under the
  directory. -/
  below : ∀ u ∈ us, ∀ r ∈ fieldsOf c paths u.module, (askedPath c paths r).isAbsolute = false →
    .up ∉ (askedPath c paths r).lexical → u.module.Under output
  /-- Modules that are asked for without a `..` do not meet. -/
  apart : us.Pairwise fun u v => ∀ r ∈ fieldsOf c paths u.module,
    ∀ s ∈ fieldsOf c paths v.module, Straight output (askedPath c paths r) →
      Straight output (askedPath c paths s) → u.module.lexical ≠ v.module.lexical

/-- Modules are under the directory of resolver modules and different from each other, unless a `..`
that was asked for leads elsewhere. -/
theorem updates_lie_below (houtput : paths.resolversOutput = some output) :
    LieBelow c paths output (updates c paths).1 where
  requested r i hrequest := ⟨isAbsolute_requested hrequest, up_notMem_requested hrequest⟩
  mirrored r hrequest hfile hparent := .of_plain (plain_askedPath hrequest hfile hparent)
  below u hu r hr hrelative hup := by
    obtain ⟨n, hlast⟩ := getLast?_askedPath hrelative
    obtain ⟨names, hne, hnames⟩ := under_join output hrelative hlast hup
    exact ⟨names, hne, (lexical_congr (components_of_mem_fieldsOf houtput hr)).trans hnames⟩
  apart := by
    have hnodup := nodup_modulePaths c paths
    rw [modulePaths, List.map_append] at hnodup
    have hapart := List.pairwise_map.mp (List.pairwise_map.mp (List.nodup_append.mp hnodup).1)
    refine hapart.imp fun hne r hr s hs hstraight hstraight' hlexical => hne ?_
    rw [components_of_mem_fieldsOf houtput hr, components_of_mem_fieldsOf houtput hs]
    apply hstraight.components_eq_of_lexical hstraight'
    rwa [← lexical_congr (components_of_mem_fieldsOf houtput hr),
      ← lexical_congr (components_of_mem_fieldsOf houtput hs)]

/-- The documents of a schema: one type asks for a module, the other is placed by its file. -/
def askingFiles (request : String) : List (Path × String) :=
  [(⟨"schema/Query.graphql"⟩,
      "type Query @resolvers(importPath: \"" ++ request ++ "\") \x7b a: Int @resolve \x7d"),
    (⟨"schema/user/User.graphql"⟩, "type User \x7b b: Int @resolve \x7d")]

def askedPaths : OutputPaths :=
  ⟨⟨"schema"⟩, ⟨"out/types"⟩, "app/types", some ⟨"out/resolvers"⟩, some "app/resolvers/"⟩

theorem updates_lie_below_of_two_files :
    ∃ d, (Document.parseAll (askingFiles "app/resolvers//./a/./b.ts")).toOption = some d ∧
      askedPaths.resolversOutput = some ⟨"out/resolvers"⟩ ∧
      (updates (Context.fresh.collectDocument d) askedPaths).1.map (·.module) =
        [⟨"out/resolvers/./a/./b.ts"⟩, ⟨"out/resolvers/user/User.ts"⟩] ∧
      (∀ r ∈ (Context.fresh.collectDocument d).resolvers.values,
        Straight ⟨"out/resolvers"⟩ (askedPath (Context.fresh.collectDocument d) askedPaths r)) ∧
      LieBelow (Context.fresh.collectDocument d) askedPaths ⟨"out/resolvers"⟩
        (updates (Context.fresh.collectDocument d) askedPaths).1 := by
  have hread : ((Document.parseAll (askingFiles "app/resolvers//./a/./b.ts")).toOption.map fun d =>
      ((updates (Context.fresh.collectDocument d) askedPaths).1.map (·.module),
        decide (∀ r ∈ (Context.fresh.collectDocument d).resolvers.values,
          (askedPath (Context.fresh.collectDocument d) askedPaths r).isAbsolute = false ∧
          .up ∉ (askedPath (Context.fresh.collectDocument d) askedPaths r).components))) =
      some ([⟨"out/resolvers/./a/./b.ts"⟩, ⟨"out/resolvers/user/User.ts"⟩], true) := by
    decide +kernel
  obtain ⟨d, hd, hrun⟩ := Option.map_eq_some_iff.mp hread
  obtain ⟨hmodules, hstraight⟩ := Prod.mk.inj hrun
  have hstraight := of_decide_eq_true hstraight
  exact ⟨d, hd, rfl, hmodules,
    fun r hr => ⟨(hstraight r hr).1, (hstraight r hr).2, fun hempty => absurd hempty (by decide)⟩,
    updates_lie_below rfl⟩

/-- What leads up in a request leads out of the directory. -/
example :
    (askedPaths.resolverModule? ⟨"schema/Query.graphql"⟩ "Query" (some "../types/Query")).map
      (·.lexical) = some [.name "out", .name "types", .name "Query.ts"] := by
  decide +kernel

/-- One place has two paths, which is no problem for the updates. -/
example :
    ((Document.parseAll (askingFiles "app/resolvers/user/../user/User")).toOption.map fun d =>
        ((updates (Context.fresh.collectDocument d) askedPaths).1.map (·.module),
          (updates (Context.fresh.collectDocument d) askedPaths).2)) =
        some ([⟨"out/resolvers/user/../user/User.ts"⟩, ⟨"out/resolvers/user/User.ts"⟩], []) ∧
      lexical ⟨"out/resolvers/user/../user/User.ts"⟩ = lexical ⟨"out/resolvers/user/User.ts"⟩ := by
  decide +kernel

end TypeLoom.ResolverModule
