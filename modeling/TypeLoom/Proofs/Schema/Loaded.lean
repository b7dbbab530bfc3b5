import TypeLoom.Proofs.Schema.Names
import TypeLoom.Proofs.Schema.SourceFiles

/-!
# Documents that come from files

A document is made by adding the definitions of files, and by joining others. Of such a document it
is known that every definition has its file among the source files, that these are pairwise
different paths, and that every type it defines or extends has a name. What was read from files is
such a document.
-/

namespace TypeLoom

theorem eq_ok_of_toOption {ε α : Type} {x : Except ε α} {a : α} (h : x.toOption = some a) :
    x = .ok a := by
  cases x with
  | error e => cases h
  | ok b => exact congrArg Except.ok (Option.some.inj h)

end TypeLoom

namespace TypeLoom.Schema.Document

/-- Documents that are joined from others or have the definitions of a file added, the types of
which have names. -/
inductive Loaded : Document → Prop
  | append {d : Document} {file : Path} {defs : List Definition} :
    Loaded d → (∀ x ∈ defs, Reading.WellNamed x) → Loaded (d.append file defs)
  | concat {ds : List Document} : (∀ d ∈ ds, Loaded d) → Loaded (Document.concat ds)

theorem mem_append {d : Document} {file : Path} {defs : List Definition} {x : SourcedDefinition}
    (hx : x ∈ (d.append file defs).definitions) : x ∈ d.definitions ∨ x.definition ∈ defs := by
  unfold append at hx
  split at hx
  · exact Or.inl hx
  · rcases List.mem_append.mp hx with hx | hx
    · exact Or.inl hx
    · obtain ⟨y, hy, rfl⟩ := List.mem_map.mp hx
      exact Or.inr hy

namespace Loaded

variable {d : Document}

theorem indexed (h : d.Loaded) : d.Indexed := by
  induction h with
  | append _ _ ih => exact ih.append _ _
  | concat _ ih => exact concat_induction indexed_empty (fun _ _ => Indexed.union) ih

theorem listed (h : d.Loaded) : d.Listed := h.indexed.toListed

theorem wellNamed (h : d.Loaded) : ∀ x ∈ d.definitions, Reading.WellNamed x.definition := by
  induction h with
  | append _ hnamed ih =>
    intro x hx
    rcases mem_append hx with hx | hx
    · exact ih x hx
    · exact hnamed _ hx
  | concat _ ih =>
    refine concat_induction (P := fun d => ∀ x ∈ d.definitions, Reading.WellNamed x.definition)
      (by simp [empty]) ?_ ih
    intro d e hd he x hx
    rcases List.mem_append.mp hx with hx | hx
    · exact hd x hx
    · exact he x hx

end Loaded

theorem loaded_empty : Loaded empty := by
  have h : Loaded (concat []) := Loaded.concat (by simp)
  exact h

theorem loaded_parse {file : Path} {content : String} {d : Document}
    (h : Document.parse file content = .ok d) : d.Loaded := by
  unfold Document.parse at h
  split at h
  · cases h
    exact loaded_empty
  · split at h
    · rename_i defs hread
      cases h
      exact loaded_empty.append (Reading.read_wellNamed hread)
    · cases h

/-- The document of one file, if it can be read. -/
def parsed (f : Path × String) : Document := (parse f.1 f.2).toOption.getD empty

theorem parsed_of_parse {f : Path × String} {e : Document} (h : parse f.1 f.2 = .ok e) :
    parsed f = e := by
  rw [parsed, h]
  rfl

/-- Whether a file can be read. -/
def Readable (f : Path × String) : Prop := ∃ e, parse f.1 f.2 = .ok e

theorem mapM_parse {files : List (Path × String)} {ds : List Document} :
    files.mapM (fun f => parse f.1 f.2) = .ok ds ↔
      (∀ f ∈ files, Readable f) ∧ ds = files.map parsed := by
  induction files generalizing ds with
  | nil => simp [pure, Except.pure, eq_comm]
  | cons f files ih =>
    rw [List.mapM_cons, List.forall_mem_cons, List.map_cons]
    cases hf : parse f.1 f.2 with
    | error p =>
      have hnone : ¬Readable f := by simp [Readable, hf]
      simp [bind, Except.bind, hnone]
    | ok e =>
      have hsome : Readable f := ⟨e, hf⟩
      rw [parsed_of_parse hf]
      cases hrest : files.mapM fun f => parse f.1 f.2 with
      | error p =>
        have hnone : ¬∀ f ∈ files, Readable f := fun hall => by
          have hok := ih.mpr ⟨hall, rfl⟩
          rw [hrest] at hok
          cases hok
        simp only [bind, Except.bind, hnone, and_false, false_and, iff_false]
        nofun
      | ok es =>
        obtain ⟨hall, rfl⟩ := ih.mp hrest
        simp only [bind, Except.bind, pure, Except.pure, Except.ok.injEq, hsome, true_and]
        exact ⟨fun h => ⟨hall, h.symm⟩, fun h => h.2.symm⟩

/-- All files are read or none: the document is that of all files, in their order. -/
theorem parseAll_eq_ok {files : List (Path × String)} {d : Document} :
    parseAll files = .ok d ↔
      (∀ f ∈ files, Readable f) ∧ d = concat (files.map parsed) := by
  have hread : parseAll files =
      (files.mapM fun f => parse f.1 f.2) >>= fun ds => pure (concat ds) := rfl
  rw [hread]
  constructor
  · intro h
    cases hds : files.mapM fun f => parse f.1 f.2 with
    | error p =>
      rw [hds] at h
      cases h
    | ok ds =>
      rw [hds] at h
      cases h
      obtain ⟨hall, rfl⟩ := mapM_parse.mp hds
      exact ⟨hall, rfl⟩
  · rintro ⟨hall, rfl⟩
    rw [mapM_parse.mpr ⟨hall, rfl⟩]
    rfl

/-- Files that are read in order make a loaded document. -/
theorem loaded_parseAll {files : List (Path × String)} {d : Document}
    (h : Document.parseAll files = .ok d) : d.Loaded := by
  obtain ⟨hall, rfl⟩ := parseAll_eq_ok.mp h
  refine .concat fun e he => ?_
  obtain ⟨f, hf, rfl⟩ := List.mem_map.mp he
  obtain ⟨e, he⟩ := hall f hf
  exact parsed_of_parse he ▸ loaded_parse he

theorem loaded_of_toOption {files : List (Path × String)} {d : Document}
    (h : (Document.parseAll files).toOption = some d) : d.Loaded :=
  loaded_parseAll (eq_ok_of_toOption h)

end TypeLoom.Schema.Document
