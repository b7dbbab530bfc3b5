import TypeLoom.Proofs.Plugins.Steps

/-!
# Actions in trees that are the same

Plugins learn of a tree by its operations only. Main statement: what they do in two trees in which
the same stands at all places is the same, and so is what stands there afterwards.
-/

namespace TypeLoom.Files.Tree

namespace Same

variable {t t' : Tree}

theorem locate_eq (h : Same t t') (follow : Bool) (p : Path) :
    t'.locate follow p = t.locate follow p := by
  rw [Tree.locate_eq, Tree.locate_eq, h.trail_eq]

theorem put (h : Same t t') {place : Place} (hne : place ≠ []) (e : Entry) :
    Same (t.put place e) (t'.put place e) := by
  refine ⟨h.home, fun q => ?_⟩
  rw [at?_put t hne, at?_put t' hne, h.entries]

end Same

section

variable {t t' : Tree} {follow : Bool} {p : Path} {place : Place}

theorem ne_nil_of_missing {rest : List String} (h : t.trail follow p = .missing place rest) :
    place ≠ [] := by
  have hfollow : t.trail true p = .missing place rest := by
    cases follow with
    | true => exact h
    | false => exact trail_follow h
  have hnamed : ∀ τ, Resumes t t (.missing place rest) τ → place ≠ [] := by
    rintro τ ⟨⟩
    simp
  refine hnamed (t.trail true p) ?_
  rw [← hfollow]
  exact trail_resumes (Fills.refl (fun _ => False) (fun _ => False) t) p

theorem ne_nil_of_absent (h : t.locate follow p = .ok (.absent place)) : place ≠ [] := by
  rw [locate_eq] at h
  rcases htrail : t.trail follow p with ⟨_, _⟩ | ⟨_, _ | _⟩ | _ <;> rw [htrail] at h <;> cases h
  exact ne_nil_of_missing htrail

theorem ne_nil_of_file {content : List UInt8}
    (h : t.locate true p = .ok (.present place (.file content))) : place ≠ [] := by
  rw [locate_eq] at h
  rcases htrail : t.trail true p with ⟨_, _⟩ | ⟨_, _ | _⟩ | _ <;> rw [htrail] at h <;> cases h
  rintro rfl
  cases at?_of_trail_file htrail

theorem Same.createDirectory (h : Same t t') (p : Path) :
    (t'.createDirectory p).1 = (t.createDirectory p).1 ∧
      Same (t.createDirectory p).2 (t'.createDirectory p).2 := by
  rw [Tree.createDirectory, Tree.createDirectory, h.locate_eq]
  split
  · exact ⟨rfl, h⟩
  · rename_i place hplace
    exact ⟨rfl, h.put (ne_nil_of_absent hplace) _⟩
  · exact ⟨rfl, h⟩

theorem Same.write (h : Same t t') (p : Path) (content : List UInt8) :
    (t'.write p content).1 = (t.write p content).1 ∧
      Same (t.write p content).2 (t'.write p content).2 := by
  rw [Tree.write, Tree.write, h.locate_eq]
  split
  · rename_i place old hplace
    exact ⟨rfl, h.put (ne_nil_of_file hplace) _⟩
  · exact ⟨rfl, h⟩
  · rename_i place hplace
    exact ⟨rfl, h.put (ne_nil_of_absent hplace) _⟩
  · exact ⟨rfl, h⟩

end

end TypeLoom.Files.Tree

namespace TypeLoom.Plugins

open Files Files.Tree Pipeline Collected
open ResolverModule (Parser)

variable {ε α β : Type}

/-- An action that does the same in trees that are the same. -/
def Congruent (x : StateM Tree α) : Prop :=
  ∀ t t', Same t t' → answer x t' = answer x t ∧ Same (worldAfter x t) (worldAfter x t')

theorem congruent_pure (a : α) : Congruent (pure a) := fun _ _ h => ⟨rfl, h⟩

theorem Congruent.bind {x : StateM Tree α} {f : α → StateM Tree β} (hx : Congruent x)
    (hf : ∀ a, Congruent (f a)) : Congruent (x >>= f) := by
  intro t t' h
  obtain ⟨hanswer, hworld⟩ := hx t t' h
  rw [answer_bind, answer_bind, worldAfter_bind, worldAfter_bind, hanswer]
  exact hf _ _ _ hworld

theorem congruent_run_pure (a : α) : Congruent (pure a : ExceptT ε (StateM Tree) α).run :=
  congruent_pure _

theorem congruent_run_throw (e : ε) : Congruent (throw e : ExceptT ε (StateM Tree) α).run :=
  congruent_pure _

theorem Congruent.run_lift {x : StateM Tree α} (hx : Congruent x) :
    Congruent (liftM x : ExceptT ε (StateM Tree) α).run :=
  fun t t' h => ⟨congrArg Except.ok (hx t t' h).1, (hx t t' h).2⟩

theorem Congruent.run_bind {x : ExceptT ε (StateM Tree) α} {f : α → ExceptT ε (StateM Tree) β}
    (hx : Congruent x.run) (hf : ∀ a, Congruent (f a).run) : Congruent (x >>= f).run := by
  intro t t' h
  obtain ⟨hanswer, hworld⟩ := hx t t' h
  rw [answer_run_bind, answer_run_bind, worldAfter_run_bind, worldAfter_run_bind, hanswer]
  cases answer x.run t with
  | error e => exact ⟨rfl, hworld⟩
  | ok a => exact hf a _ _ hworld

theorem congruent_run_foldlM {f : β → α → ExceptT ε (StateM Tree) β}
    (hf : ∀ b a, Congruent (f b a).run) (as : List α) (b : β) :
    Congruent (as.foldlM f b).run := by
  induction as generalizing b with
  | nil => exact congruent_run_pure b
  | cons a as ih =>
    rw [List.foldlM_cons]
    exact (hf b a).run_bind ih

/-! ### Files -/

theorem congruent_kind (p : Path) : Congruent (FileAccess.kind p : StateM Tree _) :=
  fun _ _ h => ⟨(h.kept p).kind, h⟩

theorem congruent_createDirectory (p : Path) :
    Congruent (FileAccess.createDirectory p : StateM Tree _) := fun _ _ h => h.createDirectory p

theorem congruent_writeText (p : Path) (text : String) :
    Congruent (writeText p text : StateM Tree _) := fun _ _ h => h.write p _

theorem congruent_isFile (p : Path) : Congruent (isFile p : StateM Tree Bool) := by
  refine (congruent_kind p).bind fun r => ?_
  split <;> exact congruent_pure _

theorem congruent_isDirectory (p : Path) : Congruent (isDirectory p : StateM Tree Bool) := by
  refine (congruent_kind p).bind fun r => ?_
  split <;> exact congruent_pure _

theorem congruent_ensureDirectory (p : Path) : Congruent (ensureDirectory p : StateM Tree _) := by
  refine (congruent_createDirectory p).bind fun r => ?_
  split
  · exact congruent_pure _
  · refine (congruent_isDirectory p).bind fun b => ?_
    split <;> exact congruent_pure _

theorem congruent_createLineage (ps : List Path) : Congruent (createLineage ps : StateM Tree _) := by
  induction ps with
  | nil => exact congruent_pure _
  | cons p ps ih =>
    refine (congruent_ensureDirectory p).bind fun r => ?_
    split
    · exact congruent_pure _
    · split
      · refine ih.bind fun r => ?_
        split
        · exact congruent_ensureDirectory p
        · exact congruent_pure _
      · exact congruent_pure _

theorem congruent_readTextIfPresent (p : Path) :
    Congruent (readTextIfPresent p : ExceptT ReadProblem (StateM Tree) _).run := by
  intro t t' h
  rw [worldAfter_readTextIfPresent, worldAfter_readTextIfPresent]
  exact ⟨textAt_congr (h.kept p), h⟩

theorem congruent_onFile {x : StateM Tree (Except OsError α)} (hx : Congruent x) (p : Path) :
    Congruent (onFile p x).run := by
  intro t t' h
  obtain ⟨hanswer, hworld⟩ := hx t t' h
  rw [(run_onFile p x t).1, (run_onFile p x t).2, (run_onFile p x t').1, (run_onFile p x t').2,
    hanswer]
  exact ⟨rfl, hworld⟩

theorem congruent_makeDirectories (p : Path) :
    Congruent (makeDirectories p : Action (StateM Tree) _).run :=
  congruent_onFile (congruent_createLineage _) p

theorem congruent_writeFile (p : Path) (text : String) :
    Congruent (writeFile p text : Action (StateM Tree) _).run := by
  rw [writeFile_eq]
  refine Congruent.run_bind ?_ fun _ => congruent_onFile (congruent_writeText p text) p
  unfold readyFile
  split
  · split
    · exact congruent_run_pure ()
    · exact congruent_makeDirectories _
  · exact congruent_run_pure ()

theorem congruent_writeFiles (files : List (Path × String)) :
    Congruent (writeFiles files : Action (StateM Tree) _).run := by
  have heach : Congruent (writeEach files).run := by
    induction files with
    | nil => exact congruent_run_pure ()
    | cons f files ih => exact (congruent_writeFile f.1 f.2).run_bind fun _ => ih
  rw [writeFiles_eq]
  exact heach.run_bind fun _ => congruent_run_pure _

/-! ### Plugins -/

theorem inputIsFile_same {t t' : Tree} (h : Same t t') (c : Context) :
    inputIsFile c t' = inputIsFile c t := by
  unfold inputIsFile
  congr 1
  funext p
  exact (congruent_isFile p t t' h).1

theorem congruent_declarationPaths (plugin : String) (c : Context) :
    Congruent (declarationPaths plugin c : Action (StateM Tree) _).run := by
  intro t t' h
  unfold declarationPaths
  rw [answer_outputPaths, answer_outputPaths, worldAfter_outputPaths, worldAfter_outputPaths,
    inputIsFile_same h]
  exact ⟨rfl, h⟩

theorem congruent_writeDeclarations (c : Context) :
    Congruent (writeDeclarations c : Action (StateM Tree) _).run := by
  refine (congruent_declarationPaths _ c).run_bind fun paths => ?_
  dsimp only
  split
  · exact congruent_run_pure _
  · split
    · exact congruent_run_pure _
    · exact congruent_writeFiles _

theorem congruent_reportConflicts (c : Context) :
    Congruent (reportConflicts c : Action (StateM Tree) _).run :=
  (congruent_declarationPaths _ c).run_bind fun _ => congruent_run_pure _

theorem congruent_writeSnapshot (c : Context) :
    Congruent (writeSnapshot c : Action (StateM Tree) _).run := by
  unfold writeSnapshot
  cases c.document with
  | none => exact congruent_run_pure _
  | some d => exact (congruent_declarationPaths _ c).run_bind fun _ => congruent_writeFiles _

theorem congruent_onModule {x : StateM Tree (Except OsError α)} (hx : Congruent x) (p : Path) :
    Congruent (onModule p x).run := by
  refine hx.run_lift.run_bind fun r => ?_
  split
  · exact congruent_run_pure _
  · exact congruent_run_throw _

theorem congruent_updateModule [Parser] (u : ResolverModule.Update) :
    Congruent (updateModule u : ExceptT ModuleProblem (StateM Tree) _).run := by
  refine (congruent_readTextIfPresent u.module).run_lift.run_bind fun r => ?_
  split
  · exact congruent_run_throw _
  · split
    · exact congruent_run_throw _
    · rename_i merged _
      have hwrite : Congruent (do
          onModule u.module (writeText u.module merged)
          return true : ExceptT ModuleProblem (StateM Tree) Bool).run :=
        (congruent_onModule (congruent_writeText _ _) _).run_bind fun _ => congruent_run_pure _
      split
      · exact congruent_run_pure _
      · split
        · exact (congruent_onModule (congruent_createLineage _) _).run_bind fun _ => hwrite
        · exact hwrite

theorem congruent_addUpdate [Parser] (r : Report) (u : ResolverModule.Update) :
    Congruent (addUpdate r u : StateM Tree Report) := by
  refine Congruent.bind (congruent_updateModule u) fun outcome => ?_
  split <;> exact congruent_pure _

theorem congruent_updateModules [Parser] (c : Context) :
    Congruent (updateModules c : Action (StateM Tree) _).run :=
  (congruent_declarationPaths _ c).run_bind fun _ =>
    congruent_run_foldlM (fun r u => (congruent_addUpdate r u).run_lift) _ _

end TypeLoom.Plugins
