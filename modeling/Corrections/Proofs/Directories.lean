/-
  Making directories disturbs no file.

  * `Grows ws ws'`: whatever stood at a place in `ws` still stands there in `ws'`, and whatever is new is a
    directory.
  * `grows_makeDirectories`: a workspace grows when directories are made, also if that fails half way.
  * `Grows.keeps`: every file has the same text afterwards.
  * `puts_write`: a file that is written into a directory that was made is the only one that changes.
-/
import Corrections.Workspace.Directories
import Corrections.Proofs.Workspace

namespace Corrections.Workspace
variable {ws ws₁ ws' : Workspace} {path text : String} {p : Place}

/-- Directories were added to a workspace, and nothing else. -/
structure Grows (ws ws' : Workspace) : Prop where
  home : ws'.home = ws.home
  node : ∀ p, ws'.node? p = ws.node? p ∨ ws.node? p = none ∧ ws'.node? p = some .directory

namespace Grows

theorem refl (ws : Workspace) : Grows ws ws := ⟨rfl, fun _ => .inl rfl⟩

theorem trans (h : Grows ws ws₁) (h' : Grows ws₁ ws') : Grows ws ws' := by
  refine ⟨h'.home.trans h.home, fun p => ?_⟩
  rcases h.node p with hp | ⟨hnone, hp⟩
  · rw [← hp]
    exact h'.node p
  · rcases h'.node p with hp' | ⟨hnone', -⟩
    · exact .inr ⟨hnone, hp'.trans hp⟩
    · rw [hp] at hnone'
      cases hnone'

/-- Every file keeps its text, and there is no new one. -/
theorem keeps (h : Grows ws ws') : ws.Keeps ws' := by
  intro p
  unfold text?
  rcases h.node p with hp | ⟨hnone, hp⟩
  · rw [hp]
  · rw [hp, hnone]

end Grows

theorem grows_set (h : ws.node? p = none) : Grows ws (ws.set p .directory) := by
  refine ⟨rfl, fun q => ?_⟩
  rw [node?_set]
  by_cases hq : q.isPrefixOf ws.home
  · left
    rw [if_pos hq, node?, if_pos hq]
  · by_cases hpq : p = q
    · right
      rw [if_neg hq, if_pos hpq, ← hpq]
      exact ⟨h, rfl⟩
    · left
      rw [if_neg hq, if_neg hpq]

theorem grows_newDirectory (h : ws.newDirectory path = .ok ws') : Grows ws ws' := by
  unfold newDirectory at h
  split at h
  · cases h
  · split_ifs at h with hdots hlong hsome
    cases h
    exact grows_set (by simpa using hsome)

theorem grows_makeDirectory (h : ws.makeDirectory path = .ok ws') : Grows ws ws' := by
  unfold makeDirectory guarded at h
  split_ifs at h
  cases hnew : ws.newDirectory path with
  | error fault =>
    rw [hnew] at h
    cases h
  | ok ws₁ =>
    rw [hnew] at h
    cases h
    exact grows_newDirectory hnew

theorem grows_ensureDirectory (ws : Workspace) (path : String) :
    Grows ws (ws.ensureDirectory path).2 := by
  unfold ensureDirectory
  cases hmake : ws.makeDirectory path with
  | ok ws' => exact grows_makeDirectory hmake
  | error e =>
    simp only
    split
    · exact .refl ws
    · exact .refl ws

theorem grows_makeLevels (ws : Workspace) (levels : List Level) : Grows ws (ws.makeLevels levels).2 := by
  fun_induction makeLevels ws levels with
  | case1 => exact .refl ws
  | case2 level => exact grows_ensureDirectory ws level.path
  | case3 level next upper hreaches => exact grows_ensureDirectory ws level.path
  | case4 level next upper hreaches e ws₁ hupper hoccupied hdot ih =>
    rw [hupper] at ih
    exact ih
  | case5 level next upper hreaches e ws₁ hupper hoccupied hdot ih =>
    rw [hupper] at ih
    exact ih.trans (grows_ensureDirectory ws₁ level.path)
  | case6 level next upper hreaches e ws₁ hupper hoccupied ih =>
    rw [hupper] at ih
    exact ih
  | case7 level next upper hreaches ws₁ hupper hdot ih =>
    rw [hupper] at ih
    exact ih
  | case8 level next upper hreaches ws₁ hupper hdot ih =>
    rw [hupper] at ih
    exact ih.trans (grows_ensureDirectory ws₁ level.path)

/-- **Making directories adds directories only**, whether or not it succeeds. -/
theorem grows_makeDirectories {r : Except FileError Unit} (h : ws.makeDirectories path = (r, ws')) :
    Grows ws ws' := by
  have hgrows := grows_makeLevels ws (levels path)
  rw [← makeDirectories, h] at hgrows
  exact hgrows

/-! ## Writing a file into a directory that was made -/

theorem puts_openFile (hgrows : ws.Grows ws₁) (hopen : ws₁.openFile path = .ok (p, ws')) :
    ws.Puts ws' path "" :=
  ⟨p, (opened hopen).resolve?_eq, fun q => by rw [(opened hopen).text?_eq, hgrows.keeps q]⟩

theorem puts_write (hgrows : ws.Grows ws₁) (hopen : ws₁.openFile path = .ok (p, ws'))
    (text : String) : ws.Puts (ws'.write p text) path text :=
  ⟨p, (opened hopen).resolve?_write text, fun q => by
    rw [(opened hopen).text?_write, hgrows.keeps q]⟩

end Corrections.Workspace
