/-
  Files that are written can be read.

  * `textAt? ws path` is the text of the file that a path leads to.
  * `newFile_eq_ok_iff`: where a new file is put down.
  * `step_set` and `walk_set`: a file that is put down is in nobody's way.
  * `opened`: opening a file makes it an empty one, and its path leads to it from then on.
  * `Keeps ws ws'`: every file has the same text in both, and there is no new one.
  * `Puts ws ws' path text`: the path leads to a file with that text, and all other files are kept.
-/
import Corrections.Workspace.Basic
import Mathlib.Tactic.Common

namespace Corrections.Workspace
variable {ws ws' : Workspace} {path text name : String} {p here there : Place}

/-- The text of the file that a path leads to. -/
def textAt? (ws : Workspace) (path : String) : Option String := (ws.resolve? path).bind ws.text?

theorem names_ne_nil (path : String) : names path ≠ [] := by
  have hparts : ∀ cs, parts cs ≠ [] := by
    intro cs
    fun_cases parts cs <;> simp
  simpa [names] using hparts path.toList

theorem names_eq (path : String) : names path = (names path).dropLast ++ [(names path).getLastD ""] := by
  obtain ⟨init, last, h⟩ : ∃ init last, names path = init ++ [last] :=
    ⟨_, _, (List.dropLast_concat_getLast (names_ne_nil path)).symm⟩
  simp [h]

/-- A path that a file can be put down at: it leads to a directory `here`, and the last name on it is a
name of its own. -/
structure Opens (ws : Workspace) (path : String) (here : Place) (name : String) : Prop where
  sound : pathFault? path = none
  walk : ws.walk (ws.start path) (names path).dropLast = .ok here
  directory : ws.node? here = some .directory
  last : (names path).getLastD "" = name
  notDots : isDots name = false
  short : ¬nameLimit < name.utf8ByteSize
  free : ws.node? (here ++ [name]) ≠ some .directory

theorem newFile_eq_ok_iff : ws.newFile path = .ok (p, ws') ↔
    ∃ here name, ws.Opens path here name ∧ p = here ++ [name] ∧ ws' = ws.set p (.file "") := by
  unfold newFile target
  constructor
  · intro h
    split at h
    · cases h
    · next here name htarget =>
      split at htarget
      · cases htarget
      · next hsound =>
        split at htarget
        · cases htarget
        · next here' hwalk =>
          split_ifs at htarget with hdirectory
          cases htarget
          split_ifs at h with hdots hshort hfree
          cases h
          exact ⟨here, _, ⟨hsound, hwalk, by simpa using hdirectory, rfl, by simpa using hdots, hshort,
            hfree⟩, rfl, rfl⟩
  · rintro ⟨here, name, h, rfl, rfl⟩
    simp only [h.sound, h.walk, h.directory, h.last, h.notDots, h.short, h.free, ne_eq,
      not_true_eq_false, Bool.false_eq_true, if_false]

theorem openFile_eq_ok_iff : ws.openFile path = .ok (p, ws') ↔
    hasNull path = false ∧ ws.newFile path = .ok (p, ws') := by
  unfold openFile guarded
  cases hnull : hasNull path with
  | true => simp
  | false =>
    cases ws.newFile path with
    | error fault => simp [Except.mapError]
    | ok r => simp [Except.mapError]

/-- What is no directory can be made a file, and all directories stay. -/
theorem node?_set_file (hp : ws.node? p ≠ some .directory) (text : String) (q : Place) :
    (ws.set p (.file text)).node? q = if p = q then some (.file text) else ws.node? q := by
  rw [node?_set]
  by_cases hq : q.isPrefixOf ws.home
  · have hnode : ws.node? q = some .directory := by simp [node?, hq]
    have hne : p ≠ q := by
      rintro rfl
      exact hp hnode
    rw [if_pos hq, if_neg hne, hnode]
  · rw [if_neg hq]

theorem step_set (hp : ws.node? p ≠ some .directory) (h : ws.step here name = .ok there) :
    (ws.set p (.file text)).step here name = .ok there := by
  have hdirectory : ∀ q, ws.node? q = some .directory →
      (ws.set p (.file text)).node? q = some .directory := by
    intro q hq
    have hne : p ≠ q := by
      rintro rfl
      exact hp hq
    rw [node?_set_file hp, if_neg hne, hq]
  have hsome : ∀ q, (ws.node? q).isSome = true → ((ws.set p (.file text)).node? q).isSome = true := by
    intro q hq
    rw [node?_set_file hp]
    split_ifs
    · rfl
    · exact hq
  unfold step at h ⊢
  split_ifs at h with hhere hstay hup hlong hfound <;> cases h
  · simp [hdirectory here (by simpa using hhere), hstay]
  · simp [hdirectory here (by simpa using hhere), hup]
  · simp [hdirectory here (by simpa using hhere), hstay, hup, hlong, hsome _ hfound]

theorem walk_set (hp : ws.node? p ≠ some .directory) {route : List String}
    (h : ws.walk here route = .ok there) : (ws.set p (.file text)).walk here route = .ok there := by
  induction route generalizing here with
  | nil => exact h
  | cons name route ih =>
    rw [walk] at h ⊢
    cases hstep : ws.step here name with
    | error fault =>
      rw [hstep] at h
      cases h
    | ok next =>
      rw [hstep] at h
      rw [step_set hp hstep]
      exact ih h

theorem walk_concat {route : List String} {next : Place} (h : ws.walk here route = .ok there)
    (hstep : ws.step there name = .ok next) : ws.walk here (route ++ [name]) = .ok next := by
  induction route generalizing here with
  | nil =>
    cases h
    rw [List.nil_append, walk, hstep]
    rfl
  | cons name' route ih =>
    rw [walk] at h
    rw [List.cons_append, walk]
    cases hstep' : ws.step here name' with
    | error fault =>
      rw [hstep'] at h
      cases h
    | ok next' =>
      rw [hstep'] at h
      exact ih h

/-- A name of its own leads to what stands under it. -/
theorem step_eq_ok (hdirectory : ws.node? here = some .directory) (hdots : isDots name = false)
    (hshort : ¬nameLimit < name.utf8ByteSize) (hsome : (ws.node? (here ++ [name])).isSome = true) :
    ws.step here name = .ok (here ++ [name]) := by
  simp only [isDots, Bool.or_eq_false_iff, beq_eq_false_iff_ne] at hdots
  simp [step, hdirectory, hdots, hshort, hsome]

/-- A path leads to the file that is put down at its end. -/
theorem Opens.resolve?_set (h : ws.Opens path here name) (hnull : hasNull path = false)
    (text : String) : (ws.set (here ++ [name]) (.file text)).resolve? path = some (here ++ [name]) := by
  generalize hset : ws.set (here ++ [name]) (.file text) = ws₂
  have hnode : ∀ q, ws₂.node? q = if here ++ [name] = q then some (.file text) else ws.node? q := by
    intro q
    rw [← hset, node?_set_file h.free]
  have hdirectory : ws₂.node? here = some .directory := by
    rw [hnode, if_neg (by simp), h.directory]
  have hhere : ws₂.walk (ws.start path) (names path).dropLast = .ok here := by
    rw [← hset]
    exact walk_set h.free h.walk
  have hwalk : ws₂.walk (ws.start path) (names path) = .ok (here ++ [name]) := by
    rw [names_eq path, h.last]
    exact walk_concat hhere (step_eq_ok hdirectory h.notDots h.short (by simp [hnode]))
  have hstart : ws₂.start path = ws.start path := by
    rw [← hset]
    rfl
  rw [resolve?, hnull, if_neg Bool.false_ne_true, h.sound, hstart, hwalk]
  rfl

theorem text?_set_file (hp : ws.node? p ≠ some .directory) (text : String) (q : Place) :
    (ws.set p (.file text)).text? q = if p = q then some text else ws.text? q := by
  unfold text?
  rw [node?_set_file hp]
  by_cases hq : p = q <;> simp [hq]

/-- Opening a file makes it an empty one, and the path leads to it from then on. -/
structure Opened (ws : Workspace) (path : String) (p : Place) (ws' : Workspace) : Prop where
  workspace : ws' = ws.set p (.file "")
  free : ws.node? p ≠ some .directory
  resolves : ∀ text, (ws.set p (.file text)).resolve? path = some p

theorem opened (h : ws.openFile path = .ok (p, ws')) : Opened ws path p ws' := by
  obtain ⟨hnull, hnew⟩ := openFile_eq_ok_iff.1 h
  obtain ⟨here, name, hopens, rfl, rfl⟩ := newFile_eq_ok_iff.1 hnew
  exact ⟨rfl, hopens.free, hopens.resolve?_set hnull⟩

namespace Opened

theorem write_eq (h : Opened ws path p ws') (text : String) : ws'.write p text = ws.set p (.file text) := by
  rw [h.workspace, write, set, set, set, Table.insert_insert]

theorem home (h : Opened ws path p ws') : ws'.home = ws.home := by
  rw [h.workspace]
  rfl

/-- Only the file that was opened has a new text. -/
theorem text?_eq (h : Opened ws path p ws') (q : Place) :
    ws'.text? q = if p = q then some "" else ws.text? q := by
  rw [h.workspace, text?_set_file h.free]

theorem text?_write (h : Opened ws path p ws') (text : String) (q : Place) :
    (ws'.write p text).text? q = if p = q then some text else ws.text? q := by
  rw [h.write_eq, text?_set_file h.free]

theorem resolve?_eq (h : Opened ws path p ws') : ws'.resolve? path = some p := by
  rw [h.workspace, h.resolves]

theorem resolve?_write (h : Opened ws path p ws') (text : String) :
    (ws'.write p text).resolve? path = some p := by
  rw [h.write_eq, h.resolves]

end Opened

/-! ## What becomes of the files -/

/-- The files are the same. -/
def Keeps (ws ws' : Workspace) : Prop := ∀ q, ws'.text? q = ws.text? q

/-- The file that a path leads to has the given text, and the other files are the same. -/
def Puts (ws ws' : Workspace) (path text : String) : Prop :=
  ∃ p, ws'.resolve? path = some p ∧ ∀ q, ws'.text? q = if p = q then some text else ws.text? q

namespace Puts

theorem text?_eq_of_ne (h : ws.Puts ws' path text) (q : Place) (hq : ws'.resolve? path ≠ some q) :
    ws'.text? q = ws.text? q := by
  obtain ⟨p, hp, htext⟩ := h
  have hne : p ≠ q := by
    rintro rfl
    exact hq hp
  rw [htext, if_neg hne]

theorem textAt?_eq (h : ws.Puts ws' path text) : ws'.textAt? path = some text := by
  obtain ⟨p, hp, htext⟩ := h
  rw [textAt?, hp, Option.bind_some, htext, if_pos rfl]

/-- Nothing has changed exactly when the file was there before, with the same text. -/
theorem keeps_iff (h : ws.Puts ws' path text) :
    ws.Keeps ws' ↔ ∃ p, ws'.resolve? path = some p ∧ ws.text? p = some text := by
  obtain ⟨p, hp, htext⟩ := h
  constructor
  · intro hkeeps
    exact ⟨p, hp, by rw [← hkeeps p, htext, if_pos rfl]⟩
  · rintro ⟨p', hp', hold⟩ q
    cases hp.symm.trans hp'
    rw [htext]
    split_ifs with hq
    · rw [← hq, hold]
    · rfl

end Puts

end Corrections.Workspace
