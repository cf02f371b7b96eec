/-
  Where the headers of a run go.

  * `Workspace.names_append`: the names on a path are those in front of a slash and those behind it.
  * `headerPlace home name` is the place of the header of a correction, if its name has no slash in it, and
    `resolve?_headerFile` says that the path of the header leads nowhere else.
  * `HeaderName name`: a file can have that name. `openFile_header` says that nothing else is needed for
    the header to be opened once its directory is there.
-/
import Corrections.Builder.Save
import Corrections.Proofs.Workspace

namespace Corrections

namespace Text
variable {c : Char}

theorem splitOn_append_cons (front back : List Char) :
    (front ++ c :: back).splitOn c = front.splitOn c ++ back.splitOn c := by
  simp only [List.splitOn_eq_splitOnP]
  exact List.splitOnP_append_cons _ _ (beq_self_eq_true c)

theorem splitOn_of_notMem {cs : List Char} (h : c ∉ cs) : cs.splitOn c = [cs] := by
  rw [List.splitOn_eq_splitOnP]
  refine List.splitOnP_eq_singleton fun x hx => ?_
  rw [beq_eq_false_iff_ne]
  rintro rfl
  exact h hx

end Text

namespace Workspace
variable {ws : Workspace} {here there : Place} {name : String}

/-- A path is cut at its slashes. -/
theorem parts_eq (cs : List Char) : parts cs = cs.splitOn '/' := by
  induction cs with
  | nil => rfl
  | cons c rest ih =>
    rw [parts, List.splitOn_cons_eq_if_modifyHead, ih]
    by_cases hc : c = '/'
    · simp [hc]
    · obtain ⟨name, names, hnames⟩ := List.exists_cons_of_ne_nil (List.splitOn_ne_nil '/' rest)
      simp [hc, hnames]

theorem names_append (front back : String) : names (front ++ "/" ++ back) = names front ++ names back := by
  simp only [names, parts_eq, String.toList_append, List.append_assoc, ← List.map_append]
  exact congrArg _ (Text.splitOn_append_cons _ _)

theorem names_of_notMem (h : '/' ∉ name.toList) : names name = [name] := by
  rw [names, parts_eq, Text.splitOn_of_notMem h, List.map_singleton, String.ofList_toList]

theorem node?_home (ws : Workspace) : ws.node? ws.home = some .directory := by
  simp [node?]

/-- A name of its own leads down into the directory. -/
theorem eq_of_step (hdots : isDots name = false) (h : ws.step here name = .ok there) :
    there = here ++ [name] := by
  simp only [isDots, Bool.or_eq_false_iff, beq_eq_false_iff_ne] at hdots
  unfold step at h
  split_ifs at h with hhere hstay hup hlong hfound
  · rcases hstay with rfl | rfl
    · exact absurd rfl hdots.1.1
    · exact absurd rfl hdots.1.2
  · exact absurd hup hdots.2
  · cases h
    rfl

end Workspace

open Workspace

/-- The path of the header of a correction in a run. -/
def headerFile (name : String) : String := Builder.defaultDirectory ++ "/" ++ name ++ ".h"

/-- The place of the header of a correction in a run. -/
def headerPlace (home : Place) (name : String) : Place :=
  home ++ [Builder.defaultDirectory, name ++ ".h"]

theorem headerPlace_inj {home : Place} {name name' : String} :
    headerPlace home name = headerPlace home name' ↔ name = name' := by
  simp [headerPlace]

/-- A file can have the name that a header gets. -/
structure HeaderName (name : String) : Prop where
  noNull : hasNull (headerFile name) = false
  sound : pathFault? (headerFile name) = none
  short : ¬nameLimit < (name ++ ".h").utf8ByteSize

variable {ws : Workspace} {name : String}

theorem names_headerFile (hname : '/' ∉ name.toList) :
    names (headerFile name) = [Builder.defaultDirectory, name ++ ".h"] := by
  have hfile : '/' ∉ (name ++ ".h").toList := by
    rw [String.toList_append, List.mem_append]
    rintro (h | h)
    · exact hname h
    · simp at h
  have hdirectory : '/' ∉ Builder.defaultDirectory.toList := by decide
  rw [headerFile, String.append_assoc, names_append, names_of_notMem hdirectory, names_of_notMem hfile]
  rfl

theorem isDots_header (name : String) : isDots (name ++ ".h") = false := by
  have hlast : ∀ s : String, s.toList.getLast? ≠ some 'h' → name ++ ".h" ≠ s := by
    rintro s hs rfl
    exact hs (by simp)
  simp only [isDots, Bool.or_eq_false_iff, beq_eq_false_iff_ne]
  exact ⟨⟨hlast "" (by simp), hlast "." (by simp)⟩, hlast ".." (by simp)⟩

theorem isDots_defaultDirectory : isDots Builder.defaultDirectory = false := by decide

theorem start_headerFile (ws : Workspace) (name : String) : ws.start (headerFile name) = ws.home := by
  simp [start, headerFile, Builder.defaultDirectory]

/-- **The path of a header leads to its place or nowhere.** -/
theorem resolve?_headerFile {p : Place} (hname : '/' ∉ name.toList)
    (h : ws.resolve? (headerFile name) = some p) : p = headerPlace ws.home name := by
  unfold resolve? at h
  split_ifs at h
  split at h
  · cases h
  · rw [start_headerFile, names_headerFile hname, walk] at h
    cases hfirst : ws.step ws.home Builder.defaultDirectory with
    | error fault =>
      rw [hfirst] at h
      cases h
    | ok here =>
      rw [hfirst] at h
      simp only [walk] at h
      cases hsecond : ws.step here (name ++ ".h") with
      | error fault =>
        rw [hsecond] at h
        cases h
      | ok there =>
        rw [hsecond] at h
        cases h
        rw [eq_of_step (isDots_header name) hsecond, eq_of_step isDots_defaultDirectory hfirst]
        simp [headerPlace]

/-- The header of a correction can be opened if its directory is there and nothing but a file has its
place. -/
theorem openFile_header (hname : '/' ∉ name.toList) (hheader : HeaderName name)
    (hdirectory : ws.node? (ws.home ++ [Builder.defaultDirectory]) = some .directory)
    (hfree : ws.node? (headerPlace ws.home name) ≠ some .directory) :
    ∃ ws', ws.openFile (headerFile name) = .ok (headerPlace ws.home name, ws') := by
  have hplace : headerPlace ws.home name = ws.home ++ [Builder.defaultDirectory] ++ [name ++ ".h"] := by
    simp [headerPlace]
  have hwalk : ws.walk (ws.start (headerFile name)) (names (headerFile name)).dropLast =
      .ok (ws.home ++ [Builder.defaultDirectory]) := by
    have hstep := step_eq_ok (node?_home ws) isDots_defaultDirectory (by decide)
      (by rw [hdirectory]; rfl)
    rw [start_headerFile, names_headerFile hname]
    simp [walk, hstep]
  have hopens : ws.Opens (headerFile name) (ws.home ++ [Builder.defaultDirectory]) (name ++ ".h") :=
    ⟨hheader.sound, hwalk, hdirectory, by rw [names_headerFile hname]; rfl, isDots_header name,
      hheader.short, by rw [← hplace]; exact hfree⟩
  exact ⟨_, openFile_eq_ok_iff.2 ⟨hheader.noNull, newFile_eq_ok_iff.2 ⟨_, _, hopens, hplace, rfl⟩⟩⟩

/-- A header that was opened has a name that a file can have. -/
theorem headerName_of_openFile {p : Place} {ws' : Workspace} (hname : '/' ∉ name.toList)
    (h : ws.openFile (headerFile name) = .ok (p, ws')) : HeaderName name := by
  obtain ⟨hnull, hnew⟩ := openFile_eq_ok_iff.1 h
  obtain ⟨here, last, hopens, -, -⟩ := newFile_eq_ok_iff.1 hnew
  have hlast := hopens.last
  rw [names_headerFile hname] at hlast
  cases hlast
  exact ⟨hnull, hopens.sound, hopens.short⟩

end Corrections
