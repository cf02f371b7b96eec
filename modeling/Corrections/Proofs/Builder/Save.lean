/-
  How a save can end.

  * `World.formats w formatted`: a formatter is asked for, and there is one.
  * `Builder.Saves` lists the ways in which a save ends, each with the world that it leaves, and
    `saves_save` says that there are no others. All that is known about a save follows from this list.
  * `Formatter.output?` is what is written for a header, if anything is, and `Formatter.complaint` what is said
    about it. About a formatter that ends with a code other than 0 nothing is said.
  * `files_of_ok` and `files_of_error`: a save keeps all files or writes one of them, and which of the two
    depends on what the formatter does with the header.
-/
import Corrections.Builder.Save
import Corrections.Proofs.Directories
import Corrections.Proofs.Session
import Corrections.Proofs.Workspace

namespace Corrections

namespace Formatting

/-- What is written to the file. -/
def output? : Formatting → Option String
  | ended code output => if code = 0 then some output else none
  | failed _ => none

/-- What is printed on the error stream. -/
def complaint : Formatting → String
  | ended _ _ => ""
  | failed status => Builder.formatterFailed status ++ "\n"

theorem output?_eq_some_iff {r : Formatting} {output : String} :
    r.output? = some output ↔ r = .ended 0 output := by
  cases r with
  | ended code output' => simp [output?]
  | failed status => simp [output?]

end Formatting

namespace Formatter

/-- What is written for a header: what the formatter makes of it, or the header itself without one. -/
def output? : Formatter → String → Option String
  | absent, text => some text
  | runs program, text => (program text).output?

/-- What is printed on the error stream about a header. -/
def complaint : Formatter → String → String
  | absent, _ => ""
  | runs program, text => (program text).complaint

end Formatter

/-- A formatter is asked for, and there is one. -/
def World.formats (w : World) (formatted : Bool) : Prop := formatted = true ∧ w.formatter ≠ .absent

open Workspace (grows_makeDirectories opened puts_openFile puts_write)

namespace Builder

/-- The lines that are printed when a header is not formatted. -/
def warnings (formatted : Bool) : List String := if formatted then [formatterMissing] else []

/-- The ways in which a save ends. -/
inductive Saves (b : Builder) (directory : String) (formatted : Bool) (w : World) :
    EStateM.Result Failure World Unit → Prop
  | noDirectory {e : FileError} {ws : Workspace}
    (hmake : w.workspace.makeDirectories directory = (.error e, ws)) :
    Saves b directory formatted w (.error (.file e) { w with workspace := ws })
  /-- Without a formatter the file is opened first. -/
  | notOpened {e : FileError} {ws : Workspace} (hformats : ¬w.formats formatted)
    (hmake : w.workspace.makeDirectories directory = (.ok (), ws))
    (hopen : ws.openFile (b.headerPath directory) = .error e) :
    Saves b directory formatted w
      (.error (.file e) (Session.printed { w with workspace := ws } (warnings formatted)))
  | emptied {e : Failure} {ws ws' : Workspace} {p : Place} (hformats : ¬w.formats formatted)
    (hmake : w.workspace.makeDirectories directory = (.ok (), ws))
    (hopen : ws.openFile (b.headerPath directory) = .ok (p, ws')) (hdump : b.dump = .error e) :
    Saves b directory formatted w
      (.error e (Session.printed { w with workspace := ws' } (warnings formatted)))
  | written {ws ws' : Workspace} {p : Place} {text : String} (hformats : ¬w.formats formatted)
    (hmake : w.workspace.makeDirectories directory = (.ok (), ws))
    (hopen : ws.openFile (b.headerPath directory) = .ok (p, ws')) (hdump : b.dump = .ok text) :
    Saves b directory formatted w
      (.ok () (Session.printed { w with workspace := ws'.write p text } (warnings formatted)))
  /-- With a formatter the header is generated first. -/
  | notGenerated {e : Failure} {ws : Workspace} (hformats : w.formats formatted)
    (hmake : w.workspace.makeDirectories directory = (.ok (), ws)) (hdump : b.dump = .error e) :
    Saves b directory formatted w (.error e { w with workspace := ws })
  | refused {ws : Workspace} {text : String} (hformats : w.formats formatted)
    (hmake : w.workspace.makeDirectories directory = (.ok (), ws)) (hdump : b.dump = .ok text)
    (houtput : w.formatter.output? text = none) :
    Saves b directory formatted w
      (.ok () { w with
        workspace := ws, formatted := w.formatted ++ [text], err := w.err ++ w.formatter.complaint text })
  | formattedNotOpened {e : FileError} {ws : Workspace} {text output : String}
    (hformats : w.formats formatted)
    (hmake : w.workspace.makeDirectories directory = (.ok (), ws)) (hdump : b.dump = .ok text)
    (houtput : w.formatter.output? text = some output)
    (hopen : ws.openFile (b.headerPath directory) = .error e) :
    Saves b directory formatted w
      (.error (.file e) { w with workspace := ws, formatted := w.formatted ++ [text] })
  | formattedWritten {ws ws' : Workspace} {p : Place} {text output : String}
    (hformats : w.formats formatted)
    (hmake : w.workspace.makeDirectories directory = (.ok (), ws)) (hdump : b.dump = .ok text)
    (houtput : w.formatter.output? text = some output)
    (hopen : ws.openFile (b.headerPath directory) = .ok (p, ws')) :
    Saves b directory formatted w
      (.ok () { w with
        workspace := ws'.write p output, formatted := w.formatted ++ [text] })

variable {b : Builder} {w w' : World} {directory : String} {formatted : Bool} {e : Failure}

/-! ## The parts of a save -/

theorem savePlain_eq (b : Builder) (path : String) (w : World) :
    b.savePlain path w =
      match w.workspace.openFile path, b.dump with
      | .error e, _ => .error (.file e) w
      | .ok (_, ws), .error e => .error e { w with workspace := ws }
      | .ok (p, ws), .ok text => .ok () { w with workspace := ws.write p text } := by
  rw [savePlain, Session.openFile_bind]
  cases w.workspace.openFile path with
  | error e => rfl
  | ok r => cases b.dump <;> rfl

theorem saveFormatted_eq (b : Builder) (path : String) (program : String → Formatting) (w : World) :
    b.saveFormatted path program w =
      match b.dump with
      | .error e => .error e w
      | .ok text =>
        match (program text).output? with
        | none => .ok () { w with
            formatted := w.formatted ++ [text], err := w.err ++ (program text).complaint }
        | some output =>
          match w.workspace.openFile path with
          | .error e => .error (.file e) { w with formatted := w.formatted ++ [text] }
          | .ok (p, ws) =>
            .ok () { w with workspace := ws.write p output, formatted := w.formatted ++ [text] } := by
  unfold saveFormatted
  cases b.dump with
  | error e => rfl
  | ok text =>
    rw [Session.bind_of_ok (Session.ofExcept_ok _ _), Session.bind_of_ok (Session.format_eq _ _)]
    cases hprogram : program text with
    | failed status =>
      simp only [hprogram, Formatting.output?, Formatting.complaint, ← String.append_assoc]
      rfl
    | ended code output =>
      by_cases hcode : code = 0
      · simp only [hprogram, Formatting.output?, if_pos hcode, Session.openFile_bind]
        rfl
      · simp only [hprogram, Formatting.output?, Formatting.complaint, String.append_empty, if_neg hcode]
        rfl

section
variable {ws : Workspace} (hmake : w.workspace.makeDirectories directory = (.ok (), ws))
include hmake

theorem saves_savePlain (hformats : ¬w.formats formatted) :
    Saves b directory formatted w (b.savePlain (b.headerPath directory)
      (Session.printed { w with workspace := ws } (warnings formatted))) := by
  rw [savePlain_eq, Session.printed_workspace]
  rcases hopen : ws.openFile (b.headerPath directory) with e | ⟨p, ws'⟩
  · exact .notOpened hformats hmake hopen
  · cases hdump : b.dump with
    | error e => exact .emptied hformats hmake hopen hdump
    | ok text => exact .written hformats hmake hopen hdump

theorem saves_saveFormatted {program : String → Formatting} (hformats : w.formats formatted)
    (hformatter : w.formatter = .runs program) :
    Saves b directory formatted w
      (b.saveFormatted (b.headerPath directory) program { w with workspace := ws }) := by
  have houtput : ∀ text, (program text).output? = w.formatter.output? text := by
    simp [hformatter, Formatter.output?]
  have hcomplaint : ∀ text, (program text).complaint = w.formatter.complaint text := by
    simp [hformatter, Formatter.complaint]
  simp only [saveFormatted_eq, houtput, hcomplaint]
  cases hdump : b.dump with
  | error e => exact .notGenerated hformats hmake hdump
  | ok text =>
    cases hsome : w.formatter.output? text with
    | none =>
      simp only [hsome]
      exact .refused hformats hmake hdump hsome
    | some output =>
      simp only [hsome]
      rcases hopen : ws.openFile (b.headerPath directory) with e | ⟨p, ws'⟩
      · exact .formattedNotOpened hformats hmake hdump hsome hopen
      · exact .formattedWritten hformats hmake hdump hsome hopen

end

/-- **A save ends in one of the listed ways.** -/
theorem saves_save (b : Builder) (directory : String) (formatted : Bool) (w : World) :
    Saves b directory formatted w (b.save directory formatted w) := by
  rw [save, Session.makeDirectories_bind]
  rcases hmake : w.workspace.makeDirectories directory with ⟨e | _, ws⟩
  · exact .noDirectory hmake
  · cases formatted with
    | false => exact saves_savePlain hmake (by simp [World.formats])
    | true =>
      simp only [if_true]
      rw [Session.bind_of_ok (Session.get_eq _)]
      cases hformatter : w.formatter with
      | absent =>
        have hplain : ¬w.formats true := by simp [World.formats, hformatter]
        have hsaves := saves_savePlain (b := b) hmake hplain
        rw [hformatter] at hsaves
        exact hsaves
      | runs program =>
        have hformats : w.formats true := by simp [World.formats, hformatter]
        simpa only [hformatter] using saves_saveFormatted (b := b) hmake hformats hformatter

theorem dump_ne_file (b : Builder) (e : FileError) : b.dump ≠ .error (.file e) := by
  unfold dump body
  split_ifs
  · simp [Except.map]
  · simp [Except.map]
  · cases b.content.compile b.target <;> simp [Except.map, Except.mapError]

/-- **What a save does when it succeeds.** The file holds the header, or what the formatter makes of it; if
the formatter does not succeed, all files are kept. -/
theorem files_of_ok (h : b.save directory formatted w = .ok () w') :
    ∃ text, b.dump = .ok text ∧
      (¬w.formats formatted →
        w.workspace.Puts w'.workspace (b.headerPath directory) text) ∧
      (w.formats formatted → ∀ output, w.formatter.output? text = some output →
        w.workspace.Puts w'.workspace (b.headerPath directory) output) ∧
      (w.formats formatted → w.formatter.output? text = none → w.workspace.Keeps w'.workspace) := by
  have hsaves := saves_save b directory formatted w
  rw [h] at hsaves
  cases hsaves with
  | written hformats hmake hopen hdump =>
    refine ⟨_, hdump, fun _ => puts_write (grows_makeDirectories hmake) hopen _, ?_, ?_⟩
    · intro hformats'
      exact absurd hformats' hformats
    · intro hformats'
      exact absurd hformats' hformats
  | refused hformats hmake hdump hnone =>
    refine ⟨_, hdump, fun hformats' => absurd hformats hformats', ?_, ?_⟩
    · intro _ output houtput
      rw [hnone] at houtput
      cases houtput
    · intro _ _
      exact (grows_makeDirectories hmake).keeps
  | formattedWritten hformats hmake hdump hsome hopen =>
    refine ⟨_, hdump, fun hformats' => absurd hformats hformats', ?_, ?_⟩
    · intro _ output houtput
      rw [hsome] at houtput
      cases houtput
      exact puts_write (grows_makeDirectories hmake) hopen _
    · intro _ hnone
      rw [hsome] at hnone
      cases hnone

/-- **What a save does when it fails.** All files are kept, unless the header cannot be generated and there
is no formatter. Then the file is there and empty. -/
theorem files_of_error (h : b.save directory formatted w = .error e w') :
    (¬w.formats formatted ∧ b.dump = .error e →
      w.workspace.Puts w'.workspace (b.headerPath directory) "") ∧
    (¬(¬w.formats formatted ∧ b.dump = .error e) → w.workspace.Keeps w'.workspace) := by
  have hsaves := saves_save b directory formatted w
  rw [h] at hsaves
  cases hsaves with
  | noDirectory hmake =>
    exact ⟨fun h => absurd h.2 (dump_ne_file b _), fun _ => (grows_makeDirectories hmake).keeps⟩
  | notOpened hformats hmake hopen =>
    exact ⟨fun h => absurd h.2 (dump_ne_file b _), fun _ => (grows_makeDirectories hmake).keeps⟩
  | emptied hformats hmake hopen hdump =>
    exact ⟨fun _ => puts_openFile (grows_makeDirectories hmake) hopen,
      fun h => absurd ⟨hformats, hdump⟩ h⟩
  | notGenerated hformats hmake hdump =>
    exact ⟨fun h => absurd hformats h.1, fun _ => (grows_makeDirectories hmake).keeps⟩
  | formattedNotOpened hformats hmake hdump hsome hopen =>
    exact ⟨fun h => absurd hformats h.1, fun _ => (grows_makeDirectories hmake).keeps⟩

/-- **Whatever is saved has a header.** If the formatter lets it through, the file holds what is made of it. -/
theorem save_eq_ok (h : b.save directory true w = .ok () w') :
    ∃ text, b.dump = .ok text ∧ ∀ output, w.formatter.output? text = some output →
      w.workspace.Puts w'.workspace (b.headerPath directory) output := by
  obtain ⟨text, hdump, hplain, hformatted, -⟩ := files_of_ok h
  refine ⟨text, hdump, fun output houtput => ?_⟩
  by_cases hformats : w.formats true
  · exact hformatted hformats output houtput
  · have habsent : w.formatter = .absent := by simpa [World.formats] using hformats
    rw [habsent] at houtput
    cases houtput
    exact hplain hformats

section
variable {r : EStateM.Result Failure World Unit} (h : Saves b directory formatted w r)
include h

theorem Saves.formatter : (Session.finalWorld r).formatter = w.formatter := by
  cases h <;> rfl

theorem Saves.home : (Session.finalWorld r).workspace.home = w.workspace.home := by
  cases h with
  | noDirectory hmake => exact (grows_makeDirectories hmake).home
  | notOpened _ hmake => exact (grows_makeDirectories hmake).home
  | notGenerated _ hmake => exact (grows_makeDirectories hmake).home
  | refused _ hmake => exact (grows_makeDirectories hmake).home
  | formattedNotOpened _ hmake => exact (grows_makeDirectories hmake).home
  | emptied _ hmake hopen => exact (opened hopen).home.trans (grows_makeDirectories hmake).home
  | written _ hmake hopen => exact (opened hopen).home.trans (grows_makeDirectories hmake).home
  | formattedWritten _ hmake _ _ hopen =>
    exact (opened hopen).home.trans (grows_makeDirectories hmake).home

end

theorem keepsSetting_save (b : Builder) (directory : String) (formatted : Bool) :
    (b.save directory formatted).KeepsSetting :=
  ⟨fun w => (saves_save b directory formatted w).formatter,
    fun w => (saves_save b directory formatted w).home⟩

end Builder

end Corrections
