/-
  Saves that say nothing.

  * `Formatting.Refusal`: the formatter has run, and it ended with a code other than 0. Only then nothing is
    written and nothing is said (`refusal_iff`).
  * `files_of_silent`: a save that succeeds and says nothing writes the header, or what the formatter makes of
    it, unless the formatter refuses the header.
  * `header_present_iff`: so the header is in its file after such a save exactly if it was not refused, or the
    same text was there before.
-/
import Corrections.Proofs.Builder.Behaviour
import Corrections.Proofs.Builder.Save

namespace Corrections

open Workspace (grows_makeDirectories puts_write)

namespace Formatting

/-- The formatter has refused the text: it has run, and its code is not 0. -/
def Refusal : Formatting → Prop
  | ended code _ => code ≠ 0
  | failed _ => False

theorem complaint_failed_ne_empty (status : Int) : (failed status).complaint ≠ "" := by
  simp [complaint]

/-- **Nothing is written and nothing is said** only about a refusal. -/
theorem refusal_iff (r : Formatting) : r.Refusal ↔ r.output? = none ∧ r.complaint = "" := by
  cases r with
  | ended code output => simp [Refusal, output?, complaint]
  | failed status => simp [Refusal, complaint_failed_ne_empty]

end Formatting

namespace Formatter
variable {formatter : Formatter} {formatted : Bool} {text output : String}

/-- A text that the file of a header may have: the header itself, or what the formatter writes for it. -/
def Presents (formatter : Formatter) (text content : String) : Prop :=
  content = text ∨ ∃ program code, formatter = .runs program ∧ program text = .ended code content

/-- The formatter is asked for, and it refuses the header. -/
def Refuses (formatter : Formatter) (formatted : Bool) (text : String) : Prop :=
  formatted = true ∧ ∃ program, formatter = .runs program ∧ (program text).Refusal

theorem presents_of_output? (h : formatter.output? text = some output) : formatter.Presents text output := by
  cases formatter with
  | absent => exact .inl (Option.some.inj h).symm
  | runs program => exact .inr ⟨program, 0, rfl, Formatting.output?_eq_some_iff.1 h⟩

/-- A formatter that is asked for refuses a header exactly if it neither gives a text for it nor a reason. -/
theorem refuses_iff :
    formatter.Refuses true text ↔ formatter.output? text = none ∧ formatter.complaint text = "" := by
  cases formatter with
  | absent => simp [Refuses, output?]
  | runs program => simp [Refuses, output?, complaint, Formatting.refusal_iff]

theorem Refuses.formats {w : World} (h : w.formatter.Refuses formatted text) : w.formats formatted := by
  obtain ⟨hformatted, program, hprogram, -⟩ := h
  exact ⟨hformatted, by simp [hprogram]⟩

end Formatter

variable {b : Builder} {directory : String} {formatted : Bool} {w w' : World}

/-- A save that succeeds and says nothing writes the header, unless it is refused. -/
theorem Builder.files_of_silent (h : b.save directory formatted w = .ok () w') (hsilent : w'.err = w.err) :
    ∃ text, b.dump = .ok text ∧
      (w.formatter.Refuses formatted text ∧ w.workspace.Keeps w'.workspace ∨
        ¬w.formatter.Refuses formatted text ∧ ∃ content, w.formatter.Presents text content ∧
          w.workspace.Puts w'.workspace (b.headerPath directory) content) := by
  have hsaves := saves_save b directory formatted w
  rw [h] at hsaves
  cases hsaves with
  | @written _ _ _ text hformats hmake hopen hdump =>
    exact ⟨text, hdump, .inr ⟨fun hrefuses => hformats hrefuses.formats, text, .inl rfl,
      puts_write (grows_makeDirectories hmake) hopen text⟩⟩
  | @refused _ text hformats hmake hdump houtput =>
    have hcomplaint : w.formatter.complaint text = "" := by
      rw [← String.append_right_inj w.err, String.append_empty]
      exact hsilent
    rw [hformats.1]
    exact ⟨text, hdump, .inl ⟨Formatter.refuses_iff.2 ⟨houtput, hcomplaint⟩,
      (grows_makeDirectories hmake).keeps⟩⟩
  | @formattedWritten _ _ _ text output hformats hmake hdump houtput hopen =>
    rw [hformats.1]
    refine ⟨text, hdump, .inr ⟨fun hrefuses => ?_, output, Formatter.presents_of_output? houtput,
      puts_write (grows_makeDirectories hmake) hopen output⟩⟩
    cases houtput.symm.trans (Formatter.refuses_iff.1 hrefuses).1

/-- **A save that says nothing has done its work, unless the formatter refused.** When a save succeeds and
prints nothing on the error stream, the header is in its file exactly if the formatter did not end with a code
other than 0, or if it was there before the save. After such a code all files are as they were. -/
theorem header_present_iff (h : b.save directory formatted w = .ok () w') (hsilent : w'.err = w.err) :
    ∃ text, b.dump = .ok text ∧
      ((∃ content, w.formatter.Presents text content ∧
          w'.workspace.textAt? (b.headerPath directory) = some content) ↔
        ¬w.formatter.Refuses formatted text ∨ ∃ p content, w.formatter.Presents text content ∧
          w'.workspace.resolve? (b.headerPath directory) = some p ∧
          w.workspace.text? p = some content) ∧
      (w.formatter.Refuses formatted text → w.workspace.Keeps w'.workspace) := by
  obtain ⟨text, hdump, ⟨hrefuses, hkeeps⟩ | ⟨hrefuses, content, hcontent, hputs⟩⟩ :=
    Builder.files_of_silent h hsilent
  · refine ⟨text, hdump, ?_, fun _ => hkeeps⟩
    simp only [hrefuses, not_true_eq_false, false_or, Workspace.textAt?, Option.bind_eq_some_iff, hkeeps _]
    constructor
    · rintro ⟨content, hcontent, p, hp, htext⟩
      exact ⟨p, content, hcontent, hp, htext⟩
    · rintro ⟨p, content, hcontent, hp, htext⟩
      exact ⟨content, hcontent, p, hp, htext⟩
  · exact ⟨text, hdump, iff_of_true ⟨content, hcontent, hputs.textAt?_eq⟩ (.inl hrefuses),
      fun hrefuses' => absurd hrefuses' hrefuses⟩

/-- A formatter that writes one line for every header. -/
theorem header_present_after_rewriting :
    let program : String → Formatting := fun text => if text = "" then .failed 1 else .ended 0 "#pragma once\n"
    let w := World.start (.runs program) []
    ∃ w' text content, (Builder.sample .constantBin).save "corrections" true w = .ok () w' ∧
      w'.err = w.err ∧ (Builder.sample .constantBin).dump = .ok text ∧
      w.formatter.Presents text content ∧ w'.workspace.textAt? "corrections/sf.h" = some content := by
  intro program w
  have hsucceeds : ((Builder.sample .constantBin).save "corrections" true).succeeds w = true := by
    decide +kernel
  have hsilent : (((Builder.sample .constantBin).save "corrections" true).after w).err = w.err := by
    decide +kernel
  obtain ⟨w', hsave⟩ := Session.succeeds_iff.1 hsucceeds
  rw [Session.after_of_ok hsave] at hsilent
  obtain ⟨text, hdump, hiff, -⟩ := header_present_iff hsave hsilent
  have hrefuses : ¬w.formatter.Refuses true text := by
    rintro ⟨-, _, ⟨rfl⟩, hrefusal⟩
    revert hrefusal
    simp only [program]
    split_ifs <;> simp [Formatting.Refusal]
  obtain ⟨content, hcontent, htext⟩ := hiff.2 (.inl hrefuses)
  exact ⟨w', text, content, hsave, hsilent, hdump, hcontent, htext⟩

/-- **A header that the formatter refuses is lost without a word.** -/
theorem refused_header_silently_absent :
    ∃ one x, Binary64.read? "1.0" = some one ∧ Binary64.read? "1.5" = some x ∧
      let steps : List Step :=
        [.addVariable ⟨"real", "x", .scalar (.real (.zero false)), .scalar (.real one), []⟩,
          .setContent (.binning "x" (.listed [.scalar (.real (.zero false)), .scalar (.real one)])
            [.constant x] .clamp)]
      let after := Builder.performAll steps (Builder.new "sf" .c) (.start (.runs (.ended 1)) [])
      ∃ text w', after.1.dump = .ok text ∧ after.1.save "corrections" true after.2 = .ok () w' ∧
        w'.err = "" ∧ w'.workspace.textAt? "corrections/sf.h" = none := by
  refine ⟨.ofRank false (1023 * 2 ^ 52), .ofRank false (1023 * 2 ^ 52 + 2 ^ 51), by decide +kernel,
    by decide +kernel, ?_⟩
  intro steps after
  have hdump : after.1.dump.isOk = true := by
    decide +kernel
  have hsucceeds : (after.1.save "corrections" true).succeeds after.2 = true := by
    decide +kernel
  have hsilent : ((after.1.save "corrections" true).after after.2).err = "" := by
    decide +kernel
  have habsent : ((after.1.save "corrections" true).after after.2).workspace.textAt?
      "corrections/sf.h" = none := by
    decide +kernel
  obtain ⟨text, htext⟩ := Builder.exists_dump hdump
  obtain ⟨w', hsave⟩ := Session.succeeds_iff.1 hsucceeds
  rw [Session.after_of_ok hsave] at hsilent habsent
  exact ⟨text, w', htext, hsave, hsilent, habsent⟩

end Corrections
