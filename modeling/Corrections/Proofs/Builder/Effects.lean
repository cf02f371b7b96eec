/-
  What a save does to the files.

  * `save_frame`: which files a save leaves alone, what the one file holds that it writes, and how the
    formatter is called.
  * `save_error_keeps_iff`: when a failed save keeps all files. A header that cannot be generated empties
    the file if there is no formatter, because the file is opened before.
-/
import Corrections.Binary64.Reading
import Corrections.Builder.Step
import Corrections.Proofs.Builder.Save

namespace Corrections

namespace Builder
variable {b : Builder} {directory : String} {formatted : Bool} {w w' : World} {e : Failure}

/-- The formatter is called at most once, and with the header. -/
theorem Saves.formatted_eq {r : EStateM.Result Failure World Unit}
    (h : Saves b directory formatted w r) :
    (Session.finalWorld r).formatted = w.formatted ∨
      w.formats formatted ∧ ∃ text, b.dump = .ok text ∧
        (Session.finalWorld r).formatted = w.formatted ++ [text] := by
  cases h with
  | noDirectory | notOpened | emptied | written | notGenerated => exact .inl rfl
  | refused hformats _ hdump => exact .inr ⟨hformats, _, hdump, rfl⟩
  | formattedNotOpened hformats _ hdump => exact .inr ⟨hformats, _, hdump, rfl⟩
  | formattedWritten hformats _ hdump => exact .inr ⟨hformats, _, hdump, rfl⟩

end Builder

/-! ## The whole effect -/

variable {b : Builder} {directory : String} {formatted : Bool} {w w' : World} {e : Failure}

/-- Whether or not a save succeeds, it leaves all files alone but the one that the path of the header leads
to. -/
theorem text?_save_of_ne (b : Builder) (directory : String) (formatted : Bool) (w : World) (q : Place)
    (hq : ((b.save directory formatted).after w).workspace.resolve? (b.headerPath directory) ≠ some q) :
    ((b.save directory formatted).after w).workspace.text? q = w.workspace.text? q := by
  cases hsave : b.save directory formatted w with
  | ok _ w₁ =>
    rw [Session.after_of_ok hsave] at hq ⊢
    obtain ⟨text, -, hplain, hsome, hnone⟩ := Builder.files_of_ok hsave
    by_cases hformats : w.formats formatted
    · cases houtput : w.formatter.output? text with
      | none => exact hnone hformats houtput q
      | some output => exact (hsome hformats output houtput).text?_eq_of_ne q hq
    · exact (hplain hformats).text?_eq_of_ne q hq
  | error e w₁ =>
    rw [Session.after_of_error hsave] at hq ⊢
    obtain ⟨hputs, hkeeps⟩ := Builder.files_of_error hsave
    by_cases hempty : ¬w.formats formatted ∧ b.dump = .error e
    · exact (hputs hempty).text?_eq_of_ne q hq
    · exact hkeeps hempty q

/-- **The effect of a save.** Whether or not it succeeds, it leaves all files alone but the one that the
path of the header leads to, and it calls the formatter at most once, with the header. When it succeeds,
that file holds the header, or what the formatter has written for it, or is as before if the formatter did not
end with 0 for this header. When it fails, the file is as before, unless there is no formatter and the header
cannot be generated. -/
theorem save_frame (b : Builder) (directory : String) (formatted : Bool) (w : World) :
    let w' := (b.save directory formatted).after w
    let path := b.headerPath directory
    (∀ q, w'.workspace.resolve? path ≠ some q → w'.workspace.text? q = w.workspace.text? q) ∧
    (w'.formatted = w.formatted ∨
      w.formats formatted ∧ ∃ text, b.dump = .ok text ∧ w'.formatted = w.formatted ++ [text]) ∧
    (b.save directory formatted w = .ok () w' → ∃ text, b.dump = .ok text ∧
      (¬w.formats formatted → w'.workspace.textAt? path = some text) ∧
      ∀ program, w.formatter = .runs program → formatted = true →
        (∀ output, program text = .ended 0 output → w'.workspace.textAt? path = some output) ∧
        ((∀ output, program text ≠ .ended 0 output) →
          ∀ q, w'.workspace.text? q = w.workspace.text? q)) ∧
    (∀ e, b.save directory formatted w = .error e w' →
      (¬w.formats formatted ∧ b.dump = .error e → w'.workspace.textAt? path = some "") ∧
      (¬(¬w.formats formatted ∧ b.dump = .error e) →
        ∀ q, w'.workspace.text? q = w.workspace.text? q)) := by
  intro w' path
  refine ⟨text?_save_of_ne b directory formatted w,
    (Builder.saves_save b directory formatted w).formatted_eq, ?_, ?_⟩
  · intro hsave
    obtain ⟨text, hdump, hplain, hsome, hnone⟩ := Builder.files_of_ok hsave
    refine ⟨text, hdump, fun hformats => (hplain hformats).textAt?_eq, ?_⟩
    intro program hformatter hformatted
    have hformats : w.formats formatted := ⟨hformatted, by simp [hformatter]⟩
    rw [hformatter] at hsome hnone
    refine ⟨fun output houtput => ?_, fun hrefused => hnone hformats ?_⟩
    · exact (hsome hformats output (Formatting.output?_eq_some_iff.2 houtput)).textAt?_eq
    · exact Option.eq_none_iff_forall_ne_some.2 fun output houtput =>
        hrefused output (Formatting.output?_eq_some_iff.1 houtput)
  · intro e hsave
    obtain ⟨hputs, hkeeps⟩ := Builder.files_of_error hsave
    exact ⟨fun hempty => (hputs hempty).textAt?_eq, hkeeps⟩

/-- **When a failed save keeps the files.** It does if there is a formatter, or if it is not the header that
fails, or if the file was there and empty already. In all other cases the file is emptied or made. -/
theorem save_error_keeps_iff (h : b.save directory formatted w = .error e w') :
    (∀ q, w'.workspace.text? q = w.workspace.text? q) ↔
      w.formats formatted ∨ b.dump ≠ .error e ∨
        ∃ p, w'.workspace.resolve? (b.headerPath directory) = some p ∧
          w.workspace.text? p = some "" := by
  obtain ⟨hputs, hkeeps⟩ := Builder.files_of_error h
  by_cases hempty : ¬w.formats formatted ∧ b.dump = .error e
  · show w.workspace.Keeps w'.workspace ↔ _
    rw [(hputs hempty).keeps_iff]
    simp [hempty.1, hempty.2]
  · refine iff_of_true (hkeeps hempty) ?_
    rw [not_and_or, not_not] at hempty
    exact hempty.imp_right .inl

/-- With a formatter, a header that was saved before is still there after its content was replaced by one
that has no code. -/
theorem save_unsupported_keeps_header :
    let b : Builder := ⟨"sf", .c, "", ⟨[("x", ⟨"x", .int, .scalar (.int 0), .scalar (.int 1), none⟩)]⟩,
      .category "x" [] none⟩
    let formatter := Formatter.runs fun text => .ended 0 ("// formatted\n" ++ text)
    let w := (b.save "corrections" true).after (.start formatter [])
    ∃ text e w', w.workspace.textAt? "corrections/sf.h" = some text ∧
      (b.setContent (.unsupported .formula)).save "corrections" true w = .error e w' ∧
      ∀ q, w'.workspace.text? q = w.workspace.text? q := by
  intro b formatter w
  have hfirst : (b.save "corrections" true).succeeds (.start formatter []) = true := by
    decide +kernel
  have hsecond : ((b.setContent (.unsupported .formula)).save "corrections" true).succeeds w = false := by
    decide +kernel
  obtain ⟨w₁, hw₁⟩ := Session.succeeds_iff.1 hfirst
  obtain ⟨e, w', hsave⟩ := Session.succeeds_eq_false_iff.1 hsecond
  obtain ⟨text, -, htext⟩ := Builder.save_eq_ok hw₁
  have hw : w = w₁ := Session.after_of_ok hw₁
  have hformats : w.formats true := by
    refine ⟨rfl, ?_⟩
    rw [(Builder.keepsSetting_save b "corrections" true).formatter]
    exact Formatter.noConfusion
  refine ⟨"// formatted\n" ++ text, e, w', ?_, hsave, (save_error_keeps_iff hsave).2 (.inl hformats)⟩
  rw [hw]
  exact (htext _ rfl).textAt?_eq

/-- **A failed save can destroy a header.** Without a formatter, the header that was saved before is empty
after its content was replaced by one that has no code. -/
theorem save_error_empties_header :
    ∃ one x, Binary64.read? "1.0" = some one ∧ Binary64.read? "1.5" = some x ∧
      let steps : List Step :=
        [.addVariable ⟨"real", "x", .scalar (.real (.zero false)), .scalar (.real one), []⟩,
          .setContent (.binning "x" (.listed [.scalar (.real (.zero false)), .scalar (.real one)])
            [.constant x] .clamp),
          .save "corrections" false, .setContent (.unsupported .formula)]
      let after := Builder.performAll steps (Builder.new "sf" .c) (.start .absent [])
      ∃ text e w', text ≠ "" ∧ after.2.workspace.textAt? "corrections/sf.h" = some text ∧
        after.1.save "corrections" false after.2 = .error e w' ∧
        w'.workspace.textAt? "corrections/sf.h" = some "" := by
  refine ⟨.ofRank false (1023 * 2 ^ 52), .ofRank false (1023 * 2 ^ 52 + 2 ^ 51), by decide +kernel,
    by decide +kernel, ?_⟩
  intro steps after
  have hbefore : (after.2.workspace.textAt? "corrections/sf.h").any (· != "") = true := by
    decide +kernel
  have hfails : (after.1.save "corrections" false).succeeds after.2 = false := by
    decide +kernel
  have hafter : ((after.1.save "corrections" false).after after.2).workspace.textAt?
      "corrections/sf.h" = some "" := by
    decide +kernel
  obtain ⟨text, htext, hne⟩ := (Option.any_eq_true _ _).1 hbefore
  obtain ⟨e, w', hsave⟩ := Session.succeeds_eq_false_iff.1 hfails
  rw [Session.after_of_error hsave] at hafter
  exact ⟨text, e, w', by simpa using hne, htext, hsave, hafter⟩

end Corrections
