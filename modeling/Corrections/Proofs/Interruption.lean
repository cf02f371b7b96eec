/-
  A run that fails keeps what is finished.

  * `announcements text` are the lines of a text that announce a correction.
  * `Announces w w' found`: lines were printed between the worlds `w` and `w'`, and `found` are the
    announcements among them. Processing a correction announces this one and no other.
  * `Correction.processAll_eq_error`: the first failure ends the run, and the corrections in front of it
    are done.
  * `run_error_keeps_finished`: what a failed run has printed and which files it leaves.
-/
import Corrections.Proofs.Builder.Effects
import Corrections.Proofs.HeaderPlace
import Corrections.Proofs.Run

namespace Corrections

open Session (printed)

/-! ## Announcements -/

/-- The lines of a text. -/
def Text.lines (text : String) : List String := (text.toList.splitOn '\n').map String.ofList

/-- The lines of a text that announce a correction. -/
def announcements (text : String) : List String :=
  (Text.lines text).filter fun line => "Processing:".toList.isPrefixOf line.toList

theorem announcements_append (front back : String) :
    announcements (front ++ "\n" ++ back) = announcements front ++ announcements back := by
  have hlines : Text.lines (front ++ "\n" ++ back) = Text.lines front ++ Text.lines back := by
    simp only [Text.lines, String.toList_append, List.append_assoc, ← List.map_append]
    exact congrArg _ (Text.splitOn_append_cons _ _)
  rw [announcements, hlines, List.filter_append]
  rfl

/-- A correction whose name is on one line is announced in one line. -/
theorem announcements_announcement {c : Correction} (h : '\n' ∉ c.name.toList) :
    announcements c.announcement = [c.announcement] := by
  have hline : '\n' ∉ c.announcement.toList := by
    rw [Correction.announcement, String.toList_append, List.mem_append]
    rintro (h' | h')
    · simp at h'
    · exact h h'
  have hlines : Text.lines c.announcement = [c.announcement] := by
    rw [Text.lines, Text.splitOn_of_notMem hline, List.map_singleton, String.ofList_toList]
  rw [announcements, hlines]
  simp [Correction.announcement]

/-- Lines were printed between two worlds, and `found` are the announcements among them. -/
def Announces (w w' : World) (found : List String) : Prop :=
  ∃ lines, w'.out = (printed w lines).out ∧ lines.flatMap announcements = found

namespace Announces
variable {w w₁ w' : World} {found found' : List String}

theorem trans (h : Announces w w₁ found) (h' : Announces w₁ w' found') :
    Announces w w' (found ++ found') := by
  obtain ⟨lines, hout, rfl⟩ := h
  obtain ⟨lines', hout', rfl⟩ := h'
  refine ⟨lines ++ lines', ?_, List.flatMap_append⟩
  rw [hout', printed, hout, ← Session.printed_printed]
  rfl

theorem exists_text (h : Announces w w' found) :
    ∃ text, w'.out = w.out ++ text ∧ announcements text = found := by
  obtain ⟨lines, hout, rfl⟩ := h
  rw [hout]
  clear hout
  induction lines generalizing w with
  | nil => exact ⟨"", by simp [printed], rfl⟩
  | cons line rest ih =>
    obtain ⟨text, htext, hfound⟩ := ih (w := printed w [line])
    refine ⟨line ++ "\n" ++ text, ?_, ?_⟩
    · rw [← List.singleton_append, ← Session.printed_printed, htext]
      simp [printed, String.append_assoc]
    · rw [announcements_append, hfound, List.flatMap_cons]

end Announces

theorem announcements_warnings (formatted : Bool) :
    (Builder.warnings formatted).flatMap announcements = [] := by
  cases formatted with
  | false => rfl
  | true => decide +kernel

theorem announcements_notices (vs : List Variable) :
    (vs.flatMap Variable.notices).flatMap announcements = [] := by
  have hnotices : ∀ v : Variable, v.notices.flatMap announcements = [] := by
    intro v
    unfold Variable.notices
    split_ifs
    · decide +kernel
    · rfl
  induction vs with
  | nil => rfl
  | cons v rest ih => rw [List.flatMap_cons, List.flatMap_append, hnotices, ih, List.append_nil]

theorem Builder.Saves.announces {b : Builder} {directory : String} {formatted : Bool} {w : World}
    {r : EStateM.Result Failure World Unit} (h : b.Saves directory formatted w r) :
    Announces w (Session.finalWorld r) [] := by
  cases h with
  | noDirectory | notGenerated | refused | formattedNotOpened | formattedWritten => exact ⟨[], rfl, rfl⟩
  | notOpened | emptied | written => exact ⟨warnings formatted, rfl, announcements_warnings formatted⟩

namespace Correction
variable {c : Correction} {cs : List Correction} {w w' : World} {e : Failure}

theorem announces_announced (c : Correction) (w : World) :
    Announces w (c.announced w) (announcements c.announcement) := by
  refine ⟨_, rfl, ?_⟩
  rw [List.flatMap_cons, announcements_notices, List.append_nil]

/-- Processing a correction announces it, whether or not it succeeds. -/
theorem announces_process (c : Correction) (w : World) :
    Announces w (c.process.after w) (announcements c.announcement) := by
  have hannounced := announces_announced c w
  rw [Session.after, process_eq]
  cases c.builder? with
  | error e => exact hannounced
  | ok b =>
    have hsaves := b.saves_save Builder.defaultDirectory true (c.announced w)
    simpa using hannounced.trans hsaves.announces

theorem announces_processAll (h : processAll cs w = .ok () w') :
    Announces w w' (cs.flatMap fun c => announcements c.announcement) := by
  induction cs generalizing w with
  | nil =>
    cases h
    exact ⟨[], rfl, rfl⟩
  | cons c rest ih =>
    obtain ⟨_, w₁, hprocess, hrest⟩ := Session.bind_eq_ok_iff.1 h
    have hfirst := announces_process c w
    rw [Session.after_of_ok hprocess] at hfirst
    exact hfirst.trans (ih hrest)

theorem announcements_all (h : ∀ c ∈ cs, '\n' ∉ c.name.toList) :
    (cs.flatMap fun c => announcements c.announcement) = cs.map (·.announcement) := by
  rw [List.map_eq_flatMap]
  exact List.flatMap_congr fun c hc => announcements_announcement (h c hc)

/-! ## The first failure -/

/-- The first failure ends the processing, and the corrections in front of it are done. -/
theorem processAll_eq_error (h : processAll cs w = .error e w') :
    ∃ before c after w₁, cs = before ++ c :: after ∧ processAll before w = .ok () w₁ ∧
      c.process w₁ = .error e w' := by
  induction cs generalizing w with
  | nil => cases h
  | cons c rest ih =>
    cases hprocess : c.process w with
    | error e' w₁ =>
      rw [processAll, Session.bind_of_error hprocess] at h
      cases h
      exact ⟨[], c, rest, w, rfl, rfl, hprocess⟩
    | ok _ w₁ =>
      rw [processAll, Session.bind_of_ok hprocess] at h
      obtain ⟨before, c', after, w₂, rfl, hbefore, herror⟩ := ih h
      exact ⟨c :: before, c', after, w₂, rfl, by rw [processAll, Session.bind_of_ok hprocess, hbefore],
        herror⟩

/-- **What a correction leaves that cannot be processed.** All files are kept, but without a formatter
its header may be there and empty. -/
theorem text?_of_process_error (hname : '/' ∉ c.name.toList) (h : c.process w = .error e w')
    (p : Place) :
    w'.workspace.text? p = w.workspace.text? p ∨
      p = headerPlace w.workspace.home c.name ∧ w.formatter = .absent ∧
        w'.workspace.text? p = some "" := by
  have hhome := ((keepsSetting_process c).of_error h).2
  rw [process_eq] at h
  cases hb : c.builder? with
  | error e' =>
    rw [hb] at h
    cases h
    exact .inl rfl
  | ok b =>
    rw [hb] at h
    obtain ⟨hputs, hkeeps⟩ := Builder.files_of_error h
    by_cases hempty : ¬(c.announced w).formats true ∧ b.dump = .error e
    · obtain ⟨p', hp', htext⟩ := hputs hempty
      have hplace : p' = headerPlace w.workspace.home c.name := by
        rw [← name_of_builder? hb] at hname ⊢
        rw [resolve?_headerFile hname hp', hhome]
      have habsent : w.formatter = .absent := by
        simpa [World.formats, announced] using hempty.1
      by_cases hp : p' = p
      · exact .inr ⟨hp ▸ hplace, habsent, by rw [htext, if_pos hp]⟩
      · left
        rw [htext, if_neg hp]
        rfl
    · exact .inl (hkeeps hempty p)

end Correction

/-- **A run that fails keeps what is finished.** The run fails at some selected correction `c`. The same run
on the corrections `before` it succeeds, exactly these and `c` are announced in this order, one line for
each unless a name has line breaks of its own, and the files are those of the shorter run. Only without a
formatter the header of `c` may be there in addition or be emptied. -/
theorem run_error_keeps_finished {line : List String} {options : CommandLine.Options}
    {corrections : List Correction} {w w' : World} {e : Failure}
    (hline : CommandLine.parse line = .ok options)
    (hnames : ∀ c ∈ corrections, '/' ∉ c.name.toList) (h : run line corrections w = .error e w') :
    ∃ before c after w₁, corrections.filter (options.selects ·.name) = before ++ c :: after ∧
      run line before w = .ok () w₁ ∧ c.process w₁ = .error e w' ∧
      (∃ text, w'.out = w.out ++ text ∧
        announcements text = ((before ++ [c]).flatMap fun c => announcements c.announcement) ∧
        ((∀ c' ∈ before ++ [c], '\n' ∉ c'.name.toList) →
          announcements text = (before ++ [c]).map (·.announcement))) ∧
      ∀ p, w'.workspace.text? p = w₁.workspace.text? p ∨
        p = headerPlace w.workspace.home c.name ∧ w.formatter = .absent ∧
          w'.workspace.text? p = some "" := by
  rw [run_eq hline] at h
  obtain ⟨before, c, after, w₁, hselected, hbefore, hprocess⟩ := Correction.processAll_eq_error h
  have hmem : ∀ c' ∈ before ++ [c], c' ∈ corrections ∧ options.selects c'.name = true := by
    intro c' hc'
    have hc : c' ∈ corrections.filter (options.selects ·.name) := by
      rw [hselected, List.append_cons]
      exact List.mem_append_left _ hc'
    simpa using hc
  have hagain : before.filter (options.selects ·.name) = before :=
    List.filter_eq_self.2 fun c' hc' => (hmem c' (List.mem_append_left _ hc')).2
  have hrun : run line before w = .ok () w₁ := by
    rw [run_eq hline, hagain, hbefore]
  obtain ⟨hformatter, hhome⟩ := (Correction.keepsSetting_processAll before).of_ok hbefore
  have hannounces := Correction.announces_process c w₁
  rw [Session.after_of_error hprocess] at hannounces
  obtain ⟨text, hout, htext⟩ := ((Correction.announces_processAll hbefore).trans hannounces).exists_text
  have hfound : announcements text = (before ++ [c]).flatMap fun c => announcements c.announcement := by
    rw [htext, List.flatMap_append, List.flatMap_singleton]
  have hname := hnames c (hmem c (by simp)).1
  refine ⟨before, c, after, w₁, hselected, hrun, hprocess, ⟨text, hout, hfound, fun hlines => ?_⟩,
    fun p => ?_⟩
  · rw [hfound, Correction.announcements_all hlines]
  · have hp := Correction.text?_of_process_error hname hprocess p
    rw [hformatter, hhome] at hp
    exact hp

/-- The second of two corrections with the same name cannot be compiled, and there is no formatter. -/
theorem run_fails_at_repeated_name :
    let correction := fun name data => (⟨name, none, [⟨"n", "int"⟩],
      ⟨[("n", ⟨.scalar (.int 0), .scalar (.int 1), []⟩)]⟩, data⟩ : Correction)
    let good := correction "sf" (.category "n" [] none)
    let bad := correction "sf" (.unsupported .formula)
    let line := ["in.json", "--corrections", "sf"]
    let w := World.start .absent ["home"]
    ∃ e w' before c after w₁, run line [good, correction "id" (.unsupported .formula), bad] w = .error e w' ∧
      [good, bad] = before ++ c :: after ∧ run line before w = .ok () w₁ ∧
      c.process w₁ = .error e w' ∧
      announcements w'.out = (before ++ [c]).map (·.announcement) ∧
      ∀ p, p ≠ ["home", "corrections", "sf.h"] → w'.workspace.text? p = w₁.workspace.text? p := by
  intro correction good bad line w
  have hline : CommandLine.parse line = .ok ⟨"in.json", some ["sf"]⟩ := by
    decide +kernel
  have hfails : (run line [good, correction "id" (.unsupported .formula), bad]).succeeds w = false := by
    decide +kernel
  obtain ⟨e, w', hrun⟩ := Session.succeeds_eq_false_iff.1 hfails
  obtain ⟨before, c, after, w₁, hselected, hbefore, hprocess, ⟨text, hout, -, htext⟩, hfiles⟩ :=
    run_error_keeps_finished hline (by simp [good, bad, correction]) hrun
  have hnames : ∀ c' ∈ before ++ c :: after, c'.name = "sf" := by
    rw [← show [good, bad] = before ++ c :: after from hselected]
    simp [good, bad, correction]
  refine ⟨e, w', before, c, after, w₁, hrun, hselected, hbefore, hprocess, ?_, fun p hp => ?_⟩
  · rw [← htext fun c' hc' => by simp [hnames c' (by grind)], hout]
    exact congrArg announcements String.empty_append
  · rcases hfiles p with hsame | ⟨hplace, -, -⟩
    · exact hsame
    · rw [hnames c (by simp)] at hplace
      exact absurd hplace hp

end Corrections
