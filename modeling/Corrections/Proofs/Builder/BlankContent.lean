/-
  Which contents a builder takes for missing.

  * `Builder.body_eq_noContent_iff`: a builder with a parameter takes its content for missing if it is blank.
  * `Content.isBlank_iff_zero`: of the contents that have code, only the two zeros are blank.
  * `answer_body_iff`: so after a content was set, its code is what is answered, unless it is a zero. Then the
    builder answers that there is no content.
-/
import Corrections.Proofs.Acceptance
import Corrections.Proofs.Builder.Behaviour
import Mathlib.Algebra.GroupWithZero.Nat

namespace Corrections

theorem Binary64.isZero_iff {x : Binary64} : x.isZero = true ↔ ∃ negative, x = .zero negative := by
  have hsigned : ∀ negative n, signed negative n = 0 ↔ n = 0 := by
    intro negative n
    cases negative <;> simp [signed]
  constructor
  · intro h
    unfold isZero at h
    cases x with
    | nan => simp [position?] at h
    | infinity negative =>
      rw [position?, beq_iff_eq, Option.some.injEq, hsigned] at h
      exact absurd h finiteRanks_pos.ne'
    | finite negative rank =>
      rw [position?, beq_iff_eq, Option.some.injEq, hsigned] at h
      exact ⟨negative, congrArg (Binary64.finite negative) (Fin.ext h)⟩
  · rintro ⟨negative, rfl⟩
    cases negative <;> rfl

/-- Two notions of what is absent differ only in the zeros. -/
theorem Content.isBlank_iff_zero {target : Target} {c : Content} {text : String}
    (h : c.compile target = .ok text) :
    c.isBlank = true ↔ ∃ negative, c = .constant (.zero negative) := by
  rcases Content.wellFormed_of_compile h with x | ⟨input, items, fallback⟩ | ⟨-, -, -, -⟩
  · have hblank : (Content.constant x).isBlank = x.isZero := rfl
    simp [hblank, Binary64.isZero_iff]
  · simp [Content.isBlank]
  · simp [Content.isBlank]

namespace Builder

theorem body_eq_noContent_iff {b : Builder} :
    b.body = .error .noContent ↔ b.params.entries ≠ [] ∧ b.content.isBlank = true := by
  unfold body
  by_cases hparams : b.params.entries = []
  · simp [hparams]
  · cases hblank : b.content.isBlank with
    | true => simp [hparams]
    | false => cases b.content.compile b.target <;> simp [hparams, Except.mapError]

/-- The answer of a builder that is asked for the code of its content. -/
theorem perform_body (b : Builder) (w : World) : (perform .body b w).1 = b.body.map .text := by
  unfold perform step
  cases h : b.body with
  | ok text => simp [Session.bind_of_ok (Session.ofExcept_ok text w), Except.map]
  | error e => simp [Session.bind_of_error (Session.ofExcept_error e w), Except.map]

end Builder

/-- **The code of a content that was set.** A builder with a parameter that is given a content with code answers
with this code, unless the content is a zero of either sign. Of a zero it says that it is missing. -/
theorem answer_body_iff {b : Builder} (hparams : b.params.entries ≠ []) {c : Content} {text : String}
    (hcode : c.compile b.target = .ok text) (w w' : World) :
    let answer := (Builder.perform .body (Builder.perform (.setContent c) b w).2.1 w').1
    (answer = .ok (.text text) ↔ ∀ negative, c ≠ .constant (.zero negative)) ∧
      (answer = .error .noContent ↔ ∃ negative, c = .constant (.zero negative)) := by
  intro answer
  have hset : answer = (b.setContent c).body.map .text := by
    rw [← Builder.perform_body _ w']
    rfl
  have hblank := Content.isBlank_iff_zero hcode
  rw [hset]
  by_cases hzero : ∃ negative, c = .constant (.zero negative)
  · have hbody : (b.setContent c).body = .error .noContent :=
      Builder.body_eq_noContent_iff.2 ⟨hparams, hblank.2 hzero⟩
    rw [hbody]
    constructor
    · exact iff_of_false (by simp [Except.map]) fun h => h _ hzero.choose_spec
    · exact iff_of_true rfl hzero
  · have hfalse : c.isBlank = false := by
      rw [← Bool.not_eq_true]
      exact fun h => hzero (hblank.1 h)
    have hbody : (b.setContent c).body = .ok text :=
      Builder.body_eq_ok_iff.2 ⟨hparams, hfalse, hcode⟩
    rw [hbody]
    constructor
    · exact iff_of_true rfl fun negative h => hzero ⟨negative, h⟩
    · exact iff_of_false (by simp [Except.map]) hzero

/-- The smallest positive number and NaN are no zeros. -/
theorem answer_body_not_zero :
    let b := Builder.sample (.datum (.scalar .null))
    let w := World.start .absent []
    let answer := fun c => (Builder.perform .body (Builder.perform (.setContent c) b w).2.1 w).1
    b.params.entries ≠ [] ∧ answer (.constant (.ofRank false 1)) = .ok (.text "return 5e-324") ∧
      answer (.constant .nan) = .ok (.text "return nan") := by
  intro b w answer
  have hparams : b.params.entries ≠ [] := List.cons_ne_nil _ _
  have hcode : (Content.constant (.ofRank false 1)).compile b.target = .ok "return 5e-324" := by
    decide +kernel
  refine ⟨hparams, (answer_body_iff hparams hcode w w).1.2 fun negative h => ?_,
    (answer_body_iff hparams rfl w w).1.2 fun negative h => ?_⟩
  · simp only [Content.datum.injEq, Datum.scalar.injEq, Scalar.real.injEq] at h
    cases negative <;> exact absurd h (by decide +kernel)
  · cases h

/-- **A zero is taken for missing.** It has code, but the builder that it was given answers that there is no
content. -/
theorem zero_content_missing :
    ∃ zero one, Binary64.read? "0.0" = some zero ∧ Binary64.read? "1.0" = some one ∧
      let steps : List Step :=
        [.addVariable ⟨"real", "x", .scalar (.real zero), .scalar (.real one), []⟩,
          .setContent (.constant zero)]
      let after := Builder.performAll steps (Builder.new "sf" .c) (.start .absent [])
      after.1.params.entries ≠ [] ∧
        (Content.constant zero).compile after.1.target = .ok "return 0.0" ∧
        (Builder.perform .body after.1 after.2).1 = .error .noContent := by
  refine ⟨.zero false, .ofRank false (1023 * 2 ^ 52), by decide +kernel, by decide +kernel, ?_⟩
  intro steps after
  have hb : after.1 = Builder.sample (.constant (.zero false)) := by
    rw [show after.1 = steps.foldl Builder.after _ from Builder.performAll_builder _ _ _]
    rfl
  rw [hb, Builder.perform_body]
  exact ⟨List.cons_ne_nil _ _, by decide +kernel, rfl⟩

end Corrections
