/-
  What the function of a header does.

  * `Builder.call_function`: a call with a parameter outside of its bounds reports the first such
    parameter and stops. Any other call goes on with the statements of the content.
  * `Builder.returns_of_hasValue`: these return the value of the content.
  * `Builder.sample` is a correction of one parameter with any content.
-/
import Corrections.Proofs.Builder.Function
import Corrections.Proofs.Builder.History
import Corrections.Proofs.Meaning

namespace Corrections

open Code

namespace Builder
variable {b : Builder}

/-- Names of parameters that are no enumerations. -/
def Declares (b : Builder) (q : String) : Prop :=
  ∃ v ∈ b.params.values, v.isString = false ∧ v.name = q

theorem Declares.mem {q : String} (hq : b.Declares q) : q ∈ b.params.values.map Variable.name := by
  obtain ⟨v, hv, -, rfl⟩ := hq
  exact List.mem_map_of_mem hv

theorem map_name_parameters (b : Builder) :
    b.parameters.map Parameter.name = b.params.values.map Variable.name := by
  simp [parameters]

/-- **The first parameter outside of its bounds is reported.** Without one, the statements of the content
follow. -/
theorem call_function {convert : Conversion} {names : Names} {arguments : List Binary64}
    (hlen : arguments.length = b.parameters.length) :
    let values := b.function.binding convert names arguments
    b.function.call convert names arguments =
      match b.params.values.find? (·.outside values) with
      | some v => b.target.report v.name
      | none => execBlock values (b.content.program b.target ++ b.target.exhausted) [] := by
  intro values
  have hbody : b.function.body = b.checks ++ (b.content.program b.target ++ b.target.exhausted) :=
    List.append_assoc _ _ _
  rw [Function.call_eq (f := b.function) hlen, hbody]
  exact execBlock_checks values b.target b.params.values _

end Builder

/-- The correction `sf` of one parameter from 0 to 1. -/
def Builder.sample (content : Content) : Builder :=
  ⟨"sf", .c, "", ⟨[("x", ⟨"x", .float, .scalar (.real (.zero false)),
    .scalar (.real (.ofRank false (1023 * 2 ^ 52))), none⟩)]⟩, content⟩

/-- A binning with a single bin, from 0 to 1. -/
def Content.oneBin (c : Content) : Content :=
  .binning "x" (.ofNumbers [.zero false, .ofRank false (1023 * 2 ^ 52)]) [c] .clamp

/-- A single bin with the value 1.5. -/
def Content.constantBin : Content := .oneBin (.constant (.ofRank false (1023 * 2 ^ 52 + 2 ^ 51)))

theorem Builder.exists_dump {b : Builder} (h : b.dump.isOk = true) : ∃ text, b.dump = .ok text := by
  cases hdump : b.dump with
  | ok text => exact ⟨text, rfl⟩
  | error e =>
    rw [hdump] at h
    cases h

end Corrections
