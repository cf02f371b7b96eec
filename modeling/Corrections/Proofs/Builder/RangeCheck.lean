/-
  The check of the bounds of a parameter.

  * `Bound` is a bound as generated code can compare with it: a number, an integer, or one of the two
    named constants. An integer counts as the number nearest to it.
  * `Variable.check target v` are the statements that check the bounds of `v`, and `v.outside names` says
    that they fail.
  * `execBlock_checks`: the checks of parameters in a row report the first one that is outside of its
    bounds, and otherwise nothing happens in them.
-/
import Corrections.Builder.Header
import Corrections.Proofs.Emission

namespace Corrections

open Code

/-! ## Bounds -/

/-- The number nearest to an integer. -/
def Binary64.ofInt (n : Int) : Binary64 := .ofDecimal (decide (n < 0)) n.natAbs 0

/-- A bound of a parameter. -/
inductive Bound where
  | number (x : Binary64)
  | integer (n : Int)
  | lowest
  | highest
  deriving DecidableEq

namespace Bound

/-- The bound that a value stands for. -/
def ofDatum? : Datum → Option Bound
  | .scalar (.real x) => if x.isFinite then some (.number x) else none
  | .scalar (.int n) => some (.integer n)
  | .scalar (.str s) =>
    if s = "-FLT_MAX" then some .lowest else if s = "FLT_MAX" then some .highest else none
  | _ => none

def value (names : Names) : Bound → Binary64
  | .number x => x
  | .integer n => .ofInt n
  | .lowest => (names "FLT_MAX").neg
  | .highest => names "FLT_MAX"

def literal : Bound → Literal
  | .number x => .ofNumber "" x
  | .integer n => ⟨decide (n < 0), .number (toString n.natAbs)⟩
  | .lowest => ⟨true, .name "FLT_MAX"⟩
  | .highest => ⟨false, .name "FLT_MAX"⟩

theorem value?_literal (names : Names) (β : Bound) : β.literal.value? names = some (β.value names) := by
  have hname : constant? "FLT_MAX" = none := by decide
  cases β with
  | number x => exact Literal.value?_ofNumber names (.inl rfl) x
  | integer n =>
    rw [literal, Literal.value?, Atom.value?, constant?_toString, Option.map_some, value,
      Binary64.ofInt]
    by_cases hn : n < 0
    · simp [hn, Binary64.neg_ofDecimal]
    · simp [hn]
  | lowest => simp [literal, Literal.value?, Atom.value?, hname, value]
  | highest => simp [literal, Literal.value?, Atom.value?, hname, value]

theorem readsAs_integer (n : Int) : ReadsAs (toString n) (Bound.integer n).literal.tokens := by
  have hdigits := readsAs_index n.natAbs
  by_cases hn : n < 0
  · have htext : toString n = "-" ++ toString n.natAbs := by
      obtain ⟨m, rfl⟩ := Int.eq_negSucc_of_lt_zero hn
      rfl
    have hminus : Reads "-" [.symbol .minus] := by decide
    rw [htext]
    simpa [literal, Literal.tokens, Atom.token, hn] using hminus.readsAs hdigits
  · have htext : toString n = toString n.natAbs := by
      obtain ⟨m, rfl⟩ := Int.eq_ofNat_of_zero_le (Int.not_lt.1 hn)
      rfl
    rw [htext]
    simpa [literal, Literal.tokens, Atom.token, hn] using hdigits

theorem readsAs_text {d : Datum} {β : Bound} (h : ofDatum? d = some β) :
    ReadsAs d.text β.literal.tokens := by
  have hname : ReadsAs "FLT_MAX" [.name "FLT_MAX"] := readsAs_name (by decide)
  unfold ofDatum? at h
  split at h
  · next x =>
    obtain ⟨-, rfl⟩ : x.isFinite = true ∧ number x = β := by simpa using h
    have hx := readsAs_ofNumber (.inl rfl) x
    rwa [String.append_empty] at hx
  · next n =>
    cases h
    exact readsAs_integer n
  · next s =>
    by_cases hlowest : s = "-FLT_MAX"
    · rw [if_pos hlowest] at h
      cases h
      have hminus : Reads "-" [.symbol .minus] := by decide
      have htext : (Datum.scalar (.str s)).text = "-" ++ "FLT_MAX" := hlowest
      rw [htext]
      exact hminus.readsAs hname
    · rw [if_neg hlowest] at h
      obtain ⟨rfl, rfl⟩ : s = "FLT_MAX" ∧ highest = β := by simpa using h
      exact hname
  · cases h

end Bound

/-! ## The statements of a check -/

/-- What is printed when a parameter is outside of its bounds. -/
def outOfBoundsMessage (q : String) : String := "ERROR: " ++ q ++ " is out of bounds.\\n"

namespace Variable

/-- The bounds of a parameter, unless it is an enumeration. -/
def bounds? (v : Variable) : Option (Bound × Bound) :=
  if v.isString then none
  else do return (← Bound.ofDatum? v.min, ← Bound.ofDatum? v.max)

/-- The parameter is outside of its bounds. -/
def outside (names : Names) (v : Variable) : Bool :=
  match v.bounds? with
  | some (lower, upper) =>
    (names v.name).lt (lower.value names) || (upper.value names).lt (names v.name)
  | none => false

/-- The statements that check the bounds of a parameter. -/
def check (target : Target) (v : Variable) : Block :=
  match v.bounds? with
  | some (lower, upper) =>
    [.ifThen ⟨⟨v.name, .less, .literal lower.literal⟩, [⟨v.name, .greater, .literal upper.literal⟩]⟩
      (Binning.failure v.name target), .empty]
  | none => []

end Variable

/-- A comparison of a parameter with a bound. -/
theorem reads_limit {q relation limit s : String} {r : Relation} {bound ts : List Token}
    (hq : Identifier q) (hrelation : Reads relation [.symbol r.symbol])
    (hdelimits : delimits relation = true) (hlimit : ReadsAs limit bound) (hs : delimits s = true)
    (h : Reads s ts) :
    Reads (q ++ (relation ++ (limit ++ s))) (.name q :: .symbol r.symbol :: bound ++ ts) :=
  hq.readsAs _ _ (delimits_append hdelimits _) (hrelation.append (hlimit s ts hs h))

/-- The tokens of the check of a parameter, with those of its bounds. -/
def checkTokens (q : String) (lower upper : List Token) (target : Target) : List Token :=
  [.keyword .if_, .symbol .parenOpen, .name q, .symbol .less] ++ lower ++
    [.symbol .or, .name q, .symbol .greater] ++ upper ++
    [.symbol .parenClose, .symbol .braceOpen] ++ blockTokens (Binning.failure q target) ++
    [.symbol .braceClose, .symbol .semicolon]

namespace Builder
variable {b : Builder} {v : Variable}

/-- The check of a parameter, whatever its bounds are. -/
theorem reads_validationText_of_bounds {lower upper : List Token} (hstring : v.isString = false)
    (hq : Identifier v.name) (hlower : ReadsAs v.min.text lower) (hupper : ReadsAs v.max.text upper) :
    Reads (b.validationText v) (checkTokens v.name lower upper b.target) := by
  have hend : Reads ("; \x7d;\n" ++ "               ")
      [.symbol .semicolon, .symbol .braceClose, .symbol .semicolon] := by decide
  have hfail := (by decide : Reads ("\n" ++ "                    ") []).append
    (b.target.reads_failCode.append hend)
  have hblock := (by decide : Reads ") \x7b " [.symbol .parenClose, .symbol .braceOpen]).append
    ((reads_message hq).append hfail)
  have habove := reads_limit hq (by decide : Reads " > " [.symbol Relation.greater.symbol])
    (by decide) hupper (delimits_append (by decide) _) hblock
  have hbelow := reads_limit hq (by decide : Reads " < " [.symbol Relation.less.symbol]) (by decide)
    hlower (delimits_append (by decide) _) ((by decide : Reads " || " [.symbol .or]).append habove)
  have hif := (by decide : Reads ("\n" ++ "                    if (")
    [.keyword .if_, .symbol .parenOpen]).append hbelow
  have hcut : ") \x7b fprintf(stderr, \"ERROR: " = ") \x7b " ++ "fprintf(stderr, \"ERROR: " := by decide
  have hcut' : " is out of bounds.\\n\");\n" = " is out of bounds.\\n\");" ++ "\n" := by decide
  rw [validationText, hstring, if_neg Bool.false_ne_true, hcut, hcut']
  simp only [checkTokens, Relation.symbol, blockTokens, Statement.tokens, Binning.failure,
    List.append_assoc, List.cons_append, List.nil_append, String.append_assoc] at hif ⊢
  exact hif

theorem reads_validationText (hv : v.isString = false → InputName v.name ∧ v.bounds?.isSome = true) :
    Reads (b.validationText v) (blockTokens (v.check b.target)) := by
  cases hstring : v.isString with
  | true =>
    rw [validationText, if_pos hstring, Variable.check, Variable.bounds?, if_pos hstring]
    exact (by decide : Reads "" [])
  | false =>
    obtain ⟨hq, hbounds⟩ := hv hstring
    obtain ⟨⟨lower, upper⟩, hbounds⟩ := Option.isSome_iff_exists.1 hbounds
    obtain ⟨hlower, hupper⟩ : Bound.ofDatum? v.min = some lower ∧ Bound.ofDatum? v.max = some upper := by
      simpa [Variable.bounds?, hstring, Option.bind_eq_some_iff] using hbounds
    have hread := @reads_validationText_of_bounds b v _ _ hstring hq.cleanName.toIdentifier
      (Bound.readsAs_text hlower) (Bound.readsAs_text hupper)
    have htokens : blockTokens (v.check b.target) =
        checkTokens v.name lower.literal.tokens upper.literal.tokens b.target := by
      simp [Variable.check, hbounds, checkTokens, blockTokens, Statement.tokens, ifTokens,
        Condition.tokens, Comparison.tokens, Operand.tokens, Relation.symbol, separated]
    rwa [htokens]

theorem reads_validation
    (h : ∀ v ∈ b.params.values, v.isString = false → InputName v.name ∧ v.bounds?.isSome = true) :
    Reads b.validation (blockTokens (b.params.values.flatMap (Variable.check b.target))) := by
  unfold validation
  generalize b.params.values = vs at h
  induction vs with
  | nil => exact (by decide : Reads "" [])
  | cons v vs ih =>
    rw [List.forall_mem_cons] at h
    rw [List.map_cons, String.join_cons, List.flatMap_cons, blockTokens_append]
    exact (reads_validationText h.1).append (ih h.2)

end Builder

/-! ## What a check does -/

/-- The run that reports a parameter and stops. -/
def Target.report (target : Target) (q : String) : Run Scope :=
  ⟨[.print (outOfBoundsMessage q)], .error (.stopped target.failCall)⟩

theorem execBlock_failure (names : Names) (q : String) (target : Target) (σ : Scope) :
    execBlock names (Binning.failure q target) σ = target.report q := by
  cases target <;> rfl

theorem holds_limits (names : Names) (q : String) (lower upper : Bound) :
    Condition.holds names []
        ⟨⟨q, .less, .literal lower.literal⟩, [⟨q, .greater, .literal upper.literal⟩]⟩ =
      pure ((names q).lt (lower.value names) || (upper.value names).lt (names q)) := by
  have hcomparison : ∀ (r : Relation) (β : Bound), Comparison.holds names [] ⟨q, r, .literal β.literal⟩ =
      pure (r.holds (names q) (β.value names)) := by
    intro r β
    rw [Comparison.holds, Operand.value, β.value?_literal]
    rfl
  rw [Condition.holds, someHolds, hcomparison, someHolds, hcomparison, Relation.holds, Relation.holds]
  cases (names q).lt (lower.value names) with
  | true => rfl
  | false =>
    cases (upper.value names).lt (names q) with
    | true => rfl
    | false => rfl

/-- A branch whose condition can be decided beforehand. -/
theorem execBlock_ifThen {names : Names} {σ : Scope} {c : Condition} {holds : Bool}
    (hc : c.holds names σ = pure holds) (yes rest : Block) :
    execBlock names (.ifThen c yes :: rest) σ =
      if holds then execBlock names yes σ >>= fun _ => execBlock names rest σ
      else execBlock names rest σ := by
  rw [execBlock, Statement.exec, hc]
  cases holds with
  | false => rfl
  | true =>
    change (execBlock names yes σ >>= fun _ => pure σ) >>= _ = _
    cases hyes : (execBlock names yes σ).result with
    | error h => rw [if_pos rfl, Run.bind_of_error hyes, Run.bind_of_error hyes, Run.bind_of_error rfl]
    | ok σ' =>
      rw [if_pos rfl, Run.bind_of_ok hyes, Run.bind_of_ok hyes, Run.bind_of_ok rfl]
      simp [pure]

theorem execBlock_check (names : Names) (target : Target) (v : Variable) (rest : Block) :
    execBlock names (v.check target ++ rest) [] =
      if v.outside names then target.report v.name else execBlock names rest [] := by
  unfold Variable.check Variable.outside
  cases v.bounds? with
  | none => rfl
  | some bounds =>
    obtain ⟨lower, upper⟩ := bounds
    simp only [List.cons_append, List.nil_append]
    rw [execBlock_ifThen (holds_limits names v.name lower upper), execBlock_failure]
    rfl

/-- **The first parameter outside of its bounds is reported.** -/
theorem execBlock_checks (names : Names) (target : Target) (vs : List Variable) (rest : Block) :
    execBlock names (vs.flatMap (Variable.check target) ++ rest) [] =
      match vs.find? (·.outside names) with
      | some v => target.report v.name
      | none => execBlock names rest [] := by
  induction vs with
  | nil => rfl
  | cons v vs ih =>
    rw [List.flatMap_cons, List.append_assoc, execBlock_check, ih, List.find?_cons]
    cases v.outside names with
    | true => rfl
    | false => rfl

end Corrections
