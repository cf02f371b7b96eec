/-
  The bounds that are printed for the parameters of a correction.

  * `RangeCheck` is a check of a parameter as it is printed, and `Builder.rangeChecks` are those of a builder.
    Their texts make up the whole validation (`Builder.validation_eq`).
  * `Declaration.Ranged`: a parameter is declared as a string, or as real between two numbers.
  * `Builder.Records.mem_rangeChecks_iff`: after any steps there is a check for each real parameter, with the
    bounds of its last declaration.
  * `validation_numerals_iff`: the bounds are numerals of the language exactly if no real parameter has been
    left with infinity as its least or minus infinity as its greatest value.
-/
import Corrections.Builder.Header
import Corrections.Proofs.Builder.History
import Corrections.Proofs.Code.Floating

namespace Corrections

open Code

/-! ## The checks of a builder -/

/-- The check of a parameter, with its bounds as they are printed. -/
structure RangeCheck where
  name : String
  lower : String
  upper : String
  deriving DecidableEq

def RangeCheck.text (target : Target) (r : RangeCheck) : String :=
  "\n" ++
  "                    if (" ++ r.name ++ " < " ++ r.lower ++ " || " ++ r.name ++ " > " ++ r.upper ++
    ") \x7b fprintf(stderr, \"ERROR: " ++ r.name ++ " is out of bounds.\\n\");\n" ++
  "                    " ++ target.failCode ++ "; \x7d;\n" ++
  "               "

def Variable.rangeCheck (v : Variable) : RangeCheck := ⟨v.name, v.min.text, v.max.text⟩

namespace Builder

/-- The checks of all parameters that are no strings. -/
def rangeChecks (b : Builder) : List RangeCheck :=
  (b.params.values.filter (!·.isString)).map Variable.rangeCheck

/-- The validation of a builder is made up of its checks. -/
theorem validation_eq (b : Builder) :
    b.validation = String.join (b.rangeChecks.map (RangeCheck.text b.target)) := by
  have htext : ∀ v, v.isString = false → b.validationText v = v.rangeCheck.text b.target := by
    intro v hv
    rw [validationText, if_neg (by simp [hv])]
    rfl
  unfold validation rangeChecks
  induction b.params.values with
  | nil => rfl
  | cons v vs ih =>
    rw [List.map_cons, String.join_cons, ih]
    cases hv : v.isString with
    | true => simp [validationText, hv]
    | false => simp [hv, htext v hv, String.join_cons]

theorem mem_rangeChecks {b : Builder} {r : RangeCheck} :
    r ∈ b.rangeChecks ↔ ∃ e ∈ b.params.entries, e.2.isString = false ∧ r = e.2.rangeCheck := by
  rw [rangeChecks, Table.values, List.mem_map]
  constructor
  · rintro ⟨v, hv, rfl⟩
    obtain ⟨hmem, hstring⟩ := List.mem_filter.1 hv
    obtain ⟨e, he, rfl⟩ := List.mem_map.1 hmem
    exact ⟨e, he, by simpa using hstring, rfl⟩
  · rintro ⟨e, he, hstring, rfl⟩
    exact ⟨e.2, List.mem_filter.2 ⟨List.mem_map_of_mem he, by simp [hstring]⟩, rfl⟩

end Builder

/-! ## Declared bounds -/

/-- A string parameter, or a real one between two numbers. -/
inductive Declaration.Ranged : Declaration → Prop
  | string {name : String} {min max : Datum} {values : List Datum} :
      Ranged ⟨"string", name, min, max, values⟩
  | real {name : String} {x y : Binary64} {values : List Datum} (hx : x ≠ .nan) (hy : y ≠ .nan) :
      Ranged ⟨"real", name, .scalar (.real x), .scalar (.real y), values⟩

/-- The check that a real parameter is given. -/
def Declaration.rangeCheck (d : Declaration) : RangeCheck :=
  ⟨d.name, (Variable.lowerBound d.min).text, (Variable.upperBound d.max).text⟩

theorem numeral_real_iff (x : Binary64) : Numeral (Datum.scalar (.real x)).text ↔ x.isFinite = true := by
  have h := numeral_text_iff (.inl rfl) x
  rwa [String.append_empty] at h

/-- Minus infinity has a name as a lower bound, and infinity has none. -/
theorem numeral_lowerBound_iff {x : Binary64} (hx : x ≠ .nan) :
    Numeral (Variable.lowerBound (.scalar (.real x))).text ↔ x ≠ .infinity false := by
  cases x with
  | nan => exact absurd rfl hx
  | infinity negative =>
    cases negative with
    | false =>
      have hword : ¬Numeral (Variable.lowerBound (.scalar (.real (.infinity false)))).text := by
        simp [Variable.lowerBound, numeral_real_iff, Binary64.isFinite]
      exact iff_of_false hword (by simp)
    | true => exact iff_of_true numeral_least (by simp)
  | finite negative rank => exact iff_of_true ((numeral_real_iff _).2 rfl) (by simp)

/-- Infinity has a name as an upper bound, and minus infinity has none. -/
theorem numeral_upperBound_iff {y : Binary64} (hy : y ≠ .nan) :
    Numeral (Variable.upperBound (.scalar (.real y))).text ↔ y ≠ .infinity true := by
  cases y with
  | nan => exact absurd rfl hy
  | infinity negative =>
    cases negative with
    | false => exact iff_of_true (.unsigned .greatest) (by simp)
    | true =>
      have hword : ¬Numeral (Variable.upperBound (.scalar (.real (.infinity true)))).text := by
        simp [Variable.upperBound, numeral_real_iff, Binary64.isFinite]
      exact iff_of_false hword (by simp)
  | finite negative rank => exact iff_of_true ((numeral_real_iff _).2 rfl) (by simp)

namespace Declaration.Ranged
variable {d : Declaration}

theorem exists_numbers (h : d.Ranged) (hreal : d.type = "real") :
    ∃ x y, x ≠ .nan ∧ y ≠ .nan ∧ d.min = .scalar (.real x) ∧ d.max = .scalar (.real y) := by
  rcases h with _ | ⟨hx, hy⟩
  · simp at hreal
  · exact ⟨_, _, hx, hy, rfl, rfl⟩

theorem numeral_iff (h : d.Ranged) (hreal : d.type = "real") :
    (Numeral d.rangeCheck.lower ∧ Numeral d.rangeCheck.upper) ↔
      d.min ≠ .scalar (.real (.infinity false)) ∧ d.max ≠ .scalar (.real (.infinity true)) := by
  obtain ⟨x, y, hx, hy, hmin, hmax⟩ := h.exists_numbers hreal
  simp only [rangeCheck, hmin, hmax, numeral_lowerBound_iff hx, numeral_upperBound_iff hy, ne_eq,
    Datum.scalar.injEq, Scalar.real.injEq]

/-- The words that can stand in the place of a bound. -/
theorem numeral_or_word (h : d.Ranged) (hreal : d.type = "real") :
    (Numeral d.rangeCheck.lower ∨ d.rangeCheck.lower = "inf") ∧
      (Numeral d.rangeCheck.upper ∨ d.rangeCheck.upper = "-inf") := by
  obtain ⟨x, y, hx, hy, hmin, hmax⟩ := h.exists_numbers hreal
  simp only [rangeCheck, hmin, hmax, numeral_lowerBound_iff hx, numeral_upperBound_iff hy]
  constructor
  · by_cases hword : x = .infinity false
    · exact .inr (by rw [hword]; rfl)
    · exact .inl hword
  · by_cases hword : y = .infinity true
    · exact .inr (by rw [hword]; rfl)
    · exact .inl hword

end Declaration.Ranged

/-! ## The checks after a sequence of steps -/

/-- The last declaration of `key`. -/
def lastDeclaration? (steps : List Step) (key : String) : Option Declaration :=
  ((steps.filterMap Step.declaration?).filter (·.name = key)).getLast?

theorem mem_of_lastDeclaration? {steps : List Step} {key : String} {d : Declaration}
    (h : lastDeclaration? steps key = some d) : .addVariable d ∈ steps := by
  have hmem := (List.mem_filter.1 (List.mem_of_getLast? h)).1
  obtain ⟨s, hs, hd⟩ := List.mem_filterMap.1 hmem
  cases s with
  | addVariable d' =>
    obtain ⟨-, rfl⟩ : d'.type ∈ Declaration.types ∧ d' = d := by simpa [Step.declaration?] using hd
    exact hs
  | _ => cases hd

/-- There is a check for each real parameter, with the bounds of its last declaration. -/
theorem Builder.Records.mem_rangeChecks_iff {correction : String} {target : Target} {steps : List Step}
    {b : Builder} (h : Records correction target steps b)
    (hsteps : ∀ d, .addVariable d ∈ steps → d.Ranged) (r : RangeCheck) :
    r ∈ b.rangeChecks ↔
      ∃ key d, lastDeclaration? steps key = some d ∧ d.type = "real" ∧ r = d.rangeCheck := by
  have hnodup : b.params.keys.Nodup := h.keys ▸ nodup_eraseDups _
  rw [mem_rangeChecks]
  constructor
  · rintro ⟨⟨key, v⟩, he, hstring, rfl⟩
    obtain ⟨d, hd, hdeclare⟩ := (h.params key v).1 ((Table.get?_eq_some_iff hnodup).2 he)
    rcases Variable.declare_eq_ok_iff.1 hdeclare with ⟨hreal, rfl⟩ | ⟨-, rfl⟩ | ⟨hint, -⟩
    · exact ⟨key, d, hd, hreal, rfl⟩
    · cases hstring
    · rcases hsteps d (mem_of_lastDeclaration? hd) with _ | _ <;> simp at hint
  · rintro ⟨key, d, hd, hreal, rfl⟩
    have hget := (h.params key _).2 ⟨d, hd, Variable.declare_eq_ok_iff.2 (.inl ⟨hreal, rfl⟩)⟩
    exact ⟨_, (Table.get?_eq_some_iff hnodup).1 hget, rfl, rfl⟩

/-- **When the bounds of parameters are constants.** After any steps the validation is made up of checks, whose
bounds are all numerals of the language exactly if no real parameter has infinity as its least or minus infinity
as its greatest value in its last declaration. These two are printed as words. -/
theorem validation_numerals_iff (correction : String) (target : Target) (steps : List Step) (w : World)
    (hsteps : ∀ d, .addVariable d ∈ steps → d.Ranged) :
    let b := (Builder.performAll steps (Builder.new correction target) w).1
    b.validation = String.join (b.rangeChecks.map (RangeCheck.text b.target)) ∧
      ((∀ r ∈ b.rangeChecks, Numeral r.lower ∧ Numeral r.upper) ↔
        ∀ key d, lastDeclaration? steps key = some d → d.type = "real" →
          d.min ≠ .scalar (.real (.infinity false)) ∧ d.max ≠ .scalar (.real (.infinity true))) ∧
      ∀ r ∈ b.rangeChecks,
        (Numeral r.lower ∨ r.lower = "inf") ∧ (Numeral r.upper ∨ r.upper = "-inf") := by
  intro b
  have hchecks := (Builder.records_performAll correction target steps w).mem_rangeChecks_iff hsteps
  have hranged : ∀ key d, lastDeclaration? steps key = some d → d.Ranged :=
    fun key d hd => hsteps d (mem_of_lastDeclaration? hd)
  refine ⟨b.validation_eq, ⟨?_, ?_⟩, ?_⟩
  · intro h key d hd hreal
    exact ((hranged key d hd).numeral_iff hreal).1 (h _ ((hchecks _).2 ⟨key, d, hd, hreal, rfl⟩))
  · intro h r hr
    obtain ⟨key, d, hd, hreal, rfl⟩ := (hchecks r).1 hr
    exact ((hranged key d hd).numeral_iff hreal).2 (h key d hd hreal)
  · intro r hr
    obtain ⟨key, d, hd, hreal, rfl⟩ := (hchecks r).1 hr
    exact (hranged key d hd).numeral_or_word hreal

/-- A parameter that is declared again, the first time between the two words, and a string between them. -/
theorem validation_redeclared_numerals :
    let word (negative : Bool) : Datum := .scalar (.real (.infinity negative))
    let steps : List Step :=
      [.addVariable ⟨"real", "x", word false, word true, []⟩,
        .addVariable ⟨"string", "k", word false, word true, []⟩,
        .addVariable ⟨"real", "x", word true, .scalar (.real (.ofRank false 1)), []⟩]
    let b := (Builder.performAll steps (Builder.new "sf" .c) (.start .absent [])).1
    (∀ d, .addVariable d ∈ steps → d.Ranged) ∧ b.rangeChecks = [⟨"x", "-FLT_MAX", "5e-324"⟩] ∧
      ∀ r ∈ b.rangeChecks, Numeral r.lower ∧ Numeral r.upper := by
  intro word steps b
  have hranged : ∀ d, .addVariable d ∈ steps → d.Ranged := by
    intro d hd
    simp only [steps, List.mem_cons, Step.addVariable.injEq, List.not_mem_nil, or_false] at hd
    rcases hd with rfl | rfl | rfl
    · exact .real (by rintro ⟨⟩) (by rintro ⟨⟩)
    · exact .string
    · exact .real (by rintro ⟨⟩) (by decide +kernel)
  refine ⟨hranged, ?_, ?_⟩
  · rw [show b = steps.foldl Builder.after _ from Builder.performAll_builder _ _ _]
    decide +kernel
  · refine (validation_numerals_iff "sf" .c steps (.start .absent []) hranged).2.1.2 ?_
    intro key d hd hreal
    have hname : d.name = key := by simpa using (List.mem_filter.1 (List.mem_of_getLast? hd)).2
    by_cases hkey : key = "x"
    · have hlast : lastDeclaration? steps "x" =
          some ⟨"real", "x", word true, .scalar (.real (.ofRank false 1)), []⟩ := rfl
      rw [hkey, hlast, Option.some.injEq] at hd
      subst hd
      exact ⟨by simp [word], by decide +kernel⟩
    · have hmem := mem_of_lastDeclaration? hd
      simp only [steps, List.mem_cons, Step.addVariable.injEq, List.not_mem_nil, or_false] at hmem
      rcases hmem with rfl | rfl | rfl
      · exact absurd hname.symm hkey
      · simp at hreal
      · exact absurd hname.symm hkey

/-- **Bounds that are words.** -/
theorem validation_prints_words :
    let steps : List Step := [.addVariable
      ⟨"real", "x", .scalar (.real (.infinity false)), .scalar (.real (.infinity true)), []⟩]
    let b := (Builder.performAll steps (Builder.new "sf" .c) (.start .absent [])).1
    (∀ d, .addVariable d ∈ steps → d.Ranged) ∧
      b.validation = RangeCheck.text .c ⟨"x", "inf", "-inf"⟩ ∧ ¬Numeral "inf" ∧ ¬Numeral "-inf" := by
  intro steps b
  refine ⟨?_, ?_, ?_, ?_⟩
  · simp only [steps, List.mem_singleton, Step.addVariable.injEq]
    rintro d rfl
    exact .real (by rintro ⟨⟩) (by rintro ⟨⟩)
  · rw [show b = steps.foldl Builder.after _ from Builder.performAll_builder _ _ _]
    decide +kernel
  · exact fun h => Bool.false_ne_true ((numeral_real_iff (.infinity false)).1 h)
  · exact fun h => Bool.false_ne_true ((numeral_real_iff (.infinity true)).1 h)

end Corrections
