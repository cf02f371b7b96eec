/-
  Floating constants of the language.

  * `Floating s`: digits with a fraction or an exponent or both, perhaps with a suffix behind them.
  * `Numeral s`: such a constant or the name of the greatest number, perhaps with a minus in front.
  * `numeral_text_iff`: the text of a number is a numeral exactly if the number is finite. The infinities
    and NaN are written as words, which the language does not know.
-/
import Corrections.Proofs.Code.Constant

namespace Corrections.Code

open Binary64 (Decimal Style)

def Digits (cs : List Char) : Prop := ∀ c ∈ cs, c.isDigit = true

/-- What can stand behind the digits of the whole part. -/
inductive Fraction : List Char → Prop
  | none : Fraction []
  | point {ds : List Char} (hds : Digits ds) : Fraction ('.' :: ds)

inductive Exponent : List Char → Prop
  | none : Exponent []
  | unsigned {mark : Char} {ds : List Char} (hmark : mark = 'e' ∨ mark = 'E') (hne : ds ≠ [])
      (hds : Digits ds) : Exponent (mark :: ds)
  | signed {mark sign : Char} {ds : List Char} (hmark : mark = 'e' ∨ mark = 'E')
      (hsign : sign = '+' ∨ sign = '-') (hne : ds ≠ []) (hds : Digits ds) :
      Exponent (mark :: sign :: ds)

/-- A decimal floating constant. Digits alone are an integer. -/
inductive Floating : String → Prop
  | intro {whole fraction exponent : List Char} {suffix : String} (hne : whole ≠ []) (hwhole : Digits whole)
      (hfraction : Fraction fraction) (hexponent : Exponent exponent)
      (hsome : fraction ≠ [] ∨ exponent ≠ []) (hsuffix : suffix = "" ∨ suffix = "f") :
      Floating (String.ofList (whole ++ fraction ++ exponent) ++ suffix)

/-- A number without its sign: a floating constant, or the greatest one by its name. -/
inductive Magnitude : String → Prop
  | floating {s : String} (h : Floating s) : Magnitude s
  | greatest : Magnitude "FLT_MAX"

/-- A number that the language can read. -/
inductive Numeral : String → Prop
  | unsigned {s : String} (h : Magnitude s) : Numeral s
  | negative {s : String} (h : Magnitude s) : Numeral ("-" ++ s)

variable {s suffix : String}

/-! ## The sign of a numeral -/

theorem Floating.exists_cons (h : Floating s) : ∃ c cs, s.toList = c :: cs ∧ c.isDigit = true := by
  obtain ⟨hne, hwhole, -, -, -, -⟩ := h
  obtain ⟨c, cs, rfl⟩ := List.exists_cons_of_ne_nil hne
  rw [String.toList_append, String.toList_ofList]
  exact ⟨c, _, rfl, hwhole c List.mem_cons_self⟩

/-- Neither a constant nor a name begins with a minus. -/
theorem ne_minus_append (h : Floating s ∨ isName s = true) (t : String) : s ≠ "-" ++ t := by
  rintro rfl
  have hlist : ("-" ++ t).toList = '-' :: t.toList := String.toList_append
  rcases h with h | h
  · obtain ⟨c, cs, hcs, hc⟩ := h.exists_cons
    rw [hlist] at hcs
    cases hcs
    exact absurd hc (by decide)
  · obtain ⟨c, cs, hcs, hc, -⟩ := exists_cons_of_isName h
    rw [hlist] at hcs
    cases hcs
    exact absurd hc (by decide)

theorem Magnitude.floating_or_isName (h : Magnitude s) : Floating s ∨ isName s = true := by
  rcases h with h | _
  · exact .inl h
  · exact .inr (by decide)

/-- A name is no constant, and only one name is a number. -/
theorem magnitude_iff_of_isName (hs : isName s = true) : Magnitude s ↔ s = "FLT_MAX" := by
  constructor
  · rintro (h | _)
    · obtain ⟨c, cs, hcs, hc⟩ := h.exists_cons
      obtain ⟨c', cs', hcs', hc', -⟩ := exists_cons_of_isName hs
      rw [hcs] at hcs'
      cases hcs'
      rw [isNameStart_of_isDigit hc] at hc'
      cases hc'
    · rfl
  · rintro rfl
    exact .greatest

theorem numeral_least : Numeral "-FLT_MAX" := by
  have htext : "-FLT_MAX" = "-" ++ "FLT_MAX" := by decide
  rw [htext]
  exact .negative .greatest

/-- The sign of a number does not matter. -/
theorem numeral_signed_iff (negative : Bool) (hs : Floating s ∨ isName s = true) :
    Numeral ((if negative then "-" else "") ++ s) ↔ Magnitude s := by
  constructor
  · intro h
    cases negative with
    | false =>
      rw [if_neg Bool.false_ne_true, String.empty_append] at h
      generalize htext : s = text at h
      rcases h with h | h
      · exact h
      · exact absurd htext (ne_minus_append hs _)
    | true =>
      rw [if_pos rfl] at h
      generalize htext : "-" ++ s = text at h
      rcases h with h | h
      · exact absurd htext.symm (ne_minus_append h.floating_or_isName s)
      · rwa [(String.append_right_inj "-").1 htext]
  · intro h
    cases negative with
    | false => simpa using Numeral.unsigned h
    | true => exact .negative h

/-! ## The text of a number -/

theorem floating_point {whole fraction : List Char} (hsuffix : suffix = "" ∨ suffix = "f") (hne : whole ≠ [])
    (hwhole : Digits whole) (hfraction : Digits fraction) :
    Floating (String.ofList (whole ++ '.' :: fraction) ++ suffix) := by
  rw [← List.append_nil (whole ++ _)]
  exact .intro hne hwhole (.point hfraction) .none (.inl (List.cons_ne_nil _ _)) hsuffix

/-- A decimal is a floating constant, also with a suffix behind it. -/
theorem floating_decimal (hsuffix : suffix = "" ∨ suffix = "f") (d : Decimal) :
    Floating (String.ofList (Style.standard.decimal d) ++ suffix) := by
  have hds : ∀ c ∈ Nat.toDigits 10 d.digits, c.isDigit = true := fun c => Binary64.isDigit_toDigits
  unfold Style.decimal
  simp only
  split
  · obtain ⟨whole, fraction, heq, hne, hwhole, hfraction⟩ :=
      Binary64.positional_eq _ hds Nat.toDigits_ne_nil
    rw [heq]
    exact floating_point hsuffix hne hwhole hfraction
  · obtain ⟨c, fraction, sign, places, heq, hc, hfraction, hsign, hne, hplaces⟩ :=
      Binary64.scientific_eq _ _ hds Nat.toDigits_ne_nil
    have hfraction' : Fraction fraction := by
      rcases hfraction with rfl | ⟨ds, rfl, hds⟩
      · exact .none
      · exact .point hds
    have hexponent : Exponent ('e' :: sign :: places) := .signed (.inl rfl) hsign hne hplaces
    rw [heq]
    exact @Floating.intro [c] _ _ _ (List.cons_ne_nil _ _) (List.forall_mem_singleton.2 hc) hfraction'
      hexponent (.inr (List.cons_ne_nil _ _)) hsuffix

/-- **The finite numbers are those that are written as numerals.** -/
theorem numeral_text_iff (hsuffix : suffix = "" ∨ suffix = "f") (x : Binary64) :
    Numeral (x.text ++ suffix) ↔ x.isFinite = true := by
  rw [Binary64.text_eq, String.append_assoc]
  have hword : ∀ w, isName w = true → w ≠ "FLT_MAX" →
      ¬Numeral ((if x.isNegative then "-" else "") ++ w) := by
    intro w hname hne
    rwa [numeral_signed_iff _ (.inr hname), magnitude_iff_of_isName hname]
  cases x with
  | nan =>
    refine iff_of_false (hword _ ?_ ?_) Bool.false_ne_true
    · rcases hsuffix with rfl | rfl <;> decide
    · rcases hsuffix with rfl | rfl <;> decide
  | infinity negative =>
    have htext : (Binary64.infinity negative).abs.text = "inf" := rfl
    rw [htext]
    refine iff_of_false (hword _ ?_ ?_) Bool.false_ne_true
    · rcases hsuffix with rfl | rfl <;> decide
    · rcases hsuffix with rfl | rfl <;> decide
  | finite negative rank =>
    have hfloating :=
      floating_decimal hsuffix (if rank.val = 0 then ⟨0, 0⟩ else Binary64.shortest rank)
    exact iff_of_true ((numeral_signed_iff _ (.inl hfloating)).2 (.floating hfloating)) rfl

/-! ## Literals -/

def Atom.text : Atom → String
  | .number s => s
  | .name s => s

/-- A literal as it is written. -/
def Literal.text (l : Literal) : String := (if l.negative then "-" else "") ++ l.atom.text

theorem Literal.text_ofNumber (suffix : String) (x : Binary64) :
    (Literal.ofNumber suffix x).text = x.text ++ suffix := by
  rw [Binary64.text_eq, String.append_assoc]
  cases x <;> rfl

end Corrections.Code
