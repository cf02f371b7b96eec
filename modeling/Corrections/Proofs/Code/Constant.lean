/-
  Numbers as constants of generated code.

  * `Literal.ofNumber suffix x` is the constant that the text of `x` and a suffix are read as.
  * `Literal.value?_ofNumber`: it denotes `x`.
-/
import Corrections.Proofs.Binary64.RoundTrip
import Corrections.Proofs.Code.Execution

namespace Corrections

namespace Binary64

def isFinite : Binary64 → Bool
  | .finite _ _ => true
  | _ => false

def isNegative : Binary64 → Bool
  | .nan => false
  | .infinity negative => negative
  | .finite negative _ => negative

/-- The number without its sign. -/
def abs : Binary64 → Binary64
  | .nan => .nan
  | .infinity _ => .infinity false
  | .finite _ rank => .finite false rank

theorem neg_abs (x : Binary64) : (if x.isNegative then x.abs.neg else x.abs) = x := by
  cases x with
  | nan => rfl
  | infinity negative => cases negative <;> rfl
  | finite negative rank => cases negative <;> rfl

theorem text_eq (x : Binary64) : x.text = (if x.isNegative then "-" else "") ++ x.abs.text := by
  cases x with
  | nan => rfl
  | infinity negative => cases negative <;> rfl
  | finite negative rank =>
    cases negative with
    | false => simp [isNegative, abs]
    | true => simp [isNegative, abs, text, String.ofList_cons]

theorem neg_ofDecimal (digits : Nat) (exponent : Int) :
    (ofDecimal false digits exponent).neg = ofDecimal true digits exponent := by
  have hrank : ∀ rank, (ofRank false rank).neg = ofRank true rank := by
    intro rank
    unfold ofRank
    split <;> rfl
  unfold ofDecimal
  split_ifs
  · rfl
  · rfl
  · rfl
  · exact hrank _
  · exact hrank _

end Binary64

namespace Code

open Binary64 (Decimal Style decimal_eq mem_decimal)

/-- A character that goes on with every number. -/
def isNumberChar (c : Char) : Bool := isNameChar c || c == '.'

theorem isNumberChar_of_isDigit {c : Char} (h : c.isDigit = true) : isNumberChar c = true := by
  simp [isNumberChar, isNameChar, Char.isAlphanum, h]

theorem continuesAll_of_forall {last : Char} {cs : List Char} (h : ∀ c ∈ cs, isNumberChar c = true) :
    continuesAll last cs = true := by
  induction cs generalizing last with
  | nil => rfl
  | cons c cs ih =>
    rw [List.forall_mem_cons] at h
    have hc : continuesNumber last c = true := by
      unfold continuesNumber
      rw [show (isNameChar c || c == '.') = true from h.1, Bool.true_or]
    rw [continuesAll, hc, ih h.2]
    rfl

theorem continuesAll_exponent {last sign : Char} {cs places : List Char}
    (hcs : ∀ c ∈ cs, isNumberChar c = true) (hsign : sign = '+' ∨ sign = '-')
    (hplaces : ∀ c ∈ places, isNumberChar c = true) :
    continuesAll last (cs ++ 'e' :: sign :: places) = true := by
  induction cs generalizing last with
  | nil =>
    have he : ∀ last, continuesNumber last 'e' = true := fun last => rfl
    have hs : continuesNumber 'e' sign = true := by
      rcases hsign with rfl | rfl <;> rfl
    rw [List.nil_append, continuesAll, continuesAll, he, hs, continuesAll_of_forall hplaces]
    rfl
  | cons c cs ih =>
    rw [List.forall_mem_cons] at hcs
    have hc : continuesNumber last c = true := by
      unfold continuesNumber
      rw [show (isNameChar c || c == '.') = true from hcs.1, Bool.true_or]
    rw [List.cons_append, continuesAll, hc, ih hcs.2]
    rfl

/-- A decimal is a number, also with a suffix behind it. -/
theorem isNumber_decimal (d : Decimal) {suffix : List Char}
    (hsuffix : ∀ c ∈ suffix, isNumberChar c = true) :
    isNumber (String.ofList (Style.standard.decimal d ++ suffix)) = true := by
  obtain ⟨c, cs, exponent, heq, hc, hcs, hexponent⟩ := decimal_eq d
  have hcs' : ∀ x ∈ cs, isNumberChar x = true := by
    intro x hx
    rcases hcs x hx with hdigit | rfl
    · exact isNumberChar_of_isDigit hdigit
    · rfl
  have hrest : continuesAll c (cs ++ exponent ++ suffix) = true := by
    rcases hexponent with rfl | ⟨sign, places, rfl, hsign, hplaces⟩
    · rw [List.append_nil]
      exact continuesAll_of_forall (List.forall_mem_append.2 ⟨hcs', hsuffix⟩)
    · have hplaces' : ∀ x ∈ places, isNumberChar x = true :=
        fun x hx => isNumberChar_of_isDigit (hplaces x hx)
      rw [List.append_assoc]
      exact continuesAll_exponent hcs' hsign (List.forall_mem_append.2 ⟨hplaces', hsuffix⟩)
  rw [isNumber, String.toList_ofList, heq]
  simpa [hc] using hrest

/-- The constant that the text of `x` with a suffix is read as. -/
def Literal.ofNumber (suffix : String) (x : Binary64) : Literal :=
  ⟨x.isNegative,
    match x with
    | .finite _ _ => .number (x.abs.text ++ suffix)
    | _ => .name (x.abs.text ++ suffix)⟩

variable {suffix : String}

theorem constant?_suffix (x : Binary64) : constant? (x.text ++ "f") = some x := by
  have hf : (x.text ++ "f").toList = x.text.toList ++ ['f'] := String.toList_append
  simp [constant?, hf, Binary64.read?_text]

theorem constant?_text (x : Binary64) : constant? x.abs.text = some x.abs := by
  cases x with
  | nan => decide
  | infinity negative => decide +revert
  | finite negative rank =>
    have hlast : (Binary64.finite negative rank).abs.text.toList.getLast? ≠ some 'f' := by
      intro h
      have hmem := List.mem_of_getLast? h
      rw [Binary64.abs, Binary64.text, String.toList_ofList] at hmem
      rcases mem_decimal (by simpa using hmem) with hdigit | hother
      · exact absurd hdigit (by decide)
      · exact absurd hother (by decide)
    rw [constant?, if_neg hlast, Binary64.read?_text]

theorem constant?_toString (n : Nat) : constant? (toString n) = some (Binary64.ofDecimal false n 0) := by
  have hlast : (toString n).toList.getLast? ≠ some 'f' := by
    intro h
    have hmem : 'f' ∈ Nat.toDigits 10 n := by simpa [toString] using List.mem_of_getLast? h
    exact absurd (Binary64.isDigit_toDigits hmem) (by decide)
  rw [constant?, if_neg hlast, Binary64.read?_toString]

/-- **A number that is written as a constant is denoted by it.** -/
theorem Literal.value?_ofNumber (names : Names) (hsuffix : suffix = "" ∨ suffix = "f") (x : Binary64) :
    (Literal.ofNumber suffix x).value? names = some x := by
  have hconstant : constant? (x.abs.text ++ suffix) = some x.abs := by
    rcases hsuffix with rfl | rfl
    · rw [String.append_empty, constant?_text]
    · exact constant?_suffix x.abs
  have hatom : (Literal.ofNumber suffix x).atom.value? names = some x.abs := by
    cases x with
    | nan => simp [Literal.ofNumber, Atom.value?, hconstant]
    | infinity negative => simp [Literal.ofNumber, Atom.value?, hconstant]
    | finite negative rank => simp [Literal.ofNumber, Atom.value?, hconstant]
  rw [Literal.value?, hatom, Option.map_some]
  exact congrArg some x.neg_abs

theorem readsAs_ofNumber (hsuffix : suffix = "" ∨ suffix = "f") (x : Binary64) :
    ReadsAs (x.text ++ suffix) (Literal.ofNumber suffix x).tokens := by
  intro s ts hs h
  have hatom : ReadsAs (x.abs.text ++ suffix) [(Literal.ofNumber suffix x).atom.token] := by
    cases x with
    | nan => rcases hsuffix with rfl | rfl <;> exact readsAs_name (by decide)
    | infinity negative => rcases hsuffix with rfl | rfl <;> exact readsAs_name (by decide +revert)
    | finite negative rank =>
      refine readsAs_number ?_
      have hchars : suffix.toList.all isNumberChar = true := by
        rcases hsuffix with rfl | rfl <;> decide
      have hnumber := isNumber_decimal
        (if rank.val = 0 then ⟨0, 0⟩ else Binary64.shortest rank) (List.all_eq_true.1 hchars)
      rwa [String.ofList_append, String.ofList_toList] at hnumber
  rw [Binary64.text_eq]
  cases hx : x.isNegative with
  | false => simpa [Literal.tokens, Literal.ofNumber, hx] using hatom s ts hs h
  | true =>
    have hminus : Reads "-" [.symbol .minus] := by decide
    simpa [Literal.tokens, Literal.ofNumber, hx, String.append_assoc] using
      hminus.append (hatom s ts hs h)

end Code

end Corrections
