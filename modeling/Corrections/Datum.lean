/-
  Values of any kind, as they stand in the data of a correction.

  * `Datum` is a single value, a list of values, or an object with named fields.
  * `Datum.text` is a value as generated code shows it. A text stands by itself as it is, and in quotes
    inside a list.
  * `Datum.isBlank` holds of the values that count as absent: blank single values and the empty list.
-/
import Corrections.Scalar
import Corrections.Text.Quoted

namespace Corrections

/-- A value of any kind. -/
inductive Datum where
  | scalar (s : Scalar)
  | list (items : List Datum)
  | object (kind : String) (fields : List (String × Datum))
  deriving Inhabited

namespace Datum

/-! ## Equality -/

mutual

/-- Whether two values are equal. -/
def decEq : (a b : Datum) → Decidable (a = b)
  | .scalar s, .scalar t => decidable_of_iff (s = t) (by simp)
  | .list xs, .list ys =>
    match decEqItems xs ys with
    | isTrue h => isTrue (by rw [h])
    | isFalse h => isFalse (by simpa using h)
  | .object k fs, .object l gs =>
    match decEqFields fs gs with
    | isTrue h => decidable_of_iff (k = l) (by simp [h])
    | isFalse h => isFalse (by simp [h])
  | .scalar _, .list _ | .scalar _, .object _ _ | .list _, .scalar _ | .list _, .object _ _
  | .object _ _, .scalar _ | .object _ _, .list _ => isFalse (by simp)

/-- Whether two lists of values are equal. -/
def decEqItems : (xs ys : List Datum) → Decidable (xs = ys)
  | [], [] => isTrue rfl
  | [], _ :: _ | _ :: _, [] => isFalse (by simp)
  | x :: xs, y :: ys =>
    match decEq x y, decEqItems xs ys with
    | isTrue h, isTrue hs => isTrue (by rw [h, hs])
    | isFalse h, _ => isFalse (by simp [h])
    | _, isFalse hs => isFalse (by simp [hs])

/-- Whether two lists of fields are equal. -/
def decEqFields : (fs gs : List (String × Datum)) → Decidable (fs = gs)
  | [], [] => isTrue rfl
  | [], _ :: _ | _ :: _, [] => isFalse (by simp)
  | (k, x) :: fs, (l, y) :: gs =>
    match decEq x y, decEqFields fs gs with
    | isTrue h, isTrue hs => decidable_of_iff (k = l) (by simp [h, hs])
    | isFalse h, _ => isFalse (by simp [h])
    | _, isFalse hs => isFalse (by simp [hs])

end

instance : DecidableEq Datum := decEq

/-! ## Text -/

mutual

/-- The value as it stands inside a list. -/
def shown : Datum → String
  | .scalar (.str s) => Text.quoted s
  | .scalar s => s.text
  | .list items => "[" ++ ", ".intercalate (shownItems items) ++ "]"
  | .object kind _ => "<" ++ kind ++ ">"

/-- The values of a list as they stand in it. -/
def shownItems : List Datum → List String
  | [] => []
  | d :: rest => d.shown :: shownItems rest

end

/-- The value as generated code shows it. -/
def text : Datum → String
  | .scalar s => s.text
  | d => d.shown

/-- The value counts as absent. -/
def isBlank : Datum → Bool
  | .scalar s => s.isBlank
  | .list items => items.isEmpty
  | .object _ _ => false

end Datum

end Corrections
