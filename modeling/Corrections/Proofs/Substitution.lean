/-
  The laws of filling a template.

  * An occurrence of the hole cannot reach over a character that the hole does not have. So a template
    that is cut at such characters is filled part by part (`fillFrom_append_cons`).
  * `fill_append`, `fill_intercalate`: the same for texts and for lines.
  * `clean_iff_fill_eq`: a text has no hole exactly if filling in nothing leaves it as it is.
-/
import Corrections.Compilation
import Mathlib.Tactic.Common

namespace Corrections.Text

section
variable {hole : List Char} {c : Char}

theorem prefix_append_cons_iff (hc : c ∉ hole) (a b : List Char) :
    hole <+: a ++ c :: b ↔ hole <+: a := by
  constructor
  · intro h
    induction a generalizing hole with
    | nil =>
      rcases List.prefix_cons_iff.1 h with rfl | ⟨t, rfl, -⟩
      · exact List.nil_prefix
      · exact absurd List.mem_cons_self hc
    | cons x a ih =>
      rcases List.prefix_cons_iff.1 h with rfl | ⟨t, rfl, ht⟩
      · exact List.nil_prefix
      · exact List.prefix_cons_iff.2
          (.inr ⟨t, rfl, ih (fun hmem => hc (List.mem_cons_of_mem _ hmem)) ht⟩)
  · exact fun h => h.trans (List.prefix_append a _)

variable (value : List Char)

theorem fillFrom_of_not_infix {s : List Char} (h : ¬ hole <:+: s) : fillFrom hole value 0 s = s := by
  induction s with
  | nil => rfl
  | cons x s ih =>
    rw [List.infix_cons_iff, not_or] at h
    have hstart : hole.isPrefixOf (x :: s) = false := by
      simpa [← Bool.not_eq_true] using h.1
    rw [fillFrom, hstart, if_neg Bool.false_ne_true, ih h.2]

theorem fillFrom_of_length_le {skip : Nat} {s : List Char} (h : s.length ≤ skip) :
    fillFrom hole value skip s = [] := by
  induction s generalizing skip with
  | nil => rw [fillFrom]
  | cons x s ih =>
    cases skip with
    | zero => simp at h
    | succ skip => exact ih (by simpa using h)

theorem fillFrom_hole (hne : hole ≠ []) : fillFrom hole value 0 hole = value := by
  obtain ⟨x, rest, rfl⟩ := List.exists_cons_of_ne_nil hne
  have hstart : (x :: rest).isPrefixOf (x :: rest) = true :=
    List.isPrefixOf_iff_prefix.2 (List.prefix_refl _)
  rw [fillFrom, hstart, if_pos rfl, fillFrom_of_length_le _ (by simp), List.append_nil]

/-- **A template is filled on both sides of a character that the hole does not have.** -/
theorem fillFrom_append_cons (hc : c ∉ hole) (hne : hole ≠ []) {skip : Nat} {a : List Char}
    (b : List Char) (hskip : skip ≤ a.length) :
    fillFrom hole value skip (a ++ c :: b) =
      fillFrom hole value skip a ++ c :: fillFrom hole value 0 b := by
  induction a generalizing skip with
  | nil =>
    obtain rfl : skip = 0 := by simpa using hskip
    have hstart : hole.isPrefixOf (c :: b) = false := by
      have := prefix_append_cons_iff hc [] b
      simpa [← Bool.not_eq_true, hne] using this
    have hfill : fillFrom hole value 0 (c :: b) = c :: fillFrom hole value 0 b := by
      rw [fillFrom, hstart, if_neg Bool.false_ne_true]
    rw [List.nil_append, hfill, fillFrom, List.nil_append]
  | cons x a ih =>
    cases skip with
    | succ skip => exact ih (by simpa using hskip)
    | zero =>
      have hstart := prefix_append_cons_iff hc (x :: a) b
      rw [List.cons_append] at hstart ⊢
      by_cases h : hole <+: x :: a
      · have hlen := h.length_le
        rw [fillFrom, if_pos (by simpa using hstart.2 h), fillFrom, if_pos (by simpa using h),
          ih (by simp at hlen; omega), List.append_assoc]
      · rw [fillFrom, if_neg (by simpa using hstart.not.2 h), fillFrom, if_neg (by simpa using h),
          ih (Nat.zero_le _), List.cons_append]

theorem length_fillFrom_nil_le (skip : Nat) (s : List Char) :
    (fillFrom hole [] skip s).length ≤ s.length := by
  induction s generalizing skip with
  | nil => simp [fillFrom]
  | cons x s ih =>
    rw [List.length_cons]
    cases skip with
    | succ skip => exact Nat.le_succ_of_le (ih skip)
    | zero =>
      rw [fillFrom]
      split
      · exact Nat.le_succ_of_le (ih _)
      · exact Nat.succ_le_succ (ih 0)

/-- Filling in nothing makes a text with a hole shorter. -/
theorem length_fillFrom_nil_lt (hne : hole ≠ []) {s : List Char} (h : hole <:+: s) :
    (fillFrom hole [] 0 s).length < s.length := by
  induction s with
  | nil => exact absurd (List.infix_nil.1 h) hne
  | cons x s ih =>
    rw [fillFrom]
    split
    · exact Nat.lt_succ_of_le (length_fillFrom_nil_le _ s)
    · next hstart =>
      rcases List.infix_cons_iff.1 h with hstart' | h'
      · exact absurd (List.isPrefixOf_iff_prefix.2 hstart') hstart
      · exact Nat.succ_lt_succ (ih h')

end

open DecisionTree (query)

/-- The text has no hole. -/
def Clean (s : String) : Prop := ¬ query.toList <:+: s.toList

/-- The text begins with a character that the hole does not have. -/
def Begins (s : String) : Prop := ∃ c ∈ s.toList.head?, c ∉ query.toList

/-- The text ends with a character that the hole does not have. -/
def Ends (s : String) : Prop := ∃ c ∈ s.toList.getLast?, c ∉ query.toList

instance (s : String) : Decidable (Begins s) := Option.decidableExistsMem s.toList.head?

instance (s : String) : Decidable (Ends s) := Option.decidableExistsMem s.toList.getLast?

theorem query_ne_nil : query.toList ≠ [] := by decide

theorem clean_of_notMem {s : String} (h : 'Q' ∉ s.toList) : Clean s :=
  fun hin => h (hin.subset (by decide))

theorem Begins.append {a : String} (h : Begins a) (b : String) : Begins (a ++ b) := by
  obtain ⟨c, hc, hne⟩ := h
  refine ⟨c, ?_, hne⟩
  rw [String.toList_append, List.head?_append, Option.mem_def.1 hc]
  rfl

theorem Ends.append {b : String} (h : Ends b) (a : String) : Ends (a ++ b) := by
  obtain ⟨c, hc, hne⟩ := h
  refine ⟨c, ?_, hne⟩
  rw [String.toList_append, List.getLast?_append, Option.mem_def.1 hc]
  rfl

theorem fillFrom_append {v a b : List Char}
    (h : (∃ c ∈ a.getLast?, c ∉ query.toList) ∨ ∃ c ∈ b.head?, c ∉ query.toList) :
    fillFrom query.toList v 0 (a ++ b) =
      fillFrom query.toList v 0 a ++ fillFrom query.toList v 0 b := by
  rcases h with ⟨c, hc, hne⟩ | ⟨c, hc, hne⟩
  · obtain ⟨a, rfl⟩ := List.getLast?_eq_some_iff.1 hc
    rw [List.append_assoc, List.singleton_append,
      fillFrom_append_cons v hne query_ne_nil b (Nat.zero_le _),
      fillFrom_append_cons v hne query_ne_nil [] (Nat.zero_le _)]
    simp [fillFrom]
  · obtain ⟨b, rfl⟩ := List.head?_eq_some_iff.1 hc
    have hb := fillFrom_append_cons v hne query_ne_nil (a := []) b (Nat.zero_le _)
    rw [List.nil_append] at hb
    rw [fillFrom_append_cons v hne query_ne_nil b (Nat.zero_le _), hb]
    simp [fillFrom]

theorem fill_append {v a b : String} (h : Ends a ∨ Begins b) :
    fill query v (a ++ b) = fill query v a ++ fill query v b := by
  rw [fill, String.toList_append, fillFrom_append h, String.ofList_append]
  rfl

theorem fill_of_clean {s : String} (h : Clean s) (v : String) : fill query v s = s := by
  rw [fill, fillFrom_of_not_infix _ h, String.ofList_toList]

theorem fill_of_notMem {s : String} (h : 'Q' ∉ s.toList) (v : String) : fill query v s = s :=
  fill_of_clean (clean_of_notMem h) v

theorem fill_query (v : String) : fill query v query = v := by
  rw [fill, fillFrom_hole _ query_ne_nil, String.ofList_toList]

theorem clean_iff_fill_eq {s : String} : Clean s ↔ fill query "" s = s := by
  refine ⟨fun h => fill_of_clean h "", fun h hhole => ?_⟩
  have hlt := length_fillFrom_nil_lt query_ne_nil hhole
  have heq : fillFrom query.toList [] 0 s.toList = s.toList := by
    have := congrArg String.toList h
    rwa [fill, String.toList_ofList] at this
  rw [heq] at hlt
  exact Nat.lt_irrefl _ hlt

theorem fill_append_begins {s : String} (hs : 'Q' ∉ s.toList) (hbegins : Begins s) (v a : String) :
    fill query v (a ++ s) = fill query v a ++ s := by
  rw [fill_append (.inr hbegins), fill_of_notMem hs]

theorem fill_ends_append {s : String} (hs : 'Q' ∉ s.toList) (hends : Ends s) (v a : String) :
    fill query v (s ++ a) = s ++ fill query v a := by
  rw [fill_append (.inl hends), fill_of_notMem hs]

/-- Lines are filled one by one. -/
theorem fill_intercalate (v : String) (lines : List String) :
    fill query v ("\n".intercalate lines) = "\n".intercalate (lines.map (fill query v)) := by
  induction lines with
  | nil => exact fill_of_notMem (by decide) v
  | cons l rest ih =>
    cases rest with
    | nil => simp
    | cons l' rest =>
      rw [List.map_cons, List.map_cons, String.intercalate_cons_cons, String.intercalate_cons_cons,
        fill_append (.inl (Ends.append (by decide) l)), fill_append_begins (by decide) (by decide), ih,
        List.map_cons]

end Corrections.Text
