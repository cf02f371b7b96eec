/-
  The template of a binning.

  * `map_fill_listing`: the lines of a binning are filled by filling its name, the code of its guards and
    that of its bins. Nothing else in them has a hole, and no hole reaches from one of them into another.
-/
import Corrections.Proofs.Binary64.RoundTrip
import Corrections.Proofs.Compiled
import Corrections.Proofs.Substitution

namespace Corrections

open DecisionTree (query edgeAt)
open Text (Begins Ends fill fill_query fill_append fill_of_notMem fill_append_begins fill_ends_append)

/-! ## Numbers have no hole -/

theorem Binary64.notMem_text (x : Binary64) : 'Q' ∉ x.text.toList := by
  cases x with
  | nan => decide
  | infinity negative => cases negative <;> decide
  | finite negative rank =>
    intro h
    have h' : 'Q' ∈ Style.standard.decimal
        (if rank.val = 0 then ⟨0, 0⟩ else Binary64.shortest rank) := by
      cases negative <;> simpa [text] using h
    rcases mem_decimal h' with hdigit | hother
    · exact absurd hdigit (by decide)
    · exact absurd hother (by decide)

theorem notMem_toString (n : Nat) : 'Q' ∉ (toString n).toList := by
  intro h
  have h' : 'Q' ∈ Nat.toDigits 10 n := by simpa [toString] using h
  exact absurd (Binary64.isDigit_toDigits h') (by decide)

theorem Edge.notMem_code (e : Edge) : 'Q' ∉ e.code.toList := by
  cases e with
  | number x =>
    rw [Edge.code, String.toList_append, List.mem_append, not_or]
    exact ⟨x.notMem_text, by decide⟩
  | lowest => decide
  | highest => decide

theorem notMem_intercalate {sep : String} {parts : List String} (hsep : 'Q' ∉ sep.toList)
    (hparts : ∀ s ∈ parts, 'Q' ∉ s.toList) : 'Q' ∉ (sep.intercalate parts).toList := by
  induction parts with
  | nil => simp
  | cons s parts ih =>
    rw [List.forall_mem_cons] at hparts
    cases parts with
    | nil => simpa using hparts.1
    | cons s' parts =>
      simp only [String.intercalate_cons_cons, String.toList_append, List.mem_append, not_or]
      exact ⟨⟨hparts.1, hsep⟩, ih hparts.2⟩

theorem notMem_edgeAt (i : Nat) : 'Q' ∉ (edgeAt i).toList := by
  simp only [edgeAt, String.toList_append, List.mem_append, not_or]
  exact ⟨⟨by decide, notMem_toString i⟩, by decide⟩

theorem edgeAt_begins (i : Nat) : Begins (edgeAt i) :=
  ((by decide : Begins "edges[").append _).append _

/-! ## Lines -/

variable (value : String)

namespace DecisionTree

theorem notMem_blanks (n : Nat) : 'Q' ∉ (blanks n).toList := by
  simp [blanks]

theorem fill_blanks_append (n : Nat) (a : String) :
    fill query value (blanks n ++ a) = blanks n ++ fill query value a := by
  cases n with
  | zero => simp [blanks]
  | succ n =>
    refine fill_ends_append (notMem_blanks _) ⟨' ', ?_, by decide⟩ value a
    simp [blanks, List.replicate_succ']

theorem fill_binLine (q : String) (code : Nat → String) (bin : Nat) :
    fill query value (binLine q code bin) =
      binLine (fill query value q) (fun bin => fill query value (code bin)) bin := by
  rw [binLine, fill_append_begins (notMem_edgeAt _) (edgeAt_begins _),
    fill_append_begins (by decide) (by decide), fill_append (.inl (Ends.append (by decide) _)),
    fill_append_begins (by decide) (by decide), fill_append_begins (notMem_edgeAt _) (edgeAt_begins _),
    fill_append_begins (by decide) (by decide)]
  rfl

/-- A line that compares the input with an edge. -/
theorem fill_comparison {front relation : String} (hfront : 'Q' ∉ front.toList) (hends : Ends front)
    (hrelation : 'Q' ∉ relation.toList) (hbegins : Begins relation) (q : String) (edge : Nat) :
    fill query value (front ++ q ++ relation ++ edgeAt edge ++ ") \x7b") =
      front ++ fill query value q ++ relation ++ edgeAt edge ++ ") \x7b" := by
  rw [fill_append_begins (by decide) (by decide), fill_append_begins (notMem_edgeAt _) (edgeAt_begins _),
    fill_append_begins hrelation hbegins, fill_ends_append hfront hends]

theorem fill_ifLine (q : String) (edge : Nat) :
    fill query value (ifLine q edge) = ifLine (fill query value q) edge :=
  fill_comparison value (by decide) (by decide) (by decide) (by decide) q edge

/-- The entries of a tree are filled one by one. -/
theorem map_fill_entries (q : String) (code : Nat → String) (depth : Nat) (t : DecisionTree) :
    (t.entries q code depth).map (fill query value) =
      t.entries (fill query value q) (fun bin => fill query value (code bin)) depth := by
  have hbin : ∀ n bin, fill query value (blanks n ++ " " ++ binLine q code bin) = blanks n ++ " " ++
      binLine (fill query value q) (fun bin => fill query value (code bin)) bin := by
    intro n bin
    rw [String.append_assoc, fill_blanks_append, fill_ends_append (by decide) (by decide), fill_binLine,
      String.append_assoc]
  have helse : fill query value elseLine = elseLine := fill_of_notMem (by decide) value
  have hend : fill query value "\x7d" = "\x7d" := fill_of_notMem (by decide) value
  fun_induction entries q code depth t with
  | case1 depth bin => simp [entries, hbin]
  | case2 depth edge first second =>
    simp [entries, hbin, helse, hend, fill_blanks_append, fill_ifLine, fill_binLine]
  | case3 depth edge below above hleaves ihbelow ihabove =>
    rw [entries]
    · simp [ihbelow, ihabove, helse, hend, fill_blanks_append, fill_ifLine]
    · exact hleaves

end DecisionTree

namespace Binning

theorem map_fill_arrayLines (edges : List Edge) :
    (arrayLines edges).map (fill query value) = arrayLines edges := by
  refine map_eq_self fun line hline => fill_of_notMem ?_ value
  have hedges : 'Q' ∉ (", ".intercalate (edges.map Edge.code)).toList :=
    notMem_intercalate (by decide) (by simpa using fun e _ => e.notMem_code)
  have hvalues : 'Q' ∉ (", ".intercalate ((List.range (edges.length - 1)).map
      fun i => toString i ++ ".0f")).toList := by
    refine notMem_intercalate (by decide) ?_
    intro s hs
    obtain ⟨i, -, rfl⟩ := List.mem_map.1 hs
    rw [String.toList_append, List.mem_append, not_or]
    exact ⟨notMem_toString i, by decide⟩
  simp only [arrayLines, List.mem_cons, List.not_mem_nil, or_false] at hline
  rcases hline with rfl | rfl | rfl | rfl
  · decide
  · simp only [String.toList_append, List.mem_append, not_or]
    exact ⟨⟨⟨⟨by decide, notMem_toString _⟩, by decide⟩, hedges⟩, by decide⟩
  · simp only [String.toList_append, List.mem_append, not_or]
    exact ⟨⟨⟨⟨by decide, notMem_toString _⟩, by decide⟩, hvalues⟩, by decide⟩
  · decide

/-- The guards with their holes filled. -/
def Guards.filled (g : Guards) : Guards := ⟨fill query value g.below, fill query value g.above⟩

theorem map_fill_guardLines (q : String) (n : Nat) (g : Guards) :
    (guardLines q n g).map (fill query value) =
      guardLines (fill query value q) n (g.filled value) := by
  have hcomment : fill query value "    // Handle edge cases" = "    // Handle edge cases" :=
    fill_of_notMem (by decide) value
  have hend : fill query value "    \x7d" = "    \x7d" := fill_of_notMem (by decide) value
  have hguard : ∀ a, fill query value ("        " ++ a ++ ";") = "        " ++ fill query value a ++ ";" := by
    intro a
    rw [fill_append_begins (by decide) (by decide), fill_ends_append (by decide) (by decide)]
  have hless := @DecisionTree.fill_comparison value "    if (" " < " (by decide) (by decide) (by decide)
    (by decide) q 0
  have hatLeast := @DecisionTree.fill_comparison value "    if (" " >= " (by decide) (by decide) (by decide)
    (by decide) q (n - 1)
  simp only [guardLines, List.map_cons, List.map_nil, hcomment, hless, hatLeast, hguard, hend, Guards.filled]

theorem map_fill_searchLines (q : String) (codes : List String) :
    (searchLines q codes).map (fill query value) =
      searchLines (fill query value q) (codes.map (fill query value)) := by
  have hempty : fill query value "" = "" := fill_of_notMem (by decide) value
  have hcodes : (fun i => fill query value (codes.getD i "")) =
      ((codes.map (fill query value)).getD · "") := by
    funext i
    rw [List.getD_eq_getElem?_getD, List.getD_eq_getElem?_getD, List.getElem?_map]
    cases codes[i]? with
    | none => exact hempty
    | some code => rfl
  have hlines : ∀ lines : List String, (lines.map ("    " ++ ·)).map (fill query value) =
      (lines.map (fill query value)).map ("    " ++ ·) := by
    intro lines
    rw [List.map_map, List.map_map]
    exact List.map_congr_left fun a _ => fill_ends_append (by decide) (by decide) value a
  rw [searchLines, List.map_append, hlines, DecisionTree.map_fill_entries, hcodes, List.map_cons,
    List.map_cons, hempty, fill_of_notMem (by decide), searchLines, List.length_map]
  rfl

/-- **The lines of a binning are filled in its name, in its guards and in its bins.** -/
theorem map_fill_listing (q : String) (edges : List Edge) (g : Guards) (codes : List String) :
    (listing q edges g codes).map (fill query value) =
      listing (fill query value q) edges (g.filled value) (codes.map (fill query value)) := by
  rw [listing, List.map_append, List.map_append, map_fill_arrayLines, map_fill_guardLines,
    map_fill_searchLines]
  rfl

theorem fill_outOfBounds (q : String) (target : Target) :
    fill query value (outOfBounds q target) = outOfBounds (fill query value q) target := by
  have hfail : 'Q' ∉ target.failCode.toList ∧ Begins target.failCode := by
    cases target
    · exact ⟨by decide, by decide⟩
    · exact ⟨by decide, by decide⟩
  unfold outOfBounds
  rw [fill_append_begins hfail.1 hfail.2, fill_append_begins (by decide) (by decide),
    fill_ends_append (by decide) (by decide)]

end Binning

end Corrections
