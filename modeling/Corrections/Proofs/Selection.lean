/-
  What the statements of a binning do.

  * `Halts names b h`: the block ends with `h`, whatever tables of binnings are visible, and every
    element it looks at is inside of its array.
  * `Binning.halts_below`, `Binning.halts_above` and `Binning.halts_inside`: a binning does what one of
    its parts does, the part below the edges, the part above them, or the bin that the decision tree
    finds.
-/
import Corrections.Proofs.Emission

namespace Corrections

open Code DecisionTree

/-- Only the arrays of binnings are visible. -/
def Tables (σ : Scope) : Prop := ∀ p ∈ σ, p.1 = "edges" ∨ p.1 = "values"

def Halts (names : Names) (b : Block) (h : Halt) : Prop :=
  ∀ σ, Tables σ → (execBlock names b σ).Ends h

theorem Tables.lookup_eq_none {σ : Scope} (hσ : Tables σ) {q : String} (hq : InputName q) :
    σ.lookup q = none := by
  rw [List.lookup_eq_none_iff]
  intro p hp
  rw [bne_iff_ne]
  rintro rfl
  rcases hσ p hp with h | h
  · exact hq.ne_edges h
  · exact hq.ne_values h

theorem halts_return {names : Names} {l : Literal} {x : Binary64} (hx : l.value? names = some x) :
    Halts names [.return_ l] (.returned x) :=
  fun _ _ => ends_cons (ends_return hx)

theorem halts_constant (names : Names) (target : Target) (x : Binary64) :
    Halts names ((Content.constant x).program target) (.returned x) :=
  halts_return (Literal.value?_ofNumber names (.inl rfl) x)

/-- The code of a content does what its statements do. -/
theorem ends_execute {names : Names} {target : Target} {c : Content} {text : String} {h : Halt}
    (hinputs : c.AllInputs InputName) (htext : c.compile target = .ok text)
    (hhalts : Halts names (c.program target) h) : (execute names text).Ends h := by
  rw [execute_eq (statements?_compile (hinputs.mono fun _ => InputName.cleanName) htext)]
  exact hhalts [] (by rintro p ⟨⟩)

/-! ## Arrays -/

/-- The number that an edge stands for. -/
def Edge.value (names : Names) : Edge → Binary64
  | .number x => x
  | .lowest => (names "MAX_FLOAT").neg
  | .highest => names "MAX_FLOAT"

theorem Edge.value?_literal (names : Names) (e : Edge) :
    e.literal.value? names = some (e.value names) := by
  have hname : constant? "MAX_FLOAT" = none := by decide
  cases e with
  | number x => exact Literal.value?_ofNumber names (.inr rfl) x
  | lowest => simp [Edge.literal, Literal.value?, Atom.value?, hname, Edge.value]
  | highest => simp [Edge.literal, Literal.value?, Atom.value?, hname, Edge.value]

theorem mapM_value?_edges (names : Names) (edges : List Edge) :
    (edges.map Edge.literal).mapM (Literal.value? names) = some (edges.map (Edge.value names)) := by
  induction edges with
  | nil => rfl
  | cons e edges ih => simp [Edge.value?_literal, ih]

theorem exists_value?_bin (names : Names) (bin : Nat) :
    ∃ x, (binLiteral bin).value? names = some x := by
  have hdigits : ∀ c ∈ Nat.toDigits 10 bin, c.isDigit = true := fun c => Binary64.isDigit_toDigits
  obtain ⟨c, cs, hcs⟩ := List.exists_cons_of_ne_nil (@Nat.toDigits_ne_nil bin 10)
  have hhead : ∃ c cs, Nat.toDigits 10 bin ++ ['.', '0'] = c :: cs ∧ c.isDigit = true :=
    ⟨c, cs ++ ['.', '0'], by rw [hcs]; rfl, hdigits c (by rw [hcs]; exact List.mem_cons_self)⟩
  have hread := Binary64.readMagnitude?_append false (Nat.toDigits 10 bin) ['.'] ['0'] [] hdigits
    (List.forall_mem_singleton.2 rfl) Nat.toDigits_ne_nil (.inl rfl) rfl (by simp)
  have hlist : (toString bin ++ ".0f").toList = Nat.toDigits 10 bin ++ ['.', '0'] ++ ['f'] := by
    simp [toString]
  have hvalue := @Binary64.read?_ofList false _ hhead
  simp only [List.append_assoc, List.append_nil, List.singleton_append] at hread
  simp only [Bool.false_eq_true, if_false, hread] at hvalue
  have hconstant : ∃ x, constant? (toString bin ++ ".0f") = some x := by
    rw [constant?, hlist, List.getLast?_concat, if_pos rfl, List.dropLast_concat, hvalue]
    exact ⟨_, rfl⟩
  obtain ⟨x, hx⟩ := hconstant
  exact ⟨x, by rw [binLiteral, Literal.value?, Atom.value?, hx]; rfl⟩

theorem exists_mapM_value?_bins (names : Names) (bins : List Nat) :
    ∃ xs, (bins.map binLiteral).mapM (Literal.value? names) = some xs ∧ xs.length = bins.length := by
  induction bins with
  | nil => exact ⟨[], rfl, rfl⟩
  | cons bin bins ih =>
    obtain ⟨xs, hxs, hlen⟩ := ih
    obtain ⟨x, hx⟩ := exists_value?_bin names bin
    exact ⟨x :: xs, by simp [hxs, hx], by simp [hlen]⟩

/-- The edges `xs` are visible, and the input `q` is no array. -/
structure Sees (σ : Scope) (q : String) (xs : List Binary64) : Prop where
  edges : σ.lookup "edges" = some ⟨xs.length, xs⟩
  input : σ.lookup q = none

/-- Behind the two arrays the edges are visible. -/
theorem ends_arrays {names : Names} {σ : Scope} {q : String} (hq : InputName q) (hσ : Tables σ)
    {edges : List Edge} {rest : Block} {h : Halt}
    (hrest : ∀ σ', Tables σ' → Sees σ' q (edges.map (Edge.value names)) →
      (execBlock names rest σ').Ends h) :
    (execBlock names (Binning.arrays edges ++ rest) σ).Ends h := by
  obtain ⟨values, hvalues, hlen⟩ := exists_mapM_value?_bins names (List.range (edges.length - 1))
  rw [List.length_range] at hlen
  refine ends_cons_of_gives (gives_array (mapM_value?_edges names edges) (by simp)) ?_
  refine ends_cons_of_gives (gives_array hvalues (Nat.le_of_eq hlen)) ?_
  have htables : Tables (("values", ⟨edges.length - 1, values⟩) ::
      ("edges", ⟨edges.length, edges.map (Edge.value names)⟩) :: σ) := by
    intro p hp
    rcases List.mem_cons.1 hp with rfl | hp
    · exact .inr rfl
    rcases List.mem_cons.1 hp with rfl | hp
    · exact .inl rfl
    · exact hσ p hp
  refine hrest _ htables ⟨?_, htables.lookup_eq_none hq⟩
  rw [List.length_map]
  rfl

/-! ## Decisions -/

section
variable {names : Names} {σ : Scope} {q : String} {xs : List Binary64} {h : Halt}

theorem gives_edgeCondition (hσ : Sees σ q xs) (r : Relation) {edge : Nat} (hedge : edge < xs.length) :
    ((edgeCondition q r edge).holds names σ).Gives (r.holds (names q) (xs.getD edge .nan)) := by
  have hx : xs[edge]? = some (xs.getD edge .nan) := by
    rw [List.getD_eq_getElem?_getD, List.getElem?_eq_getElem hedge]
    rfl
  exact gives_comparison hσ.input (gives_element hσ.edges rfl hx)

/-- The decision tree does what the bin does that it decides on. -/
theorem ends_statements (hσ : Sees σ q xs) {block : Nat → Block} {t : DecisionTree}
    (hnodes : ∀ edge ∈ t.nodes, edge < xs.length)
    (hbin : (execBlock names
      (block (t.choose fun edge => (names q).lt (xs.getD edge .nan))) σ).Ends h) :
    (execBlock names (t.statements q block) σ).Ends h := by
  induction t with
  | leaf bin => exact ends_closed hbin
  | node edge below above ihbelow ihabove =>
    have hcondition : ((edgeCondition q .less edge).holds names σ).Gives
        ((names q).lt (xs.getD edge .nan)) :=
      gives_edgeCondition hσ .less (hnodes edge (by simp [nodes]))
    refine ends_cons (ends_ifElse hcondition ?_)
    rw [choose] at hbin
    split
    · next hlt =>
      rw [if_pos hlt] at hbin
      exact ihbelow (fun e he => hnodes e (by simp [nodes, he])) hbin
    · next hlt =>
      rw [if_neg hlt] at hbin
      exact ihabove (fun e he => hnodes e (by simp [nodes, he])) hbin

end

/-! ## Binnings -/

/-- The bin of an input that is between the edges `xs`. -/
def binOf (xs : List Binary64) (x : Binary64) : Nat :=
  (build 0 (xs.length - 1)).choose fun edge => x.lt (xs.getD edge .nan)

/-- The bin is there. The input is not below its left edge and below its right one, unless the edge is
the first or the last. -/
theorem binOf_spec {xs : List Binary64} (hlen : 2 ≤ xs.length) (x : Binary64) :
    binOf xs x < xs.length - 1 ∧ (binOf xs x = 0 ∨ x.lt (xs.getD (binOf xs x) .nan) = false) ∧
      (binOf xs x + 1 = xs.length - 1 ∨ x.lt (xs.getD (binOf xs x + 1) .nan) = true) := by
  have hchoose := @choose_build 0 (xs.length - 1) (fun edge => x.lt (xs.getD edge .nan)) (by omega)
  rw [Nat.zero_add] at hchoose
  exact hchoose.2

/-- Where the edges are visible, a search does what the bin does that it finds. -/
theorem Binning.ends_search {names : Names} {σ : Scope} {q : String} {xs : List Binary64}
    {bins : List Block} {h : Halt} (hσ : Sees σ q xs) (hlen : 2 ≤ xs.length)
    (hbins : bins.length = xs.length - 1)
    (hbin : (execBlock names (bins.getD (binOf xs (names q)) []) σ).Ends h) :
    (execBlock names (search q bins) σ).Ends h := by
  rw [search, hbins]
  refine ends_statements hσ ?_ hbin
  rw [nodes_build (by omega)]
  intro edge hedge
  have := List.mem_range'_1.1 hedge
  omega

namespace Binning
variable {names : Names} {q : String} (hq : InputName q) {edges : List Edge}
  (hlen : 2 ≤ edges.length) {xs : List Binary64} (hxs : xs = edges.map (Edge.value names))
  {below above : Block} {bins : List Block} {h : Halt}

include hq hlen hxs

/-- Below the edges a binning does what its first branch does. -/
theorem halts_below (hlt : (names q).lt (xs.getD 0 .nan) = true) (hbelow : Halts names below h) :
    Halts names (program q edges below above bins) h := by
  intro σ hσ
  subst hxs
  rw [program, List.append_assoc]
  refine ends_arrays hq hσ fun σ' hσ' hsees => ?_
  have hfirst := @gives_edgeCondition names _ _ _ hsees .less 0 (by rw [List.length_map]; omega)
  rw [Relation.holds, hlt] at hfirst
  exact ends_cons (ends_ifThen hfirst (ends_closed (hbelow σ' hσ')))

section
variable (hlt : (names q).lt (xs.getD 0 .nan) = false)

include hlt

/-- Above the edges it does what its second branch does. -/
theorem halts_above (hle : (xs.getD (xs.length - 1) .nan).le (names q) = true)
    (habove : Halts names above h) : Halts names (program q edges below above bins) h := by
  intro σ hσ
  subst hxs
  rw [List.length_map] at hle
  rw [program, List.append_assoc]
  refine ends_arrays hq hσ fun σ' hσ' hsees => ?_
  have hfirst := @gives_edgeCondition names _ _ _ hsees .less 0 (by rw [List.length_map]; omega)
  have hlast := @gives_edgeCondition names _ _ _ hsees .atLeast (edges.length - 1)
    (by rw [List.length_map]; omega)
  rw [Relation.holds, hlt] at hfirst
  rw [Relation.holds, hle] at hlast
  refine ends_cons_of_gives (gives_ifThen hfirst) ?_
  exact ends_cons (ends_ifThen hlast (ends_closed (habove σ' hσ')))

/-- Otherwise it does what the bin does that the decision tree finds. -/
theorem halts_inside (hbins : bins.length = edges.length - 1)
    (hle : (xs.getD (xs.length - 1) .nan).le (names q) = false)
    (hbin : Halts names (bins.getD (binOf xs (names q)) []) h) :
    Halts names (program q edges below above bins) h := by
  intro σ hσ
  subst hxs
  rw [List.length_map] at hle
  rw [program, List.append_assoc]
  refine ends_arrays hq hσ fun σ' hσ' hsees => ?_
  have hfirst := @gives_edgeCondition names _ _ _ hsees .less 0 (by rw [List.length_map]; omega)
  have hlast := @gives_edgeCondition names _ _ _ hsees .atLeast (edges.length - 1)
    (by rw [List.length_map]; omega)
  rw [Relation.holds, hlt] at hfirst
  rw [Relation.holds, hle] at hlast
  refine ends_cons_of_gives (gives_ifThen hfirst) (ends_cons_of_gives (gives_ifThen hlast) ?_)
  exact ends_search hsees (by rwa [List.length_map]) (by rwa [List.length_map]) (hbin σ' hσ')

end

end Binning

namespace Content

variable {names : Names} {target : Target} {input : String} (hinput : InputName input)
  {edges : Edges} {es : List Edge} (hread : edges.read = .ok es) (hlen : 2 ≤ es.length)
  {xs : List Binary64} (hxs : xs = es.map (Edge.value names)) {bins : List Content}
  {flow : Flow Content} {h : Halt}

include hinput hread hlen hxs

theorem halts_binning_below (hlt : (names input).lt (xs.getD 0 .nan) = true)
    (hblock : Halts names
      (Binning.belowBlock input target (programs target bins) (flowProgram target flow)) h) :
    Halts names ((Content.binning input edges bins flow).program target) h := by
  rw [program_binning hread]
  exact Binning.halts_below hinput hlen hxs hlt hblock

theorem halts_binning_above (hlt : (names input).lt (xs.getD 0 .nan) = false)
    (hle : (xs.getD (xs.length - 1) .nan).le (names input) = true)
    (hblock : Halts names
      (Binning.aboveBlock es.length (programs target bins) (flowProgram target flow)) h) :
    Halts names ((Content.binning input edges bins flow).program target) h := by
  rw [program_binning hread]
  exact Binning.halts_above hinput hlen hxs hlt hle hblock

theorem halts_binning_inside (hcount : es.length - 1 ≤ bins.length)
    (hlt : (names input).lt (xs.getD 0 .nan) = false)
    (hle : (xs.getD (xs.length - 1) .nan).le (names input) = false) {c : Content}
    (hc : bins[binOf xs (names input)]? = some c) (hbin : Halts names (c.program target) h) :
    Halts names ((Content.binning input edges bins flow).program target) h := by
  have hxlen : xs.length = es.length := by rw [hxs, List.length_map]
  have hblocks : ((programs target bins).take (es.length - 1)).length = es.length - 1 := by
    rw [programs_eq_map, List.length_take, List.length_map]
    omega
  -- The decision tree stays within the bins that have an edge on both sides.
  obtain ⟨hin, -⟩ := binOf_spec (hxlen ▸ hlen) (names input)
  have hget : ((programs target bins).take (es.length - 1)).getD (binOf xs (names input)) [] =
      c.program target := by
    rw [List.getD_eq_getElem?_getD, List.getElem?_take, if_pos (hxlen ▸ hin), programs_eq_map,
      List.getElem?_map, hc]
    rfl
  rw [program_binning hread]
  exact Binning.halts_inside hinput hlen hxs hlt hblocks hle (hget ▸ hbin)

end Content

end Corrections
