/-
  For which contents code is generated.

  * `Content.WellFormed` describes them by themselves: numbers, categories, and binnings with
    increasing edges, enough well-formed bins and a well-formed flow.
  * `compiles_iff_wellFormed`: these are exactly the contents that have code.
-/
import Corrections.Proofs.Binary64.Order
import Corrections.Proofs.Compiled
import Mathlib.Data.List.Basic
import Mathlib.Data.List.Pairwise
import Mathlib.Data.Set.List

namespace Corrections

/-! ## Edges -/

/-- The edges that are a list of numbers. -/
def Edges.ofNumbers (xs : List Binary64) : Edges := .listed (xs.map fun x => .scalar (.real x))

/-- The number of edges that are given. -/
def Edges.size : Edges → Nat
  | .listed entries => entries.length
  | .uniform | .unknown => 0

/-- The edges are `n` increasing numbers, or the two infinities. -/
inductive Edges.WellFormed : Edges → (n : Nat) → Prop
  | numbers {xs : List Binary64} (hlen : 2 ≤ xs.length) (hnan : Binary64.nan ∉ xs)
      (hlt : xs.Pairwise fun x y => x.lt y = true) :
      WellFormed (.ofNumbers xs) xs.length
  | infinities {s : String} (hs : s = "inf" ∨ s = "+inf") :
      WellFormed (.listed [.scalar (.str "-inf"), .scalar (.str s)]) 2

namespace Edge

/-- `a` can be compared with `b` and is below it. -/
def Below (a b : Edge) : Prop := a.below b = .ok true

theorem below_iff {a b : Edge} :
    Below a b ↔ (∃ x y, a = .number x ∧ b = .number y ∧ x.lt y = true) ∨
      (a = .lowest ∧ b = .highest) := by
  unfold Below
  cases a <;> cases b <;> simp [below]

theorem Below.trans {a b c : Edge} (hab : Below a b) (hbc : Below b c) : Below a c := by
  rw [below_iff] at hab hbc ⊢
  rcases hab with ⟨x, y, rfl, rfl, hxy⟩ | ⟨rfl, rfl⟩
  · rcases hbc with ⟨_, z, ⟨⟩, rfl, hyz⟩ | ⟨⟨⟩, -⟩
    exact .inl ⟨x, z, rfl, rfl, Binary64.lt_trans hxy hyz⟩
  · rcases hbc with ⟨_, z, ⟨⟩, -⟩ | ⟨⟨⟩, -⟩

/-- Comparing neighbours is comparing all pairs. -/
theorem ascending_eq_ok_iff {es : List Edge} : ascending es = .ok () ↔ es.Pairwise Below := by
  have : IsTrans Edge Below := ⟨fun _ _ _ => Below.trans⟩
  rw [← List.isChain_iff_pairwise]
  fun_induction ascending es with
  | case1 a b rest e h => simp [Below, h]
  | case2 a b rest h => simp [Below, h]
  | case3 a b rest h ih => simp [Below, h, ih]
  | case4 es h =>
    rcases es with _ | ⟨a, _ | ⟨b, rest⟩⟩
    · simp
    · simp
    · exact (h a b rest rfl).elim

theorem readAll_eq_ok_iff {ds : List Datum} {es : List Edge} :
    readAll ds = .ok es ↔ ds.map ofDatum? = es.map some := by
  induction ds generalizing es with
  | nil => cases es <;> simp [readAll]
  | cons d rest ih =>
    cases hd : ofDatum? d with
    | none => cases es <;> simp [readAll, hd]
    | some e =>
      cases hr : readAll rest with
      | error err =>
        cases es with
        | nil => simp [readAll, hd, hr, Except.map]
        | cons e' es =>
          have := (@ih es).not.1 (by simp [hr])
          simp [readAll, hd, hr, Except.map, this]
      | ok es' =>
        cases es with
        | nil => simp [readAll, hd, hr, Except.map]
        | cons e' es =>
          have := @ih es
          rw [hr] at this
          simp [readAll, hd, hr, Except.map, ← this]

theorem ofDatum?_eq_number_iff {d : Datum} {x : Binary64} :
    ofDatum? d = some (.number x) ↔ d = .scalar (.real x) := by
  unfold ofDatum?
  split
  · simp
  · split_ifs <;> simp
  · next h _ => simpa using h x

theorem ofDatum?_eq_lowest_iff {d : Datum} :
    ofDatum? d = some .lowest ↔ d = .scalar (.str "-inf") := by
  unfold ofDatum?
  split
  · simp
  · split_ifs with h h'
    · rcases h with rfl | rfl <;> simp
    · simp [h']
    · simp [h']
  · next _ h => simpa using h "-inf"

theorem ofDatum?_eq_highest_iff {d : Datum} :
    ofDatum? d = some .highest ↔ ∃ s, (s = "inf" ∨ s = "+inf") ∧ d = .scalar (.str s) := by
  unfold ofDatum?
  split
  · simp
  · next s => split_ifs with h <;> simp [h]
  · next _ h => exact iff_of_false (by simp) (by rintro ⟨s, -, rfl⟩; exact h s rfl)

theorem eq_map_real_of_map_ofDatum? {ds : List Datum} {xs : List Binary64}
    (h : ds.map ofDatum? = (xs.map .number).map some) : ds = xs.map fun x => .scalar (.real x) := by
  induction xs generalizing ds with
  | nil => simpa using h
  | cons x xs ih =>
    cases ds with
    | nil => simp at h
    | cons d ds =>
      simp only [List.map_cons, List.cons.injEq] at h ⊢
      exact ⟨ofDatum?_eq_number_iff.1 h.1, ih h.2⟩

/-- Edges that ascend are all numbers, or there are only the two infinities. -/
theorem pairwise_below_cases {es : List Edge} (h : es.Pairwise Below) (hlen : 2 ≤ es.length) :
    (∃ xs : List Binary64, es = xs.map .number ∧ xs.Pairwise fun x y => x.lt y = true) ∨
      es = [.lowest, .highest] := by
  rcases es with _ | ⟨a, _ | ⟨b, rest⟩⟩
  · simp at hlen
  · simp at hlen
  · rw [List.pairwise_cons] at h
    obtain ⟨ha, hrest⟩ := h
    rcases below_iff.1 (ha b (by simp)) with ⟨x, y, rfl, rfl, -⟩ | ⟨rfl, rfl⟩
    · have hall : Edge.number y :: rest ∈ Set.range (List.map Edge.number) := by
        rw [Set.range_list_map]
        intro e he
        rcases below_iff.1 (ha e he) with ⟨-, z, -, rfl, -⟩ | ⟨⟨⟩, -⟩
        exact ⟨z, rfl⟩
      obtain ⟨ys, hys⟩ := hall
      rw [← hys] at ha hrest ⊢
      refine .inl ⟨x :: ys, rfl, List.pairwise_cons.2 ⟨fun z hz => ?_, ?_⟩⟩
      · simpa [below_iff] using ha (.number z) (List.mem_map_of_mem hz)
      · simpa [List.pairwise_map, below_iff] using hrest
    · cases rest with
      | nil => exact .inr rfl
      | cons c rest =>
        have hbc := (List.pairwise_cons.1 hrest).1 c (by simp)
        rcases below_iff.1 hbc with ⟨_, _, ⟨⟩, -⟩ | ⟨⟨⟩, -⟩

end Edge

theorem Edges.size_of_read {edges : Edges} {es : List Edge} (h : edges.read = .ok es) :
    edges.size = es.length := by
  cases edges with
  | uniform => cases h
  | unknown => cases h
  | listed entries =>
    have hlen := congrArg List.length (Edge.readAll_eq_ok_iff.1 h)
    rw [List.length_map, List.length_map] at hlen
    exact hlen

theorem Edges.read_ofNumbers (xs : List Binary64) :
    (Edges.ofNumbers xs).read = .ok (xs.map .number) := by
  refine Edge.readAll_eq_ok_iff.2 ?_
  simp [Edge.ofDatum?]

/-- Edges are well formed exactly when they can be read, ascend and bound a range. -/
theorem Edges.wellFormed_iff {edges : Edges} {n : Nat} :
    edges.WellFormed n ↔ ∃ es, edges.read = .ok es ∧ Edge.ascending es = .ok () ∧
      2 ≤ es.length ∧ es.length = n := by
  simp only [Edge.ascending_eq_ok_iff]
  constructor
  · rintro (⟨hlen, -, hlt⟩ | ⟨hs⟩)
    · next xs =>
      refine ⟨xs.map .number, Edges.read_ofNumbers xs, ?_, by simpa using hlen, by simp⟩
      simpa [List.pairwise_map, Edge.below_iff] using hlt
    · next s =>
      refine ⟨[.lowest, .highest], Edge.readAll_eq_ok_iff.2 ?_, ?_, by simp, rfl⟩
      · simp [Edge.ofDatum?_eq_lowest_iff.2, Edge.ofDatum?_eq_highest_iff.2 ⟨s, hs, rfl⟩]
      · simp [Edge.below_iff]
  · rintro ⟨es, hread, hasc, hlen, rfl⟩
    cases edges with
    | uniform => cases hread
    | unknown => cases hread
    | listed entries =>
      have hread := Edge.readAll_eq_ok_iff.1 hread
      rcases Edge.pairwise_below_cases hasc hlen with ⟨xs, rfl, hlt⟩ | rfl
      · rw [Edge.eq_map_real_of_map_ofDatum? hread, List.length_map]
        rw [List.length_map] at hlen
        exact .numbers hlen (Binary64.nan_notMem_of_pairwise_lt hlt hlen) hlt
      · obtain ⟨d, d', rfl⟩ : ∃ d d', entries = [d, d'] :=
          List.length_eq_two.1 (by simpa using congrArg List.length hread)
        simp only [List.map_cons, List.map_nil, List.cons.injEq, and_true] at hread
        obtain rfl := Edge.ofDatum?_eq_lowest_iff.1 hread.1
        obtain ⟨s, hs, rfl⟩ := Edge.ofDatum?_eq_highest_iff.1 hread.2
        exact .infinities hs

/-! ## Contents -/

/-- The contents for which code is generated. -/
inductive Content.WellFormed : Content → Prop
  | constant (x : Binary64) : WellFormed (.constant x)
  | category (input : String) (items : List (CategoryItem Content)) (fallback : Option Content) :
      WellFormed (.category input items fallback)
  | binning {input : String} {edges : Edges} {bins : List Content} {flow : Flow Content} {n : Nat}
      (hedges : edges.WellFormed n) (hlen : n - 1 ≤ bins.length)
      (hbins : ∀ c ∈ bins.take (n - 1), WellFormed c)
      (hflow : ∀ c, flow = .value c → WellFormed c) :
      WellFormed (.binning input edges bins flow)

namespace Binning

/-- The first bins have code exactly when there are enough of them and each one has. -/
theorem exists_firstBins_iff {bins : List Compiled} {n : Nat} :
    (∃ codes, firstBins bins n = .ok codes) ↔
      n ≤ bins.length ∧ ∀ c ∈ bins.take n, ∃ code, c = .ok code := by
  simp only [firstBins_eq_ok_iff]
  constructor
  · rintro ⟨codes, htake, hlen⟩
    have := congrArg List.length htake
    simp only [List.length_take, List.length_map] at this
    refine ⟨by omega, fun c hc => ?_⟩
    rw [htake] at hc
    obtain ⟨code, -, rfl⟩ := List.mem_map.1 hc
    exact ⟨code, rfl⟩
  · rintro ⟨hlen, hall⟩
    have hmem : bins.take n ∈ Set.range (List.map Except.ok) := by
      rw [Set.range_list_map]
      intro c hc
      obtain ⟨code, rfl⟩ := hall c hc
      exact ⟨code, rfl⟩
    obtain ⟨codes, hcodes⟩ := hmem
    have := congrArg List.length hcodes
    simp only [List.length_take, List.length_map] at this
    exact ⟨codes, hcodes.symm, by omega⟩

/-- If the first bins have code, the guards have it exactly when the flow has. -/
theorem exists_guards_iff {q : String} {target : Target} {n : Nat} {bins : List Compiled}
    {flow : Flow Compiled} {codes : List String} (hn : 2 ≤ n)
    (hcodes : firstBins bins (n - 1) = .ok codes) :
    (∃ g, guards q target n bins flow = .ok g) ↔
      ∀ c, flow = .value c → ∃ code, c = .ok code := by
  obtain ⟨htake, hlen⟩ := firstBins_eq_ok_iff.1 hcodes
  have hbin : ∀ i < n - 1, ∃ code, binAt bins i = .ok code := by
    intro i hi
    refine ⟨codes.get ⟨i, by omega⟩, binAt_eq_ok_iff.2 ?_⟩
    have := congrArg (·[i]?) htake
    simpa [List.getElem?_take, hi, List.getElem?_eq_getElem (show i < codes.length by omega)]
      using this
  obtain ⟨first, hfirst⟩ := hbin 0 (by omega)
  obtain ⟨last, hlast⟩ := hbin (n - 2) (by omega)
  cases flow with
  | clamp => simp [guards, lastBin_eq hn, hfirst, hlast, bind, Except.bind, pure, Except.pure]
  | error => simp [guards, lastBin_eq hn, hlast, bind, Except.bind, pure, Except.pure]
  | value c => cases c <;> simp [guards, bind, Except.bind, pure, Except.pure]

end Binning

/-- What has code is well formed. -/
theorem Content.wellFormed_of_compile {target : Target} {c : Content} {text : String}
    (h : c.compile target = .ok text) : c.WellFormed := by
  induction c using Content.induction generalizing text with
  | constant x => exact .constant x
  | datum d hd =>
    rw [Content.compile_datum target hd] at h
    cases h
  | category input items fallback => exact .category input items fallback
  | unsupported kind => cases h
  | binning input edges bins flow hbins hflow =>
    obtain ⟨es, g, codes, hread, hlen, hasc, hg, hcodes, -⟩ := Binning.assemble_eq_ok_iff.1 h
    obtain ⟨hcount, hall⟩ := Binning.exists_firstBins_iff.1 ⟨codes, hcodes⟩
    rw [Content.compileBins_eq_map] at hcount hall
    refine .binning (Edges.wellFormed_iff.2 ⟨es, hread, hasc, hlen, rfl⟩) (by simpa using hcount) ?_ ?_
    · intro c hc
      obtain ⟨code, hcode⟩ := hall (c.compile target) (by
        rw [← List.map_take]
        exact List.mem_map_of_mem hc)
      exact hbins c (List.mem_of_mem_take hc) hcode
    · rintro c rfl
      obtain ⟨code, hcode⟩ := (Binning.exists_guards_iff hlen hcodes).1 ⟨g, hg⟩ (c.compile target) rfl
      exact hflow c rfl hcode

/-- What is well formed has code. -/
theorem Content.WellFormed.exists_compile {c : Content} (hc : c.WellFormed) (target : Target) :
    ∃ text, c.compile target = .ok text := by
  induction hc with
  | constant x => exact ⟨_, rfl⟩
  | category input items fallback => exact ⟨_, rfl⟩
  | @binning input edges bins flow n hedges hcount _ _ ihbins ihflow =>
    obtain ⟨es, hread, hasc, hlen, rfl⟩ := Edges.wellFormed_iff.1 hedges
    have hall : ∀ c ∈ (Content.compileBins target bins).take (es.length - 1), ∃ code, c = .ok code := by
      rw [Content.compileBins_eq_map, ← List.map_take, List.forall_mem_map]
      exact ihbins
    obtain ⟨codes, hcodes⟩ := Binning.exists_firstBins_iff.2
      ⟨by simpa [Content.compileBins_eq_map] using hcount, hall⟩
    have hvalue : ∀ c, Content.compileFlow target flow = .value c → ∃ code, c = .ok code := by
      cases flow with
      | clamp => simp [Content.compileFlow]
      | error => simp [Content.compileFlow]
      | value c => simpa [Content.compileFlow] using ihflow c rfl
    obtain ⟨g, hg⟩ := (Binning.exists_guards_iff hlen hcodes).2 hvalue
    exact ⟨_, Binning.assemble_eq_ok_iff.2 ⟨es, g, codes, hread, hlen, hasc, hg, hcodes, rfl⟩⟩

/-- **Code is generated exactly for the well-formed contents.** -/
theorem compiles_iff_wellFormed (target : Target) (c : Content) :
    (∃ text, c.compile target = .ok text) ↔ c.WellFormed :=
  ⟨fun ⟨_, h⟩ => Content.wellFormed_of_compile h, fun hc => hc.exists_compile target⟩

end Corrections
