/-
  Which fault of a binning is reported.

  * `firstFault?`: the first fault in a row of results.
  * `Binning.attempts n bins flow`: the results that the code of a binning with `n` edges is made
    of, in the order in which they are asked for. First come those of the guards, then the bins from
    left to right. There is no bin to come to between the ends of a single edge.
  * `assemble_eq_error_iff`: if the edges are in order, the fault of a binning is the first one of
    its attempts, and without one there is code (`exists_assemble_iff`).
  * `assemble_take`: bins beyond the last edge are not looked at.
  * `Content.parts n bins flow`: the contents behind the attempts (`attempts_compile`).
-/
import Corrections.Proofs.Acceptance

namespace Corrections

/-- The fault of a result. -/
def fault? {α : Type} : Except CompileError α → Option CompileError
  | .error e => some e
  | .ok _ => none

/-- The first fault in a row of results. -/
def firstFault? {α : Type} (rs : List (Except CompileError α)) : Option CompileError :=
  rs.findSome? fault?

section
variable {α β : Type} {e : CompileError}

theorem fault?_eq_some_iff {r : Except CompileError α} : fault? r = some e ↔ r = .error e := by
  cases r <;> simp [fault?]

theorem fault?_eq_none_iff {r : Except CompileError α} : fault? r = none ↔ ∃ a, r = .ok a := by
  cases r <;> simp [fault?]

theorem firstFault?_cons (r : Except CompileError α) (rs : List (Except CompileError α)) :
    firstFault? (r :: rs) = (fault? r).or (firstFault? rs) := by
  unfold firstFault?
  rw [List.findSome?_cons]
  cases fault? r <;> rfl

theorem firstFault?_append (rs rs' : List (Except CompileError α)) :
    firstFault? (rs ++ rs') = (firstFault? rs).or (firstFault? rs') :=
  List.findSome?_append

theorem firstFault?_eq_none_iff {rs : List (Except CompileError α)} :
    firstFault? rs = none ↔ ∀ r ∈ rs, ∃ a, r = .ok a := by
  unfold firstFault?
  rw [List.findSome?_eq_none_iff]
  exact forall₂_congr fun r _ => fault?_eq_none_iff

/-- A fault is the first one if nothing before it has one. -/
theorem firstFault?_eq_some_iff {rs : List (Except CompileError α)} :
    firstFault? rs = some e ↔
      ∃ before after, rs = before ++ .error e :: after ∧ ∀ r ∈ before, ∃ a, r = .ok a := by
  unfold firstFault?
  rw [List.findSome?_eq_some_iff]
  constructor
  · rintro ⟨before, r, after, rfl, hr, hbefore⟩
    obtain rfl := fault?_eq_some_iff.1 hr
    exact ⟨before, after, rfl, fun r hr => fault?_eq_none_iff.1 (hbefore r hr)⟩
  · rintro ⟨before, after, rfl, hbefore⟩
    exact ⟨before, .error e, after, rfl, rfl, fun r hr => fault?_eq_none_iff.2 (hbefore r hr)⟩

/-- A row of results that are asked for one by one stops at the first fault. -/
theorem mapM_eq_error_iff {f : α → Except CompileError β} {xs : List α} :
    xs.mapM f = .error e ↔ firstFault? (xs.map f) = some e := by
  induction xs with
  | nil => simp [firstFault?, pure, Except.pure]
  | cons x xs ih =>
    rw [List.mapM_cons, List.map_cons, firstFault?_cons]
    cases f x with
    | error e' => simp [fault?, bind, Except.bind]
    | ok b =>
      rw [fault?, Option.none_or, ← ih]
      cases xs.mapM f <;> simp [bind, Except.bind, pure, Except.pure]

end

namespace Binning
variable {q input : String} {target : Target} {edges : Edges} {es : List Edge} {n : Nat}
  {bins : List Compiled} {flow : Flow Compiled} {e : CompileError}

/-- The codes in the guards of a binning with `n` edges. -/
def guardCodes (n : Nat) (bins : List Compiled) : Flow Compiled → List Compiled
  | .clamp => [binAt bins 0, lastBin bins n]
  | .error => [lastBin bins n]
  | .value code => [code]

/-- What the code of a binning with `n` edges is made of, in the order in which it is asked for. -/
def attempts (n : Nat) (bins : List Compiled) (flow : Flow Compiled) : List Compiled :=
  guardCodes n bins flow ++
    if n = 1 then [.error .endlessSplit] else (List.range (n - 1)).map (binAt bins)

/-- Between at least two edges, the attempts are the bins there and the value of the flow. -/
theorem mem_attempts_iff (hn : 2 ≤ n) {r : Compiled} :
    r ∈ attempts n bins flow ↔ (∃ i < n - 1, r = binAt bins i) ∨ flow = .value r := by
  have hbin : ∀ i < n - 1, ∃ j < n - 1, binAt bins i = binAt bins j := fun i hi => ⟨i, hi, rfl⟩
  unfold attempts
  rw [if_neg (by omega), List.mem_append, List.mem_map]
  constructor
  · rintro (hr | ⟨i, hi, rfl⟩)
    · cases flow with
      | clamp =>
        rw [guardCodes, lastBin_eq hn, List.mem_pair] at hr
        rcases hr with rfl | rfl
        · exact .inl (hbin 0 (by omega))
        · exact .inl (hbin (n - 2) (by omega))
      | error =>
        rw [guardCodes, lastBin_eq hn, List.mem_singleton] at hr
        exact .inl (hr ▸ hbin (n - 2) (by omega))
      | value code => exact .inr (congrArg Flow.value (List.mem_singleton.1 hr).symm)
    · exact .inl (hbin i (List.mem_range.1 hi))
  · rintro (⟨i, hi, rfl⟩ | rfl)
    · exact .inr ⟨i, List.mem_range.2 hi, rfl⟩
    · exact .inl (List.mem_singleton.2 rfl)

theorem guards_eq_error_iff :
    guards q target n bins flow = .error e ↔ firstFault? (guardCodes n bins flow) = some e := by
  cases flow with
  | clamp =>
    simp only [guards, guardCodes, firstFault?_cons]
    cases binAt bins 0 <;> cases lastBin bins n <;> simp [fault?, firstFault?, bind, Except.bind, pure, Except.pure]
  | error =>
    simp only [guards, guardCodes, firstFault?_cons]
    cases lastBin bins n <;> simp [fault?, firstFault?, bind, Except.bind, pure, Except.pure]
  | value code =>
    simp only [guards, guardCodes, firstFault?_cons]
    cases code <;> simp [fault?, firstFault?, bind, Except.bind, pure, Except.pure]

theorem exists_guards_eq_ok_iff :
    (∃ g, guards q target n bins flow = .ok g) ↔ firstFault? (guardCodes n bins flow) = none := by
  cases h : guards q target n bins flow with
  | error e => simp [guards_eq_error_iff.1 h]
  | ok g =>
    refine iff_of_true ⟨g, rfl⟩ (Option.eq_none_iff_forall_ne_some.2 fun e he => ?_)
    rw [guards_eq_error_iff.2 he] at h
    cases h

/-- Edges out of order are a fault before anything else is looked at. -/
theorem assemble_of_ascending_error (hread : edges.read = .ok es) (h : Edge.ascending es = .error e) :
    assemble target input edges bins flow = .error e := by
  have hempty : es.isEmpty = false := by
    cases es with
    | nil => cases h
    | cons a rest => rfl
  simp [assemble, hread, hempty, h, bind, Except.bind]

/-- **The fault of a binning is the first one of its attempts**, if its edges are in order. -/
theorem assemble_eq_error_iff (hread : edges.read = .ok es) (hne : es ≠ [])
    (hasc : Edge.ascending es = .ok ()) :
    assemble target input edges bins flow = .error e ↔
      firstFault? (attempts es.length bins flow) = some e := by
  have hempty : es.isEmpty = false := by simpa using hne
  unfold attempts
  rw [firstFault?_append]
  cases hg : guards DecisionTree.query target es.length bins flow with
  | error e' =>
    rw [guards_eq_error_iff.1 hg]
    simp [assemble, hread, hempty, hasc, hg, bind, Except.bind]
  | ok g =>
    rw [exists_guards_eq_ok_iff.1 ⟨g, hg⟩, Option.none_or]
    by_cases hone : es.length = 1
    · rw [hone] at hg
      simp [assemble, hread, hempty, hasc, hg, hone, firstFault?, fault?, bind, Except.bind, throw,
        throwThe, MonadExceptOf.throw]
    · rw [if_neg hone, ← mapM_eq_error_iff]
      change _ ↔ firstBins bins (es.length - 1) = .error e
      cases hcodes : firstBins bins (es.length - 1) <;>
        simp [assemble, hread, hempty, hasc, hg, hone, hcodes, bind, Except.bind, pure, Except.pure]

theorem exists_assemble_iff (hread : edges.read = .ok es) (hne : es ≠ [])
    (hasc : Edge.ascending es = .ok ()) :
    (∃ text, assemble target input edges bins flow = .ok text) ↔
      firstFault? (attempts es.length bins flow) = none := by
  cases h : assemble target input edges bins flow with
  | error e => simp [(assemble_eq_error_iff hread hne hasc).1 h]
  | ok text =>
    refine iff_of_true ⟨text, rfl⟩ (Option.eq_none_iff_forall_ne_some.2 fun e he => ?_)
    rw [(assemble_eq_error_iff hread hne hasc).2 he] at h
    cases h

/-! ## Bins beyond the edges -/

theorem binAt_take {i : Nat} (h : i < n) : binAt (bins.take n) i = binAt bins i := by
  rw [binAt, binAt, List.getElem?_take_of_lt h]

theorem firstBins_take (bins : List Compiled) (n : Nat) :
    firstBins (bins.take n) n = firstBins bins n := by
  have h : ∀ m ≤ n, firstBins (bins.take n) m = firstBins bins m := by
    intro m hm
    induction m with
    | zero => rfl
    | succ m ih => rw [firstBins_succ, firstBins_succ, ih (by omega), binAt_take (by omega)]
  exact h n (Nat.le_refl n)

theorem guards_take (hn : 2 ≤ n) :
    guards q target n (bins.take (n - 1)) flow = guards q target n bins flow := by
  have hfirst : binAt (bins.take (n - 1)) 0 = binAt bins 0 := binAt_take (by omega)
  have hlast : lastBin (bins.take (n - 1)) n = lastBin bins n := by
    rw [lastBin_eq hn, lastBin_eq hn, binAt_take (by omega)]
  cases flow with
  | clamp => rw [guards, guards, hfirst, hlast]
  | error => rw [guards, guards, hlast]
  | value code => rfl

theorem template_take (h : edges.size ≠ 1) :
    template q target edges (bins.take (edges.size - 1)) flow = template q target edges bins flow := by
  cases hread : edges.read with
  | error e => simp [template, hread, bind, Except.bind]
  | ok es =>
    rw [Edges.size_of_read hread] at h ⊢
    rcases es with _ | ⟨a, _ | ⟨b, rest⟩⟩
    · simp [template, hread, bind, Except.bind, throw, throwThe, MonadExceptOf.throw]
    · exact absurd rfl h
    · have hn : 2 ≤ (a :: b :: rest).length := by simp
      simp only [template, hread, bind, Except.bind]
      rw [guards_take hn, firstBins_take]

/-- **Bins beyond the last edge are not looked at.** -/
theorem assemble_take (h : edges.size ≠ 1) :
    assemble target input edges (bins.take (edges.size - 1)) flow =
      assemble target input edges bins flow := by
  rw [assemble_eq_template, assemble_eq_template, template_take h]

end Binning

/-! ## The contents behind the attempts -/

namespace Content
variable {target : Target}

/-- The code of a part of a binning, where nothing stands for a bin that is missing. -/
def compilePart (target : Target) : Option Content → Compiled
  | some c => c.compile target
  | none => .error .missingBin

/-- The bin that ends at the last of `n` edges. A single edge ends no bin, and the last of all bins
stands in. -/
def lastPart (n : Nat) (bins : List Content) : Option Content :=
  if n ≤ 1 then bins[bins.length - 1]? else bins[n - 2]?

/-- The contents in the guards of a binning with `n` edges. -/
def guardParts (n : Nat) (bins : List Content) : Flow Content → List (Option Content)
  | .clamp => [bins[0]?, lastPart n bins]
  | .error => [lastPart n bins]
  | .value c => [some c]

/-- The contents that a binning with `n` edges compiles, in this order. -/
def parts (n : Nat) (bins : List Content) (flow : Flow Content) : List (Option Content) :=
  guardParts n bins flow ++ (List.range (n - 1)).map (bins[·]?)

theorem binAt_compileBins (bins : List Content) (i : Nat) :
    Binning.binAt (compileBins target bins) i = compilePart target bins[i]? := by
  rw [compileBins_eq_map, Binning.binAt, List.getElem?_map]
  cases bins[i]? <;> rfl

theorem lastBin_compileBins (bins : List Content) (n : Nat) :
    Binning.lastBin (compileBins target bins) n = compilePart target (lastPart n bins) := by
  unfold Binning.lastBin lastPart
  rw [binAt_compileBins, binAt_compileBins, compileBins_eq_map, List.length_map]
  split_ifs <;> rfl

theorem guardCodes_compile (n : Nat) (bins : List Content) (flow : Flow Content) :
    Binning.guardCodes n (compileBins target bins) (compileFlow target flow) =
      (guardParts n bins flow).map (compilePart target) := by
  cases flow with
  | clamp =>
    rw [compileFlow, Binning.guardCodes, binAt_compileBins, lastBin_compileBins]
    rfl
  | error =>
    rw [compileFlow, Binning.guardCodes, lastBin_compileBins]
    rfl
  | value c => rfl

/-- **The attempts of a binning are its parts**, and behind those of a single edge comes the
division that never ends. -/
theorem attempts_compile (n : Nat) (bins : List Content) (flow : Flow Content) :
    Binning.attempts n (compileBins target bins) (compileFlow target flow) =
      (parts n bins flow).map (compilePart target) ++
        if n = 1 then [.error .endlessSplit] else [] := by
  have hbins : ∀ m, (List.range m).map (Binning.binAt (compileBins target bins)) =
      ((List.range m).map (bins[·]?)).map (compilePart target) := by
    intro m
    rw [List.map_map]
    exact List.map_congr_left fun i _ => binAt_compileBins bins i
  rw [Binning.attempts, parts, List.map_append, guardCodes_compile, hbins]
  by_cases hone : n = 1
  · subst hone
    simp
  · simp [hone]

end Content

end Corrections
