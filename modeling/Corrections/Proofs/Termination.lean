/-
  Where the compilation of a binning does not end.

  * `DecisionTree.generate limit start stop` makes the decision between the bins from `start` to
    `stop` by halving that range again and again, with at most `limit` calls inside each other.
    `exists_generate_iff`: some limit is enough exactly if the range is not empty, and then the tree
    is the balanced one.
  * `Binning.Reaches`: the range for which a binning asks for a tree, after its edges and guards. It
    is empty exactly for a single edge (`Reaches.lt_iff`).
  * `Content.Endless`: somewhere on the way a tree is asked for that no limit is enough for.
  * `ends_iff_not_endless`: this is exactly where the compilation does not end.
-/
import Corrections.Binary64.Reading
import Corrections.Failure
import Corrections.Proofs.DecisionTree
import Corrections.Proofs.Outcome
import Mathlib.Algebra.GroupWithZero.Nat

namespace Corrections

/-! ## The generator -/

namespace DecisionTree

/-- Where a range is cut into two. -/
def middle (start stop : Int) : Int := start + (stop - start) / 2

/-- The decision between the bins from `start` to `stop`, or nothing if more than `limit` calls
would be open at a time. -/
def generate : (limit : Nat) → (start stop : Int) → Option DecisionTree
  | 0, _, _ => none
  | limit + 1, start, stop =>
    if stop - start = 1 then some (.leaf start.toNat)
    else if stop - start = 2 then
      some (.node (start + 1).toNat (.leaf start.toNat) (.leaf (start + 1).toNat))
    else do
      let below ← generate limit start (middle start stop)
      let above ← generate limit (middle start stop) stop
      return .node (middle start stop).toNat below above

/-- The first half of an empty range is an empty range again. -/
theorem generate_of_le {start stop : Int} (h : stop ≤ start) (limit : Nat) :
    generate limit start stop = none := by
  induction limit generalizing stop with
  | zero => rfl
  | succ limit ih =>
    have hmiddle : middle start stop ≤ start := by
      unfold middle
      omega
    have hhalf : generate limit start (middle start stop) = none := ih hmiddle
    rw [generate, if_neg (by omega), if_neg (by omega), hhalf]
    rfl

/-- Up to two bins are decided between at once. -/
theorem generate_of_le_two (limit start : Nat) {size : Nat} (hpos : 1 ≤ size) (hle : size ≤ 2) :
    generate (limit + 1) start ((start : Int) + size) = some (build start size) := by
  rw [generate]
  rcases Nat.eq_or_lt_of_le hle with rfl | hlt
  · rw [if_neg (by omega), if_pos (by omega), build_of_lt (by decide), build_of_le (by decide),
      build_of_le (by decide)]
    rfl
  · rw [if_pos (by omega), build_of_le (by omega), Int.toNat_natCast]

/-- More bins are cut into two halves, as in the balanced tree. -/
theorem generate_of_two_lt (limit start : Nat) {size : Nat} (h : 2 < size) :
    generate (limit + 1) start ((start : Int) + size) = (do
      let below ← generate limit start ((start : Int) + (size / 2 : Nat))
      let above ← generate limit (start + size / 2 : Nat)
        (((start + size / 2 : Nat) : Int) + (size - size / 2 : Nat))
      return .node (start + size / 2) below above) := by
  have hmiddle : middle start (start + size) = ((start + size / 2 : Nat) : Int) := by
    unfold middle
    omega
  have hstop : ((start + size / 2 : Nat) : Int) + (size - size / 2 : Nat) = start + size := by omega
  rw [generate, if_neg (by omega), if_neg (by omega), hmiddle, hstop, Int.toNat_natCast,
    Int.natCast_add]

/-- **The generator makes the balanced tree**, and its depth is logarithmic. -/
theorem generate_eq_build {limit start size : Nat} (hpos : 1 ≤ size) (hle : size ≤ 2 ^ limit) :
    generate (limit + 1) start ((start : Int) + size) = some (build start size) := by
  induction limit generalizing start size with
  | zero =>
    rw [Nat.pow_zero] at hle
    exact generate_of_le_two 0 start hpos (by omega)
  | succ limit ih =>
    rw [Nat.pow_succ] at hle
    rcases Nat.lt_or_ge 2 size with htwo | htwo
    · have hsize : 1 < size := by omega
      rw [generate_of_two_lt _ _ htwo, ih (by omega) (by omega), ih (by omega) (by omega),
        build_of_lt hsize]
      rfl
    · exact generate_of_le_two _ start hpos htwo

/-- No other tree is made. -/
theorem eq_build_of_generate {limit start size : Nat} {t : DecisionTree} (hpos : 1 ≤ size)
    (h : generate limit start ((start : Int) + size) = some t) : t = build start size := by
  induction limit generalizing start size t with
  | zero => cases h
  | succ limit ih =>
    rcases Nat.lt_or_ge 2 size with htwo | htwo
    · rw [generate_of_two_lt _ _ htwo] at h
      obtain ⟨below, hbelow, h⟩ := Option.bind_eq_some_iff.1 h
      obtain ⟨above, habove, ⟨⟩⟩ := Option.bind_eq_some_iff.1 h
      rw [build_of_lt (by omega), ih (by omega) hbelow, ih (by omega) habove]
    · rw [generate_of_le_two _ _ hpos htwo] at h
      exact (Option.some.inj h).symm

/-- **Some limit is enough exactly for the ranges that are not empty**, and the tree is the balanced
one. -/
theorem exists_generate_iff {start : Nat} {stop : Int} {t : DecisionTree} :
    (∃ limit, generate limit start stop = some t) ↔
      start < stop ∧ t = build start (stop - start).toNat := by
  constructor
  · rintro ⟨limit, h⟩
    have hlt : (start : Int) < stop := by
      by_contra hle
      rw [generate_of_le (by omega)] at h
      cases h
    obtain ⟨size, rfl⟩ : ∃ size : Nat, stop = start + size := ⟨(stop - start).toNat, by omega⟩
    rw [show ((start : Int) + size - start).toNat = size by omega]
    exact ⟨hlt, eq_build_of_generate (by omega) h⟩
  · rintro ⟨hlt, rfl⟩
    obtain ⟨size, rfl⟩ : ∃ size : Nat, stop = start + size := ⟨(stop - start).toNat, by omega⟩
    rw [show ((start : Int) + size - start).toNat = size by omega]
    exact ⟨size + 1, generate_eq_build (by omega) Nat.lt_two_pow_self.le⟩

end DecisionTree

/-! ## Binnings -/

namespace Binning

/-- A binning asks for a tree over the bins from `start` to `stop`: its edges are in order, and its
guards have code. -/
inductive Reaches (target : Target) (edges : Edges) (bins : List Compiled) (flow : Flow Compiled) :
    (start stop : Int) → Prop
  | call {es : List Edge} {g : Guards} (hread : edges.read = .ok es) (hne : es ≠ [])
      (hasc : Edge.ascending es = .ok ())
      (hguards : guards DecisionTree.query target es.length bins flow = .ok g) :
      Reaches target edges bins flow 0 (es.length - 1)

variable {target : Target} {edges : Edges} {bins : List Compiled} {flow : Flow Compiled}
  {start stop : Int}

/-- Only a single edge has no range. -/
theorem Reaches.lt_iff (h : Reaches target edges bins flow start stop) :
    start < stop ↔ edges.size ≠ 1 := by
  obtain ⟨hread, hne, -, -⟩ := h
  have hpos := List.length_pos_iff.2 hne
  rw [Edges.size_of_read hread]
  omega

/-- Some limit is enough for the tree that a binning asks for, unless it has a single edge. -/
theorem Reaches.exists_generate_iff (h : Reaches target edges bins flow start stop)
    {t : DecisionTree} :
    (∃ limit, DecisionTree.generate limit start stop = some t) ↔
      start < stop ∧ t = DecisionTree.build 0 (edges.size - 1) := by
  cases h with
  | @call es g hread hne hasc hguards =>
    have hsize : ((es.length : Int) - 1 - (0 : Nat)).toNat = es.length - 1 := by omega
    rw [Edges.size_of_read hread, ← hsize]
    exact DecisionTree.exists_generate_iff

end Binning

/-- Reading the edges ends. -/
theorem Edges.read_ne_endlessSplit (edges : Edges) : edges.read ≠ .error .endlessSplit := by
  have hall : ∀ ds, Edge.readAll ds ≠ .error .endlessSplit := by
    intro ds
    induction ds with
    | nil => simp [Edge.readAll]
    | cons d ds ih =>
      unfold Edge.readAll
      cases Edge.ofDatum? d with
      | none => simp
      | some e =>
        cases hread : Edge.readAll ds with
        | ok es => simp [Except.map]
        | error e =>
          rintro ⟨⟩
          exact ih hread
  cases edges with
  | listed entries => exact hall entries
  | uniform => rintro ⟨⟩
  | unknown => rintro ⟨⟩

/-- Comparing them ends as well. -/
theorem Edge.ascending_ne_endlessSplit (es : List Edge) :
    Edge.ascending es ≠ .error .endlessSplit := by
  fun_induction Edge.ascending es with
  | case1 a b rest e h =>
    rintro ⟨⟩
    cases a <;> cases b <;> cases h
  | case2 a b rest h => simp
  | case3 a b rest h ih => exact ih
  | case4 es h => simp

namespace Content

/-- The compilation of a binning comes to the content `c`: the edges are in order, and all parts
before it have code. -/
def ComesTo (target : Target) (edges : Edges) (bins : List Content) (flow : Flow Content)
    (c : Content) : Prop :=
  ∃ es before after, edges.read = .ok es ∧ es ≠ [] ∧ Edge.ascending es = .ok () ∧
    parts es.length bins flow = before ++ some c :: after ∧
    ∀ p ∈ before, ∃ code, compilePart target p = .ok code

/-- On the way through a content, a tree is asked for that no limit is enough for. -/
inductive Endless (target : Target) : Content → Prop
  | here {input : String} {edges : Edges} {bins : List Content} {flow : Flow Content}
      {start stop : Int}
      (hreaches : Binning.Reaches target edges (compileBins target bins) (compileFlow target flow)
        start stop)
      (hnever : ∀ limit, DecisionTree.generate limit start stop = none) :
      Endless target (.binning input edges bins flow)
  | part {input : String} {edges : Edges} {bins : List Content} {flow : Flow Content} {c : Content}
      (hcomes : ComesTo target edges bins flow c) (hc : Endless target c) :
      Endless target (.binning input edges bins flow)

variable {target : Target} {input : String} {edges : Edges} {bins : List Content} {flow : Flow Content}

theorem mem_of_mem_parts {n : Nat} {c : Content} (h : some c ∈ parts n bins flow) :
    c ∈ bins ∨ flow = .value c := by
  have hlast : lastPart n bins = some c → c ∈ bins := by
    unfold lastPart
    split_ifs
    · exact List.mem_of_getElem?
    · exact List.mem_of_getElem?
  rw [parts, List.mem_append, List.mem_map] at h
  rcases h with h | ⟨i, -, hi⟩
  · cases flow with
    | clamp =>
      rw [guardParts, List.mem_pair] at h
      rcases h with h | h
      · exact .inl (List.mem_of_getElem? h.symm)
      · exact .inl (hlast h.symm)
    | error => exact .inl (hlast (List.mem_singleton.1 h).symm)
    | value c' => exact .inr (congrArg Flow.value (Option.some.inj (List.mem_singleton.1 h)).symm)
  · exact .inl (List.mem_of_getElem? hi)

theorem ComesTo.mem {c : Content} (h : ComesTo target edges bins flow c) :
    c ∈ bins ∨ flow = .value c := by
  obtain ⟨es, before, after, -, -, -, hparts, -⟩ := h
  refine mem_of_mem_parts (n := es.length) ?_
  rw [hparts]
  exact List.mem_append_right _ List.mem_cons_self

/-- What does not end has edges in order. -/
theorem exists_read_of_endlessSplit
    (h : (Content.binning input edges bins flow).compile target = .error .endlessSplit) :
    ∃ es, edges.read = .ok es ∧ es ≠ [] ∧ Edge.ascending es = .ok () := by
  cases hread : edges.read with
  | error e =>
    simp only [compile, Binning.assemble, hread, bind, Except.bind] at h
    cases h
    exact absurd hread edges.read_ne_endlessSplit
  | ok es =>
    refine ⟨es, rfl, ?_, ?_⟩
    · rintro rfl
      simp [compile, Binning.assemble, hread, bind, Except.bind, throw, throwThe,
        MonadExceptOf.throw] at h
    · cases hasc : Edge.ascending es with
      | error e =>
        rw [compile, Binning.assemble_of_ascending_error hread hasc] at h
        cases h
        exact absurd hasc (Edge.ascending_ne_endlessSplit es)
      | ok u => rfl

/-- **One binning does not end** exactly if no limit is enough for its tree, or it comes to a part
that does not end. -/
theorem compile_binning_endless_iff :
    (Content.binning input edges bins flow).compile target = .error .endlessSplit ↔
      (∃ start stop, Binning.Reaches target edges (compileBins target bins)
        (compileFlow target flow) start stop ∧
        ∀ limit, DecisionTree.generate limit start stop = none) ∨
      ∃ c, ComesTo target edges bins flow c ∧ c.compile target = .error .endlessSplit := by
  constructor
  · intro h
    obtain ⟨es, hread, hne, hasc⟩ := exists_read_of_endlessSplit h
    rw [compile, Binning.assemble_eq_error_iff hread hne hasc, attempts_compile,
      firstFault?_append] at h
    -- The first fault is that of a part, or it is behind all of them.
    cases hparts : firstFault? ((parts es.length bins flow).map (compilePart target)) with
    | some e =>
      rw [hparts] at h
      obtain rfl : e = .endlessSplit := Option.some.inj h
      obtain ⟨before, after, heq, hbefore⟩ := firstFault?_eq_some_iff.1 hparts
      obtain ⟨before, rest, hsplit, rfl, hrest⟩ := List.map_eq_append_iff.1 heq
      obtain ⟨p, after, rfl, hp, -⟩ := List.map_eq_cons_iff.1 hrest
      cases p with
      | none => cases hp
      | some c =>
        refine .inr ⟨c, ⟨es, before, after, hread, hne, hasc, hsplit, fun p hp => ?_⟩, hp⟩
        exact hbefore _ (List.mem_map_of_mem hp)
    | none =>
      rw [hparts, Option.none_or] at h
      by_cases hone : es.length = 1
      · have hguards : firstFault? (Binning.guardCodes es.length (compileBins target bins)
            (compileFlow target flow)) = none := by
          rw [parts, List.map_append, ← guardCodes_compile, firstFault?_append,
            Option.or_eq_none_iff] at hparts
          exact hparts.1
        obtain ⟨g, hg⟩ := Binning.exists_guards_eq_ok_iff.2 hguards
        exact .inl ⟨0, _, .call hread hne hasc hg, DecisionTree.generate_of_le (by omega)⟩
      · rw [if_neg hone] at h
        cases h
  · rintro (⟨start, stop, hreaches, hnever⟩ | ⟨c, hcomes, hc⟩)
    · -- For more edges some limit would be enough.
      have hone : edges.size = 1 := by
        by_contra hsize
        obtain ⟨limit, ht⟩ := hreaches.exists_generate_iff.2 ⟨hreaches.lt_iff.2 hsize, rfl⟩
        rw [hnever limit] at ht
        cases ht
      obtain ⟨hread, hne, hasc, hguards⟩ := hreaches
      rw [Edges.size_of_read hread] at hone
      rw [compile, Binning.assemble_eq_error_iff hread hne hasc, Binning.attempts, firstFault?_append,
        Binning.exists_guards_eq_ok_iff.1 ⟨_, hguards⟩, if_pos hone]
      rfl
    · obtain ⟨es, before, after, hread, hne, hasc, hparts, hbefore⟩ := hcomes
      rw [compile, Binning.assemble_eq_error_iff hread hne hasc, attempts_compile, firstFault?_append,
        hparts, List.map_append, List.map_cons]
      have hfirst : firstFault? (before.map (compilePart target) ++
          compilePart target (some c) :: after.map (compilePart target)) = some .endlessSplit :=
        firstFault?_eq_some_iff.2 ⟨_, _, by rw [compilePart, hc], List.forall_mem_map.2 hbefore⟩
      rw [hfirst]
      rfl

/-- **The compilation does not end exactly where no limit is enough for a tree.** -/
theorem compile_eq_endlessSplit_iff (c : Content) :
    c.compile target = .error .endlessSplit ↔ c.Endless target := by
  constructor
  · intro h
    induction c using Content.induction with
    | constant x => cases h
    | datum d hd =>
      rw [compile_datum target hd] at h
      cases h
    | category input items fallback => cases h
    | unsupported kind => cases h
    | binning input edges bins flow ihbins ihflow =>
      rcases compile_binning_endless_iff.1 h with ⟨start, stop, hreaches, hnever⟩ | ⟨c, hcomes, hc⟩
      · exact .here hreaches hnever
      · rcases hcomes.mem with hmem | hvalue
        · exact .part hcomes (ihbins c hmem hc)
        · exact .part hcomes (ihflow c hvalue hc)
  · intro h
    induction h with
    | here hreaches hnever => exact compile_binning_endless_iff.2 (.inl ⟨_, _, hreaches, hnever⟩)
    | part hcomes _ ih => exact compile_binning_endless_iff.2 (.inr ⟨_, hcomes, ih⟩)

/-- The compilation ends, with code or with an error that is seen. -/
def Ends (target : Target) (c : Content) : Prop :=
  ∀ e, c.compile target = .error e → e.ending ≠ .diverges

theorem ends_iff {c : Content} : c.Ends target ↔ c.compile target ≠ .error .endlessSplit := by
  have hending : ∀ e : CompileError, e.ending = .diverges ↔ e = .endlessSplit := by
    intro e
    cases e <;> simp [CompileError.ending, CompileError.complaint?, CompileError.message?,
      Ending.complaint]
  constructor
  · intro h hcompile
    exact h _ hcompile rfl
  · intro h e hcompile hdiverges
    rw [(hending e).1 hdiverges] at hcompile
    exact h hcompile

end Content

/-- **Which binnings end.** A binning does not end exactly if it comes, itself or in a part of it,
to a tree that no limit is enough for. The range of the tree that it asks for itself is empty
exactly if there is a single edge. For every other range some limit is enough, and the tree is the
balanced one. -/
theorem ends_iff_not_endless (target : Target) (input : String) (entries : List Datum)
    (bins : List Content) (flow : Flow Content) :
    ((Content.binning input (.listed entries) bins flow).Ends target ↔
        ¬ (Content.binning input (.listed entries) bins flow).Endless target) ∧
      ∀ start stop, Binning.Reaches target (.listed entries) (Content.compileBins target bins)
          (Content.compileFlow target flow) start stop →
        (start < stop ↔ entries.length ≠ 1) ∧
          ∀ t, (∃ limit, DecisionTree.generate limit start stop = some t) ↔
            start < stop ∧ t = DecisionTree.build 0 (entries.length - 1) := by
  refine ⟨?_, fun start stop hreaches => ⟨hreaches.lt_iff, fun t => hreaches.exists_generate_iff⟩⟩
  rw [Content.ends_iff, ne_eq, Content.compile_eq_endlessSplit_iff]

/-- A binning with three edges ends: it asks for a tree over two bins, and some limit is enough for
it. -/
theorem three_edges_end :
    let number := Binary64.ofRank false
    let contents := [Content.constant (number 1), .constant (number 2)]
    Binning.Reaches .cuda (.ofNumbers [number 10, number 20, number 30])
        (Content.compileBins .cuda contents) .clamp 0 2 ∧
      (∃ limit, DecisionTree.generate limit 0 2 = some (.build 0 2)) ∧
      (Content.binning "x" (.ofNumbers [number 10, number 20, number 30]) contents .clamp).Ends .cuda ∧
      ¬ (Content.binning "x" (.ofNumbers [number 10, number 20, number 30]) contents
        .clamp).Endless .cuda := by
  intro number contents
  have hreaches : Binning.Reaches .cuda (.ofNumbers [number 10, number 20, number 30])
      (Content.compileBins .cuda contents) .clamp 0 2 :=
    @Binning.Reaches.call _ _ _ _ [.number (number 10), .number (number 20), .number (number 30)] _ rfl
      (by simp) (by decide +kernel) rfl
  have hwf : (Content.binning "x" (.ofNumbers [number 10, number 20, number 30]) contents
      .clamp).WellFormed :=
    .binning (.numbers (by decide) (by decide +kernel) (by decide +kernel)) (by decide)
      (by simpa [contents] using ⟨.constant _, .constant _⟩) (by rintro c ⟨⟩)
  obtain ⟨text, htext⟩ := hwf.exists_compile .cuda
  obtain ⟨hends, hrange⟩ := ends_iff_not_endless .cuda "x" _ contents .clamp
  obtain ⟨hlt, hgenerate⟩ := hrange 0 2 hreaches
  have hend : (Content.binning "x" (.ofNumbers [number 10, number 20, number 30]) contents
      .clamp).Ends .cuda := by
    intro e he
    rw [htext] at he
    cases he
  exact ⟨hreaches, (hgenerate _).2 ⟨hlt.2 (by decide), rfl⟩, hend, hends.1 hend⟩

/-- **A binning with a single edge does not end**, although it has no bin too many or too few. It
asks for a tree over the bins from 0 to 0, and no limit is enough for that. -/
theorem single_edge_endless :
    ∃ one, Binary64.read? "1.0" = some one ∧
      let c := Content.binning "x" (.ofNumbers [.zero false]) [] (.value (.constant one))
      Binning.Reaches .c (.ofNumbers [.zero false]) [] (Content.compileFlow .c (.value (.constant one)))
        0 0 ∧
      (∀ limit, DecisionTree.generate limit 0 0 = none) ∧
      c.compile .c = .error .endlessSplit ∧ ¬ c.Ends .c := by
  refine ⟨.ofRank false (1023 * 2 ^ 52), by decide +kernel, ?_⟩
  intro c
  have hcompile : c.compile .c = .error .endlessSplit := rfl
  refine ⟨?_, DecisionTree.generate_of_le (Int.le_refl 0), hcompile, ?_⟩
  · exact @Binning.Reaches.call _ _ _ _ [.number (.zero false)] _ rfl (by simp) rfl rfl
  · exact fun h => Content.ends_iff.1 h hcompile

end Corrections
