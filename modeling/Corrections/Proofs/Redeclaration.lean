/-
  How often the blocks of a header declare the arrays of a binning.

  * `Once names`: a block that declares each of the two arrays at most once.
  * `Content.Stacked`: somewhere in the content a binning with a single bin has a binning in that bin.
  * `Content.WellFormed.declaresOnce_iff`: in the statements of a content every block declares the arrays at
    most once exactly when the content is not stacked. A decision between bins has a block for each of them,
    but a single bin stands in the block of the arrays themselves.
  * `Silent ts`: tokens that declare nothing. The bounds of the parameters have to be such, because they are
    written into the function as they are (`text_bound_redeclares`).
  * `declares_once_iff_not_stacked`: the same for the whole function of a header.
-/
import Corrections.Proofs.Builder.Behaviour
import Corrections.Proofs.Code.Scope

namespace Corrections

open Code DecisionTree

/-- The block declares each of the two arrays at most once. -/
def Once (names : List String) : Prop := names.count "edges" ≤ 1 ∧ names.count "values" ≤ 1

instance (names : List String) : Decidable (Once names) :=
  inferInstanceAs (Decidable (_ ∧ _))

/-- So do a block and all blocks in it. -/
def DeclaresOnce (b : Block) : Prop := Once (declared b) ∧ ∀ names ∈ innerBlocks b, Once names

theorem once_nil : Once [] := by decide

theorem once_append_of_notMem {names own : List String} (hedges : "edges" ∉ names)
    (hvalues : "values" ∉ names) : Once (names ++ own) ↔ Once own := by
  simp [Once, List.count_append, List.count_eq_zero.2 hedges, List.count_eq_zero.2 hvalues]

/-- Behind the two arrays no block can declare them again. -/
theorem once_arrays_append {own : List String} :
    Once (["edges", "values"] ++ own) ↔ "edges" ∉ own ∧ "values" ∉ own := by
  have hedges : ["edges", "values"].count "edges" = 1 := by decide
  have hvalues : ["edges", "values"].count "values" = 1 := by decide
  rw [Once, List.count_append, List.count_append, hedges, hvalues, ← List.count_eq_zero,
    ← List.count_eq_zero]
  omega

/-! ## Statements -/

theorem declared_closed (b : Block) : declared (closed b) = declared b :=
  collect_closed declared_append rfl b

theorem innerBlocks_closed (b : Block) : innerBlocks (closed b) = innerBlocks b :=
  collect_closed innerBlocks_append rfl b

theorem declaresOnce_closed (b : Block) : DeclaresOnce (closed b) ↔ DeclaresOnce b := by
  rw [DeclaresOnce, declared_closed, innerBlocks_closed]
  rfl

theorem declaresOnce_return (l : Literal) : DeclaresOnce [.return_ l] :=
  ⟨once_nil, by simp [innerBlocks, Statement.innerBlocks]⟩

theorem declaresOnce_failure (q : String) (target : Target) : DeclaresOnce (Binning.failure q target) :=
  ⟨once_nil, by simp [Binning.failure, innerBlocks, Statement.innerBlocks]⟩

/-- The inner blocks of a branch are its block and those in it. -/
theorem forall_mem_block {b : Block} :
    (∀ names ∈ innerBlocks b ++ [declared b], Once names) ↔ DeclaresOnce b := by
  rw [List.forall_mem_append, List.forall_mem_singleton, and_comm]
  rfl

theorem declaresOnce_ifElse (c : Condition) (yes no : Block) :
    DeclaresOnce [.ifElse c yes no] ↔ DeclaresOnce yes ∧ DeclaresOnce no := by
  have hdeclared : declared [.ifElse c yes no] = [] := rfl
  have hinner : innerBlocks [.ifElse c yes no] =
      innerBlocks yes ++ [declared yes] ++ (innerBlocks no ++ [declared no]) := List.append_nil _
  rw [DeclaresOnce, hdeclared, hinner, List.forall_mem_append, forall_mem_block, forall_mem_block]
  exact and_iff_right once_nil

namespace Binning
variable {q : String} {edges : List Edge} {below above : Block} {bins : List Block}

/-- Every bin of a decision has a block of its own, unless it is the only one. -/
theorem declaresOnce_search (hne : bins ≠ []) :
    DeclaresOnce (search q bins) ↔ ∀ b ∈ bins, DeclaresOnce b :=
  search_iff declaresOnce_closed declaresOnce_ifElse hne

theorem declared_search_of_lt (h : 1 < bins.length) : declared (search q bins) = [] := by
  rw [search, build_of_lt h, statements]
  rfl

theorem declared_search_single (b : Block) : declared (search q [b]) = declared b := by
  have hbuild : build 0 [b].length = .leaf 0 := build_of_le (Nat.le_refl 1)
  rw [search, hbuild, statements, declared_closed]
  rfl

/-- What the decision declares in the block of the arrays is what a single bin declares. -/
theorem notMem_declared_search_iff (hne : bins ≠ []) :
    ("edges" ∉ declared (search q bins) ∧ "values" ∉ declared (search q bins)) ↔
      ∀ b, bins = [b] → "edges" ∉ declared b ∧ "values" ∉ declared b := by
  rcases Nat.eq_or_lt_of_le (List.length_pos_iff.2 hne) with hone | hmany
  · obtain ⟨b, rfl⟩ := List.length_eq_one_iff.1 hone.symm
    simp [declared_search_single]
  · rw [declared_search_of_lt hmany]
    refine iff_of_true (by simp) ?_
    rintro b rfl
    simp at hmany

theorem declared_program (q : String) (edges : List Edge) (below above : Block) (bins : List Block) :
    declared (program q edges below above bins) =
      ["edges", "values"] ++ declared (search q bins) := by
  rw [program, declared_append]
  rfl

theorem forall_innerBlocks_program :
    (∀ names ∈ innerBlocks (program q edges below above bins), Once names) ↔
      DeclaresOnce below ∧ DeclaresOnce above ∧ ∀ names ∈ innerBlocks (search q bins), Once names := by
  have hinner : innerBlocks (program q edges below above bins) = [[], []] ++
      ((innerBlocks (closed below) ++ [declared (closed below)]) ++
        ((innerBlocks (closed above) ++ [declared (closed above)]) ++ innerBlocks (search q bins))) := by
    simp [program, arrays, guardBranches, innerBlocks, Statement.innerBlocks]
  have harrays : ∀ names ∈ ([[], []] : List (List String)), Once names := by simp [once_nil]
  rw [hinner, List.forall_mem_append, List.forall_mem_append, forall_mem_block, List.forall_mem_append,
    forall_mem_block, declaresOnce_closed, declaresOnce_closed]
  exact and_iff_right harrays

/-- The blocks of a binning: those outside of the edges, those of the bins, and the one that the arrays and a
single bin stand in. -/
theorem declaresOnce_program (hne : bins ≠ []) :
    DeclaresOnce (program q edges below above bins) ↔
      DeclaresOnce below ∧ DeclaresOnce above ∧ (∀ b ∈ bins, DeclaresOnce b) ∧
        ∀ b, bins = [b] → "edges" ∉ declared b ∧ "values" ∉ declared b := by
  have hsearch : "edges" ∉ declared (search q bins) ∧ "values" ∉ declared (search q bins) →
      ((∀ names ∈ innerBlocks (search q bins), Once names) ↔ ∀ b ∈ bins, DeclaresOnce b) := by
    rintro ⟨hedges, hvalues⟩
    have honce : Once (declared (search q bins)) := by
      simp [Once, List.count_eq_zero.2 hedges, List.count_eq_zero.2 hvalues]
    rw [← declaresOnce_search (q := q) hne, DeclaresOnce]
    exact (and_iff_right honce).symm
  rw [DeclaresOnce, declared_program, once_arrays_append, forall_innerBlocks_program,
    ← @notMem_declared_search_iff q bins hne]
  constructor
  · rintro ⟨hown, hbelow, habove, hinner⟩
    exact ⟨hbelow, habove, (hsearch hown).1 hinner, hown⟩
  · rintro ⟨hbelow, habove, hbins, hown⟩
    exact ⟨hown, hbelow, habove, (hsearch hown).2 hbins⟩

end Binning

/-! ## Contents -/

def Content.isBinning : Content → Bool
  | .binning _ _ _ _ => true
  | _ => false

/-- Somewhere in what is compiled, a binning with a single bin has a binning in that bin. -/
inductive Content.Stacked : Content → Prop
  | here {input : String} {edges : Edges} {bins : List Content} {flow : Flow Content} {c : Content}
      (hsize : edges.size = 2) (hbin : bins[0]? = some c) (hc : c.isBinning = true) :
      Stacked (.binning input edges bins flow)
  | bin {input : String} {edges : Edges} {bins : List Content} {flow : Flow Content} {c : Content}
      (hbin : c ∈ bins.take (edges.size - 1)) (hc : Stacked c) :
      Stacked (.binning input edges bins flow)
  | flow {input : String} {edges : Edges} {bins : List Content} {c : Content} (hc : Stacked c) :
      Stacked (.binning input edges bins (.value c))

theorem Content.stacked_binning_iff {input : String} {edges : Edges} {bins : List Content}
    {flow : Flow Content} :
    (Content.binning input edges bins flow).Stacked ↔
      (edges.size = 2 ∧ ∃ c, bins[0]? = some c ∧ c.isBinning = true) ∨
        (∃ c ∈ bins.take (edges.size - 1), c.Stacked) ∨ ∃ c, flow = .value c ∧ c.Stacked := by
  constructor
  · rintro (⟨hsize, hbin, hc⟩ | ⟨hbin, hc⟩ | hc)
    · exact .inl ⟨hsize, _, hbin, hc⟩
    · exact .inr (.inl ⟨_, hbin, hc⟩)
    · exact .inr (.inr ⟨_, rfl, hc⟩)
  · rintro (⟨hsize, c, hbin, hc⟩ | ⟨c, hbin, hc⟩ | ⟨c, rfl, hc⟩)
    · exact .here hsize hbin hc
    · exact .bin hbin hc
    · exact .flow hc

theorem Content.isBinning_renamed (f : String → String) (c : Content) :
    (c.renamed f).isBinning = c.isBinning := by
  cases c <;> rfl

theorem Content.stacked_renamed_iff (f : String → String) (c : Content) :
    (c.renamed f).Stacked ↔ c.Stacked := by
  induction c using Content.induction with
  | constant x => exact Iff.rfl
  | datum d hd => exact Iff.rfl
  | binning input edges bins flow ihbins ihflow =>
    have hfirst : (∃ c, (bins.map (renamed f))[0]? = some c ∧ c.isBinning = true) ↔
        ∃ c, bins[0]? = some c ∧ c.isBinning = true := by
      rw [List.getElem?_map]
      cases bins[0]? <;> simp [isBinning_renamed]
    have hbins : (∃ c ∈ (bins.map (renamed f)).take (edges.size - 1), c.Stacked) ↔
        ∃ c ∈ bins.take (edges.size - 1), c.Stacked := by
      rw [← List.map_take]
      simp only [List.mem_map, exists_exists_and_eq_and]
      exact exists_congr fun c => and_congr_right fun hc => ihbins c (List.mem_of_mem_take hc)
    have hflow : (∃ c, flow.map (renamed f) = .value c ∧ c.Stacked) ↔
        ∃ c, flow = .value c ∧ c.Stacked := by
      cases flow with
      | clamp => exact Iff.rfl
      | error => exact Iff.rfl
      | value c => simpa [Flow.map] using ihflow c rfl
    rw [renamed_binning_eq, stacked_binning_iff, stacked_binning_iff, hfirst, hbins, hflow]
  | category input items fallback => exact Iff.rfl
  | unsupported kind => exact Iff.rfl

/-- A binning declares the arrays in the block it stands in, and no other content does. -/
theorem Content.WellFormed.declared_program {c : Content} (hc : c.WellFormed) (target : Target) :
    ("edges" ∉ declared (c.program target) ∧ "values" ∉ declared (c.program target)) ↔
      c.isBinning = false := by
  rcases hc with x | ⟨input, items, fallback⟩ | ⟨hedges, -, -, -⟩
  · exact iff_of_true (by simp [Content.program, declared, Statement.declared]) rfl
  · exact iff_of_true (by simp [Content.program, declared, Statement.declared]) rfl
  · obtain ⟨es, hread, -, -, rfl⟩ := Edges.wellFormed_iff.1 hedges
    refine iff_of_false (fun h => h.1 ?_) (by simp [Content.isBinning])
    rw [Content.program_binning hread, Binning.program, declared_append]
    simp [Binning.arrays, declared, Statement.declared]

section
variable {target : Target} {bins : List Content} {n : Nat}

/-- A single bin declares the arrays once more exactly when it is a binning. -/
theorem single_bin_iff (hlen : n - 1 ≤ bins.length) (hn : 2 ≤ n)
    (hbins : ∀ c ∈ bins.take (n - 1), c.WellFormed) :
    (∀ b, (bins.take (n - 1)).map (Content.program target) = [b] →
        "edges" ∉ declared b ∧ "values" ∉ declared b) ↔
      ¬(n = 2 ∧ ∃ c, bins[0]? = some c ∧ c.isBinning = true) := by
  by_cases htwo : n = 2
  · subst htwo
    obtain ⟨c, rest, rfl⟩ := List.exists_cons_of_length_pos hlen
    simpa using (hbins c (by simp)).declared_program target
  · refine iff_of_true (fun b hb => ?_) (fun h => htwo h.1)
    have hone := congrArg List.length hb
    rw [List.length_map, List.length_take, Nat.min_eq_left hlen, List.length_singleton] at hone
    omega

end

/-- **The arrays in the statements of a content.** -/
theorem Content.WellFormed.declaresOnce_iff {c : Content} (hc : c.WellFormed) (target : Target) :
    DeclaresOnce (c.program target) ↔ ¬c.Stacked := by
  induction hc with
  | constant x => exact iff_of_true (declaresOnce_return _) nofun
  | category input items fallback => exact iff_of_true (declaresOnce_return _) nofun
  | @binning input edges bins flow n hedges hlen hbins hflow ihbins ihflow =>
    obtain ⟨es, hread, -, hes, rfl⟩ := Edges.wellFormed_iff.1 hedges
    have hne := Content.take_programs_ne_nil target hes hlen
    have hparts := Content.forall_parts_iff input flow (declaresOnce_failure input target) hes hlen
    have hsingle := @single_bin_iff target bins es.length hlen hes hbins
    rw [List.map_take, ← Content.programs_eq_map] at hsingle
    rw [Content.program_binning hread, Binning.declaresOnce_program hne, Content.stacked_binning_iff,
      Edges.size_of_read hread, not_or, not_or]
    constructor
    · rintro ⟨hbelow, habove, hblocks, hown⟩
      obtain ⟨hall, hvalue⟩ := hparts.1 ⟨hbelow, habove, hblocks⟩
      refine ⟨hsingle.1 hown, ?_, ?_⟩
      · rintro ⟨c, hc, hstacked⟩
        exact (ihbins c hc).1 (hall c hc) hstacked
      · rintro ⟨c, hc, hstacked⟩
        exact (ihflow c hc).1 (hvalue c hc) hstacked
    · rintro ⟨hown, hnone, hvalue⟩
      obtain ⟨hbelow, habove, hblocks⟩ := hparts.2
        ⟨fun c hc => (ihbins c hc).2 fun h => hnone ⟨c, hc, h⟩,
          fun c hc => (ihflow c hc).2 fun h => hvalue ⟨c, hc, h⟩⟩
      exact ⟨hbelow, habove, hblocks, hsingle.2 hown⟩

/-- The code of a content adds what the statements of its printed form add. -/
theorem Content.exists_adds_compile {target : Target} {c : Content} {code : String}
    (hinputs : c.printed.UsedInputs Identifier) (h : c.compile target = .ok code) :
    ∃ ts, Reads (code ++ "\n") ts ∧
      Adds ts (declared (c.printed.program target)) (innerBlocks (c.printed.program target)) := by
  rw [c.compile_eq_written] at h
  generalize c.printed = p at hinputs h
  obtain ⟨w, l, rfl, hw, hprogram⟩ | ⟨input, edges, bins, flow, rfl⟩ := Content.written_cases h
  · -- A number has no semicolon behind it.
    have hreturn := (by decide : Reads "return " [.keyword .return_]).append
      (hw "\n" [] (by decide) (by decide))
    rw [← String.append_assoc, List.append_nil] at hreturn
    rw [hprogram]
    exact ⟨_, hreturn, adds_return l⟩
  · exact ⟨_, reads_written_binning hinputs h, adds_blockTokens _⟩

/-! ## Headers -/

/-- Tokens that declare nothing, neither in the block they stand in nor in a block of their own. -/
def Silent (ts : List Token) : Prop := ∃ inner, Adds ts [] inner ∧ ∀ names ∈ inner, names = []

namespace Silent
variable {ts us : List Token}

theorem quiet (h : ∀ t ∈ ts, t.isQuiet = true) : Silent ts := ⟨[], .quiet h, nofun⟩

theorem append (h : Silent ts) (h' : Silent us) : Silent (ts ++ us) := by
  obtain ⟨inner, hts, hinner⟩ := h
  obtain ⟨inner', hus, hinner'⟩ := h'
  exact ⟨inner ++ inner', hts.append hus, List.forall_mem_append.2 ⟨hinner, hinner'⟩⟩

end Silent

/-- The value is written as tokens that declare nothing. -/
def Datum.IsSilent (d : Datum) : Prop := ∃ ts, ReadsAs d.text ts ∧ Silent ts

theorem Datum.isSilent_of_literal {d : Datum} {l : Literal} (h : ReadsAs d.text l.tokens) : d.IsSilent :=
  ⟨_, h, .quiet fun _ ht => Token.isQuiet_of_isInner (Literal.isInner_of_mem ht)⟩

/-- Of the single values only texts can declare something. -/
theorem Datum.isSilent_scalar {s : Scalar}
    (hs : ∀ t, s = .str t → t = "-FLT_MAX" ∨ t = "FLT_MAX") : (Datum.scalar s).IsSilent := by
  cases s with
  | null => exact isSilent_of_literal (l := ⟨false, .name "None"⟩) (readsAs_name (by decide))
  | bool b =>
    cases b with
    | false => exact isSilent_of_literal (l := ⟨false, .name "False"⟩) (readsAs_name (by decide))
    | true => exact isSilent_of_literal (l := ⟨false, .name "True"⟩) (readsAs_name (by decide))
  | int n => exact isSilent_of_literal (Bound.readsAs_integer n)
  | real x =>
    have hx := readsAs_ofNumber (.inl rfl) x
    rw [String.append_empty] at hx
    exact isSilent_of_literal hx
  | str t =>
    rcases hs t rfl with rfl | rfl
    · exact isSilent_of_literal (@Bound.readsAs_text _ .lowest (by decide))
    · exact isSilent_of_literal (@Bound.readsAs_text _ .highest (by decide))

/-- The check of a parameter declares what its bounds declare. -/
theorem adds_checkTokens {lower upper : List Token} {own own' : List String}
    {inner inner' : List (List String)} (hlower : Adds lower own inner) (hupper : Adds upper own' inner')
    (q : String) (target : Target) :
    Adds (checkTokens q lower upper target) (own ++ own') (inner ++ inner' ++ [[]]) := by
  have hif : Adds [.keyword .if_, .symbol .parenOpen, .name q, .symbol .less] [] [] :=
    .quiet (by simp [Token.isQuiet])
  have hor : Adds [.symbol .or, .name q, .symbol .greater] [] [] := .quiet (by simp [Token.isQuiet])
  have hclose : Adds [.symbol .parenClose] [] [] := .quiet (by simp [Token.isQuiet])
  have hfailure : Adds (blockTokens (Binning.failure q target)) [] [] := adds_blockTokens _
  have h := ((((hif.append hlower).append (hor.append hupper)).append hclose).append
    hfailure.block).append adds_semicolon
  simpa [checkTokens] using h

namespace Builder
variable {b : Builder} {text : String}

/-- The parameters have names other than those of the arrays, and bounds that declare nothing. -/
structure Declarable (b : Builder) : Prop where
  name : ∀ v ∈ b.params.values, Identifier v.name
  ne_edges : ∀ v ∈ b.params.values, v.name ≠ "edges"
  ne_values : ∀ v ∈ b.params.values, v.name ≠ "values"
  bounds : ∀ v ∈ b.params.values, v.isString = false → v.min.IsSilent ∧ v.max.IsSilent

/-- The checks of the parameters declare nothing. -/
theorem exists_reads_validation (hb : b.Declarable) : ∃ ts, Reads b.validation ts ∧ Silent ts := by
  have hempty : ∃ ts, Reads "" ts ∧ Silent ts := ⟨[], by decide, .quiet nofun⟩
  have hcheck : ∀ v ∈ b.params.values, ∃ ts, Reads (b.validationText v) ts ∧ Silent ts := by
    intro v hv
    cases hstring : v.isString with
    | true =>
      rw [validationText, if_pos hstring]
      exact hempty
    | false =>
      obtain ⟨⟨lower, hlower, hsilent⟩, ⟨upper, hupper, hsilent'⟩⟩ := hb.bounds v hv hstring
      obtain ⟨inner, hadds, hinner⟩ := hsilent
      obtain ⟨inner', hadds', hinner'⟩ := hsilent'
      refine ⟨_, reads_validationText_of_bounds hstring (hb.name v hv) hlower hupper, _,
        adds_checkTokens hadds hadds' _ _, ?_⟩
      simpa [or_imp, forall_and] using ⟨hinner, hinner'⟩
  unfold validation
  generalize b.params.values = vs at hcheck
  induction vs with
  | nil => exact hempty
  | cons v vs ih =>
    rw [List.forall_mem_cons] at hcheck
    obtain ⟨check, hread, hsilent⟩ := hcheck.1
    obtain ⟨checks, hreads, hsilents⟩ := ih hcheck.2
    refine ⟨check ++ checks, ?_, hsilent.append hsilents⟩
    rw [List.map_cons, String.join_cons]
    exact hread.append hreads

/-- The blocks of a header are those of its checks and those of its content, and the outermost one has the
parameters too. -/
theorem exists_blocks_of_checks {checks : List Token} {own : List String} {outside : List (List String)}
    (hchecks : Reads b.validation checks) (hadds : Adds checks own outside)
    (hinputs : b.content.printed.UsedInputs Identifier) (htext : b.dump = .ok text) :
    ∃ body ts, text = b.opening ++ body ++ closing ∧ tokens? body = some ts ∧
      blocks (b.parameters.map Parameter.name) ts =
        (b.parameters.map Parameter.name ++ (own ++ declared (b.content.printed.program b.target))) ::
          (outside ++ innerBlocks (b.content.printed.program b.target)) := by
  obtain ⟨-, -, code, hcode, rfl⟩ := dump_eq_ok_iff.1 htext
  obtain ⟨ts, hts, hcontent⟩ := Content.exists_adds_compile hinputs hcode
  have hend : Adds (blockTokens b.target.exhausted) [] [] := adds_blockTokens _
  have hall := hadds.append (hcontent.append hend)
  rw [List.append_nil, List.append_nil] at hall
  exact ⟨b.statementText code, _, rfl,
    tokens?_eq (Binning.reads_line (reads_statementText hchecks hts)), hall.blocks_eq _⟩

/-- **The blocks of a header.** The outermost one has the parameters and what the content declares. The
others are those of the content, and some in which nothing is declared. -/
theorem exists_blocks (hb : b.Declarable) (hinputs : b.content.printed.UsedInputs Identifier)
    (htext : b.dump = .ok text) :
    ∃ body ts inner, text = b.opening ++ body ++ closing ∧ tokens? body = some ts ∧
      blocks (b.parameters.map Parameter.name) ts =
        (b.parameters.map Parameter.name ++ declared (b.content.printed.program b.target)) :: inner ∧
      ((∀ names ∈ inner, Once names) ↔
        ∀ names ∈ innerBlocks (b.content.printed.program b.target), Once names) := by
  obtain ⟨checks, hchecks, outside, hadds, hnone⟩ := exists_reads_validation hb
  obtain ⟨body, ts, hbody, hts, hblocks⟩ := exists_blocks_of_checks hchecks hadds hinputs htext
  refine ⟨body, ts, _, hbody, hts, hblocks, ?_⟩
  rw [List.forall_mem_append]
  refine and_iff_right fun names hnames => ?_
  rw [hnone names hnames]
  exact once_nil

end Builder

/-- **When the arrays are declared once.** In the function of a header every block declares each of the two
arrays at most once, exactly when no binning with a single bin has a binning in that bin. -/
theorem declares_once_iff_not_stacked {b : Builder} {text : String} (hb : b.Declarable)
    (hinputs : b.content.printed.UsedInputs Identifier) (htext : b.dump = .ok text) :
    ∃ body ts, text = b.opening ++ body ++ Builder.closing ∧ tokens? body = some ts ∧
      ((∀ names ∈ blocks (b.parameters.map Parameter.name) ts, Once names) ↔ ¬b.content.Stacked) := by
  obtain ⟨body, ts, inner, hbody, hts, hblocks, hinner⟩ := Builder.exists_blocks hb hinputs htext
  refine ⟨body, ts, hbody, hts, ?_⟩
  obtain ⟨-, -, code, hcode, -⟩ := Builder.dump_eq_ok_iff.1 htext
  have hparameters : ∀ x, (∀ v ∈ b.params.values, v.name ≠ x) →
      x ∉ b.parameters.map Parameter.name := by
    intro x hx hmem
    rw [Builder.map_name_parameters] at hmem
    obtain ⟨v, hv, rfl⟩ := List.mem_map.1 hmem
    exact hx v hv rfl
  have hwf : b.content.printed.WellFormed :=
    (Content.printed_iff Content.wellFormed_renamed_iff _).2 (Content.wellFormed_of_compile hcode)
  rw [← Content.printed_iff Content.stacked_renamed_iff, ← hwf.declaresOnce_iff b.target, hblocks,
    List.forall_mem_cons,
    once_append_of_notMem (hparameters _ hb.ne_edges) (hparameters _ hb.ne_values), hinner]
  rfl

/-- A binning in a bin and in the flow of another one. -/
def Content.nestedBins : Content :=
  .binning "x" (.ofNumbers [.zero false, .ofRank false (1023 * 2 ^ 52), .ofRank false (1024 * 2 ^ 52)])
    [.constantBin, .constantBin] (.value .constantBin)

theorem Content.allInputs_oneBin {c : Content} (hc : c.AllInputs CleanName) :
    (Content.oneBin c).AllInputs CleanName :=
  .binning inputName_x.cleanName (List.forall_mem_singleton.2 hc) nofun

theorem Content.not_stacked_constantBin : ¬Content.constantBin.Stacked := by
  rw [Content.constantBin, Content.oneBin, Content.stacked_binning_iff]
  rintro (⟨-, c, hbin, hc⟩ | ⟨c, hbin, hc⟩ | ⟨c, hvalue, -⟩)
  · cases hbin
    cases hc
  · cases List.mem_singleton.1 hbin
    cases hc
  · cases hvalue

theorem Builder.declarable_sample (content : Content) : (Builder.sample content).Declarable := by
  have hmem : ∀ v ∈ (Builder.sample content).params.values, v.name = "x" ∧
      v.min.IsSilent ∧ v.max.IsSilent := by
    intro v hv
    cases List.mem_singleton.1 hv
    exact ⟨rfl, Datum.isSilent_scalar nofun, Datum.isSilent_scalar nofun⟩
  refine ⟨fun v hv => ?_, fun v hv => ?_, fun v hv => ?_, fun v hv _ => (hmem v hv).2⟩
  · rw [(hmem v hv).1]
    exact inputName_x.cleanName.toIdentifier
  · rw [(hmem v hv).1]
    exact inputName_x.ne_edges
  · rw [(hmem v hv).1]
    exact inputName_x.ne_values

/-- With two bins and a flow that are binnings themselves, all arrays are declared once. -/
theorem nested_bins_declare_once :
    ¬Content.nestedBins.Stacked ∧
      ∃ text body ts, (Builder.sample .nestedBins).dump = .ok text ∧
        text = (Builder.sample .nestedBins).opening ++ body ++ Builder.closing ∧
        tokens? body = some ts ∧ ∀ names ∈ blocks ["x"] ts, Once names := by
  have hstacked : ¬Content.nestedBins.Stacked := by
    rw [Content.nestedBins, Content.stacked_binning_iff]
    rintro (⟨hsize, -⟩ | ⟨c, hbin, hc⟩ | ⟨c, hvalue, hc⟩)
    · cases hsize
    · have hbin' : c = .constantBin := by simpa using List.mem_of_mem_take hbin
      exact Content.not_stacked_constantBin (hbin' ▸ hc)
    · cases hvalue
      exact Content.not_stacked_constantBin hc
  have hconstant : Content.constantBin.AllInputs CleanName := Content.allInputs_oneBin (.datum _)
  have hinputs : Content.nestedBins.AllInputs CleanName := by
    refine .binning inputName_x.cleanName ?_ ?_
    · simp only [List.forall_mem_cons, List.not_mem_nil, false_implies, implies_true, and_true]
      exact ⟨hconstant, hconstant⟩
    · rintro c ⟨⟩
      exact hconstant
  obtain ⟨text, htext⟩ := @Builder.exists_dump (.sample .nestedBins) (by decide +kernel)
  obtain ⟨body, ts, hbody, hts, hiff⟩ :=
    declares_once_iff_not_stacked (Builder.declarable_sample _) hinputs.printed_cleanName.2 htext
  exact ⟨hstacked, text, body, ts, htext, hbody, hts, hiff.2 hstacked⟩

/-- **A block can declare the arrays twice.** A binning in the single bin of another one shares its block. -/
theorem single_bin_redeclares :
    ∃ one x, Binary64.read? "1.0" = some one ∧ Binary64.read? "1.5" = some x ∧
      let edges : Edges := .listed [.scalar (.real (.zero false)), .scalar (.real one)]
      let steps : List Step :=
        [.addVariable ⟨"real", "x", .scalar (.real (.zero false)), .scalar (.real one), []⟩,
          .setContent (.binning "x" edges [.binning "x" edges [.constant x] .clamp] .clamp)]
      let b := (Builder.performAll steps (Builder.new "sf" .c) (.start .absent [])).1
      b.Declarable ∧ b.content.AllInputs CleanName ∧ ∃ text body ts, b.dump = .ok text ∧
        text = b.opening ++ body ++ Builder.closing ∧ tokens? body = some ts ∧
        ["x", "edges", "values", "edges", "values"] ∈ blocks ["x"] ts := by
  refine ⟨.ofRank false (1023 * 2 ^ 52), .ofRank false (1023 * 2 ^ 52 + 2 ^ 51), by decide +kernel,
    by decide +kernel, ?_⟩
  intro edges steps b
  have hb : b = Builder.sample (.oneBin .constantBin) := by
    rw [show b = steps.foldl Builder.after _ from Builder.performAll_builder _ _ _]
    rfl
  clear_value b
  subst hb
  have hinputs : (Content.oneBin .constantBin).AllInputs CleanName :=
    Content.allInputs_oneBin (Content.allInputs_oneBin (.datum _))
  obtain ⟨text, htext⟩ := @Builder.exists_dump (.sample (.oneBin .constantBin)) (by decide +kernel)
  obtain ⟨body, ts, inner, hbody, hts, hblocks, -⟩ :=
    Builder.exists_blocks (Builder.declarable_sample _) hinputs.printed_cleanName.2 htext
  refine ⟨Builder.declarable_sample _, hinputs, text, body, ts, htext, hbody, hts, ?_⟩
  have hdeclared : declared ((Content.oneBin .constantBin).printed.program .c) =
      ["edges", "values", "edges", "values"] := by
    rw [hinputs.printed_cleanName.1]
    decide +kernel
  exact hblocks ▸ hdeclared ▸ List.mem_cons_self

/-- The end of one condition, the declaration of an array and the beginning of another condition. -/
def arrayBound : String := "0) \x7b\x7d float edges[1] = \x7b0\x7d; if (x < 0"

theorem readsAs_arrayBound : ∃ ts inner, ReadsAs arrayBound ts ∧ Adds ts ["edges"] inner := by
  have hfront : Reads "0) \x7b\x7d float edges[1] = \x7b0\x7d; if (x < "
      [.number "0", .symbol .parenClose, .symbol .braceOpen, .symbol .braceClose, .keyword .float,
        .name "edges", .symbol .bracketOpen, .number "1", .symbol .bracketClose, .symbol .assign,
        .symbol .braceOpen, .number "0", .symbol .braceClose, .symbol .semicolon, .keyword .if_,
        .symbol .parenOpen, .name "x", .symbol .less] := by decide +kernel
  have hzero : ReadsAs "0" [.number "0"] := readsAs_number (by decide)
  have hcut : arrayBound = "0) \x7b\x7d float edges[1] = \x7b0\x7d; if (x < " ++ "0" := by decide +kernel
  refine ⟨_, [[], []], hcut ▸ hfront.readsAs hzero, ?_⟩
  intro names outer closed
  simp [Scopes.read, Scopes.step, Scopes.close]

/-- **A text as a bound can declare an array as well**, though the content is not stacked. -/
theorem text_bound_redeclares :
    let b := Builder.after (.sample .constantBin) (.addVariable
      ⟨"real", "x", .scalar (.str arrayBound), .scalar (.int 1), []⟩)
    ¬b.content.Stacked ∧ b.content.AllInputs CleanName ∧ ∃ text body ts, b.dump = .ok text ∧
      text = b.opening ++ body ++ Builder.closing ∧ tokens? body = some ts ∧
      ["x", "edges", "edges", "values"] ∈ blocks ["x"] ts := by
  intro b
  have hinputs : Content.constantBin.AllInputs CleanName := Content.allInputs_oneBin (.datum _)
  obtain ⟨lower, inner, hlower, hadds⟩ := readsAs_arrayBound
  have hupper : Adds (Bound.integer 1).literal.tokens [] [] :=
    .quiet fun _ ht => Token.isQuiet_of_isInner (Literal.isInner_of_mem ht)
  have hcheck := @Builder.reads_validationText_of_bounds b
    ⟨"x", .float, .scalar (.str arrayBound), .scalar (.int 1), none⟩ _ _ rfl
    inputName_x.cleanName.toIdentifier hlower (Bound.readsAs_integer 1)
  have hvalidation : b.validation = b.validationText
      ⟨"x", .float, .scalar (.str arrayBound), .scalar (.int 1), none⟩ := by
    change String.join [b.validationText _] = _
    rw [String.join_cons, String.join_nil, String.append_empty]
    rfl
  rw [← hvalidation] at hcheck
  obtain ⟨text, htext⟩ := @Builder.exists_dump b (by decide +kernel)
  obtain ⟨body, ts, hbody, hts, hblocks⟩ := Builder.exists_blocks_of_checks hcheck
    (adds_checkTokens hadds hupper _ _) hinputs.printed_cleanName.2 htext
  refine ⟨Content.not_stacked_constantBin, hinputs, text, body, ts, htext, hbody, hts, ?_⟩
  have hdeclared : declared (Content.constantBin.printed.program .c) = ["edges", "values"] := by
    rw [hinputs.printed_cleanName.1]
    decide +kernel
  exact hblocks ▸ hdeclared ▸ List.mem_cons_self

end Corrections
