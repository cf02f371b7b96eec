/-
  Names in generated code.

  * `Content.UsedInputs P`: the inputs of all binnings in what is compiled of a content have the
    property `P`.
  * `Content.written`: the code of a content with every input written at once in its places. There
    is no filling of templates, so no code of a part can be changed.
  * `template_filled`: filling a template fills its name and the code of its parts, and nothing else.
  * `Content.printed`: the content with the inputs that its code is about. An input with a hole gets the
    input of the binning around it there. `compile_eq_written`: the code of every content is that of its
    printed form, written.
  * `compile_binning_hygienic`: so the code of a binning holds the code of its parts as it is, and
    each of them keeps its own input. Only the names inside a binning must have no holes, its own
    name may be anything.
-/
import Corrections.Proofs.Outcome
import Corrections.Proofs.Template

namespace Corrections

open DecisionTree (query)
open Text (Clean clean_of_notMem fill)

/-- In what is compiled of a content, every input of a binning has the property `P`. -/
inductive Content.UsedInputs (P : String → Prop) : Content → Prop
  | datum (d : Datum) : UsedInputs P (.datum d)
  | binning {input : String} {edges : Edges} {bins : List Content} {flow : Flow Content} :
    P input → (∀ c ∈ bins.take (edges.size - 1), UsedInputs P c) →
      (∀ c, flow = .value c → UsedInputs P c) → UsedInputs P (.binning input edges bins flow)
  | category {input : String} {items : List (CategoryItem Content)} {fallback : Option Content} :
    UsedInputs P (.category input items fallback)
  | unsupported (kind : UnsupportedKind) : UsedInputs P (.unsupported kind)

mutual

/-- The code of a content, with every input written in its places. -/
def Content.written (target : Target) : Content → Compiled
  | .datum (.scalar (.real x)) => .ok (Datum.scalar (.real x)).returned
  | .datum _ => .error .unknownContent
  | .binning input edges bins flow =>
    Binning.template input target edges (Content.writtenBins target bins)
      (Content.writtenFlow target flow)
  | .category _ _ _ => .ok categoryCode
  | .unsupported kind => .error (.unsupported kind)

def Content.writtenBins (target : Target) : List Content → List Compiled
  | [] => []
  | c :: rest => c.written target :: Content.writtenBins target rest

def Content.writtenFlow (target : Target) : Flow Content → Flow Compiled
  | .clamp => .clamp
  | .error => .error
  | .value c => .value (c.written target)

end

mutual

/-- The content with other names of the inputs of its binnings. -/
def Content.renamed (f : String → String) : Content → Content
  | .datum d => .datum d
  | .binning input edges bins flow =>
    .binning (f input) edges (Content.renamedBins f bins) (Content.renamedFlow f flow)
  | .category input items fallback => .category input items fallback
  | .unsupported kind => .unsupported kind

def Content.renamedBins (f : String → String) : List Content → List Content
  | [] => []
  | c :: rest => c.renamed f :: Content.renamedBins f rest

def Content.renamedFlow (f : String → String) : Flow Content → Flow Content
  | .clamp => .clamp
  | .error => .error
  | .value c => .value (c.renamed f)

end

mutual

/-- The content with the inputs that its code is about. Everything inside a binning is filled with the
input of the binning. -/
def Content.printed : Content → Content
  | .datum d => .datum d
  | .binning input edges bins flow =>
    .binning input edges (Content.printedBins input bins) (Content.printedFlow input flow)
  | .category input items fallback => .category input items fallback
  | .unsupported kind => .unsupported kind

def Content.printedBins (input : String) : List Content → List Content
  | [] => []
  | c :: rest => c.printed.renamed (fill query input) :: Content.printedBins input rest

def Content.printedFlow (input : String) : Flow Content → Flow Content
  | .clamp => .clamp
  | .error => .error
  | .value c => .value (c.printed.renamed (fill query input))

end

/-- Code with its holes filled. -/
def Compiled.filled (value : String) (r : Compiled) : Compiled := r.map (fill query value)

open Compiled (filled)

/-! ## Templates -/

theorem filled_of_clean {r : Compiled} (h : ∀ code, r = .ok code → Clean code) (value : String) :
    filled value r = r := by
  cases r with
  | error e => rfl
  | ok code => exact congrArg Except.ok (Text.fill_of_clean (h code rfl) value)

namespace Binning

section
variable (value : String) (target : Target) (q : String) (edges : Edges) (n : Nat) (bins : List Compiled)
  (flow : Flow Compiled)

theorem binAt_filled (i : Nat) : binAt (bins.map (filled value)) i = filled value (binAt bins i) := by
  unfold binAt
  rw [List.getElem?_map]
  cases bins[i]? <;> rfl

theorem lastBin_filled : lastBin (bins.map (filled value)) n = filled value (lastBin bins n) := by
  unfold lastBin
  rw [binAt_filled, binAt_filled, List.length_map]
  split_ifs <;> rfl

theorem firstBins_filled :
    firstBins (bins.map (filled value)) n = (firstBins bins n).map (List.map (fill query value)) := by
  induction n with
  | zero => rfl
  | succ n ih =>
    rw [firstBins_succ, firstBins_succ, ih, binAt_filled]
    cases firstBins bins n with
    | error e => rfl
    | ok codes =>
      cases binAt bins n with
      | error e => rfl
      | ok code => simp [filled, Except.map, bind, Except.bind, pure, Except.pure]

theorem guards_filled :
    guards (fill query value q) target n (bins.map (filled value)) (flow.map (filled value)) =
      (guards q target n bins flow).map (Guards.filled value) := by
  cases flow with
  | clamp =>
    rw [Flow.map, guards, guards, binAt_filled, lastBin_filled]
    cases binAt bins 0 with
    | error e => rfl
    | ok below => cases lastBin bins n <;> rfl
  | error =>
    rw [Flow.map, guards, guards, lastBin_filled, ← fill_outOfBounds]
    cases lastBin bins n <;> rfl
  | value code =>
    rw [Flow.map, guards, guards]
    cases code <;> rfl

/-- **Filling a template fills its name and its parts.** -/
theorem template_filled :
    template (fill query value q) target edges (bins.map (filled value)) (flow.map (filled value)) =
      filled value (template q target edges bins flow) := by
  unfold template
  cases edges.read with
  | error e => rfl
  | ok es =>
    simp only [bind, Except.bind]
    split
    · rfl
    cases Edge.ascending es with
    | error e => rfl
    | ok u =>
      rw [guards_filled, firstBins_filled]
      cases guards q target es.length bins flow with
      | error e => rfl
      | ok g =>
        simp only [Except.map]
        split
        · rfl
        cases firstBins bins (es.length - 1) with
        | error e => rfl
        | ok codes =>
          simp only [filled, Except.map, pure, Except.pure, Text.fill_intercalate, map_fill_listing]

end

variable {target : Target} {input text : String} {edges : Edges} {bins : List Compiled}
  {flow : Flow Compiled}

/-- The code of a binning has its input written in its places, and filled into its parts. -/
theorem assemble_eq_filled :
    assemble target input edges bins flow =
      template input target edges (bins.map (filled input)) (flow.map (filled input)) := by
  have h := template_filled input target query edges bins flow
  rw [Text.fill_query] at h
  rw [assemble_eq_template, h]
  rfl

theorem size_ne_one_of_assemble (h : assemble target input edges bins flow = .ok text) :
    edges.size ≠ 1 := by
  obtain ⟨es, g, codes, hread, hlen, -⟩ := assemble_eq_ok_iff.1 h
  rw [Edges.size_of_read hread]
  omega

/-- **Filling in the input writes it in its places**, if the parts have no holes. -/
theorem template_of_assemble (hbins : ∀ code, .ok code ∈ bins.take (edges.size - 1) → Clean code)
    (hflow : ∀ code, flow = .value (.ok code) → Clean code)
    (h : assemble target input edges bins flow = .ok text) :
    template input target edges bins flow = .ok text ∧ (Clean input → Clean text) := by
  have hbins' : ∀ value, (bins.take (edges.size - 1)).map (filled value) =
      bins.take (edges.size - 1) := by
    intro value
    exact map_eq_self fun r hr => filled_of_clean (fun code hcode => hbins code (hcode ▸ hr)) value
  have hflow' : ∀ value, flow.map (filled value) = flow := by
    intro value
    exact Flow.map_eq_self fun r hr => filled_of_clean (fun code hcode => hflow code (hcode ▸ hr)) value
  have hsize := size_ne_one_of_assemble h
  rw [← assemble_take hsize, assemble_eq_filled, hbins', hflow'] at h
  refine ⟨(template_take hsize).symm.trans h, fun hinput => Text.clean_iff_fill_eq.2 ?_⟩
  -- Filling the whole code once more finds no hole in any part of it.
  have hfilled := template_filled "" target input edges (bins.take (edges.size - 1)) flow
  rw [hbins', hflow', Text.fill_of_clean hinput, h] at hfilled
  exact (Except.ok.inj hfilled).symm

end Binning

namespace Content
variable {target : Target} {input text : String} {edges : Edges} {bins : List Content}
  {flow : Flow Content}

theorem writtenBins_eq_map (target : Target) (bins : List Content) :
    writtenBins target bins = bins.map (written target) := by
  induction bins with
  | nil => rfl
  | cons c rest ih => simp [writtenBins, ih]

theorem renamedBins_eq_map (f : String → String) (bins : List Content) :
    renamedBins f bins = bins.map (renamed f) := by
  induction bins with
  | nil => rfl
  | cons c rest ih => simp [renamedBins, ih]

theorem printedBins_eq_map (input : String) (bins : List Content) :
    printedBins input bins = bins.map fun c => c.printed.renamed (fill query input) := by
  induction bins with
  | nil => rfl
  | cons c rest ih => simp [printedBins, ih]

theorem compile_binning_eq (target : Target) (input : String) (edges : Edges) (bins : List Content)
    (flow : Flow Content) : (Content.binning input edges bins flow).compile target =
      Binning.assemble target input edges (bins.map (compile target)) (flow.map (compile target)) := by
  rw [compile, compileBins_eq_map]
  cases flow <;> rfl

theorem written_binning_eq (target : Target) (input : String) (edges : Edges) (bins : List Content)
    (flow : Flow Content) : (Content.binning input edges bins flow).written target =
      Binning.template input target edges (bins.map (written target)) (flow.map (written target)) := by
  rw [written, writtenBins_eq_map]
  cases flow <;> rfl

theorem renamed_binning_eq (f : String → String) (input : String) (edges : Edges) (bins : List Content)
    (flow : Flow Content) : (Content.binning input edges bins flow).renamed f =
      .binning (f input) edges (bins.map (renamed f)) (flow.map (renamed f)) := by
  rw [renamed, renamedBins_eq_map]
  cases flow <;> rfl

theorem printed_binning_eq (input : String) (edges : Edges) (bins : List Content) (flow : Flow Content) :
    (Content.binning input edges bins flow).printed =
      .binning input edges (bins.map fun c => c.printed.renamed (fill query input))
        (flow.map fun c => c.printed.renamed (fill query input)) := by
  rw [printed, printedBins_eq_map]
  cases flow <;> rfl

theorem written_datum (target : Target) {d : Datum} (h : ∀ x, d ≠ .scalar (.real x)) :
    (Content.datum d).written target = .error .unknownContent := by
  rcases d with (_ | _ | _ | x | _) | _ | _
  case scalar.real => exact absurd rfl (h x)
  all_goals rfl

theorem clean_returned (x : Binary64) : Clean (Datum.scalar (.real x)).returned := by
  refine clean_of_notMem ?_
  rw [Datum.returned, String.toList_append, List.mem_append, not_or]
  exact ⟨by decide, x.notMem_text⟩

/-! ## Filled inputs -/

/-- To fill the written code of a content is to fill its inputs. -/
theorem written_renamed (value : String) (c : Content) :
    (c.renamed (fill query value)).written target = filled value (c.written target) := by
  induction c using Content.induction with
  | constant x => exact (filled_of_clean (by rintro code ⟨⟩; exact clean_returned x) value).symm
  | datum d hd =>
    rw [renamed, written_datum target hd]
    rfl
  | binning input edges bins flow ihbins ihflow =>
    rw [renamed_binning_eq, written_binning_eq, written_binning_eq, ← Binning.template_filled,
      List.map_map, Flow.map_map, List.map_map, Flow.map_map]
    congr 1
    · exact List.map_congr_left ihbins
    · exact Flow.map_congr ihflow
  | category input items fallback =>
    exact (filled_of_clean (by rintro code ⟨⟩; exact clean_of_notMem (by decide)) value).symm
  | unsupported kind => rfl

/-- **The code of a content is its printed form, written.** -/
theorem compile_eq_written (target : Target) (c : Content) :
    c.compile target = c.printed.written target := by
  induction c using Content.induction with
  | constant x => rfl
  | datum d hd => rw [printed, compile_datum target hd, written_datum target hd]
  | binning input edges bins flow ihbins ihflow =>
    have hpart : ∀ c : Content, c.compile target = c.printed.written target →
        filled input (c.compile target) = (c.printed.renamed (fill query input)).written target := by
      intro c hc
      rw [hc, written_renamed]
    rw [compile_binning_eq, printed_binning_eq, written_binning_eq, Binning.assemble_eq_filled,
      List.map_map, Flow.map_map, List.map_map, Flow.map_map]
    congr 1
    · exact List.map_congr_left fun c hc => hpart c (ihbins c hc)
    · exact Flow.map_congr fun c hc => hpart c (ihflow c hc)
  | category input items fallback => rfl
  | unsupported kind => rfl

/-! ## What does not depend on the names -/

section
variable {f : String → String} {P : Content → Prop}

theorem forall_take_renamed {n : Nat} :
    (∀ c ∈ (bins.map (renamed f)).take n, P c) ↔ ∀ c ∈ bins.take n, P (c.renamed f) := by
  rw [← List.map_take, List.forall_mem_map]

theorem forall_value_renamed :
    (∀ c, flow.map (renamed f) = .value c → P c) ↔ ∀ c, flow = .value c → P (c.renamed f) := by
  cases flow <;> simp [Flow.map]

theorem renamed_renamed (f g : String → String) (c : Content) :
    (c.renamed f).renamed g = c.renamed (g ∘ f) := by
  induction c using Content.induction with
  | constant x => rfl
  | datum d hd => rfl
  | binning input edges bins flow ihbins ihflow =>
    rw [renamed_binning_eq, renamed_binning_eq, renamed_binning_eq, List.map_map, Flow.map_map]
    congr 1
    · exact List.map_congr_left ihbins
    · exact Flow.map_congr ihflow
  | category input items fallback => rfl
  | unsupported kind => rfl

/-- A content and its printed form differ in the inputs only. -/
theorem renamed_printed (q : String) (c : Content) :
    c.printed.renamed (fun _ => q) = c.renamed fun _ => q := by
  induction c using Content.induction with
  | constant x => rfl
  | datum d hd => rfl
  | binning input edges bins flow ihbins ihflow =>
    have hpart : ∀ c : Content, (c.printed.renamed (fill query input)).renamed (fun _ => q) =
        c.printed.renamed fun _ => q := fun c => renamed_renamed _ _ _
    rw [printed_binning_eq, renamed_binning_eq, renamed_binning_eq, List.map_map, Flow.map_map]
    congr 1
    · exact List.map_congr_left fun c hc => (hpart c).trans (ihbins c hc)
    · exact Flow.map_congr fun c hc => (hpart c).trans (ihflow c hc)
  | category input items fallback => rfl
  | unsupported kind => rfl

/-- So what does not depend on the inputs holds of both or of none. -/
theorem printed_iff (h : ∀ f c, P (renamed f c) ↔ P c) (c : Content) : P c.printed ↔ P c := by
  rw [← h (fun _ => "") c.printed, renamed_printed, h]

theorem wellFormed_renamed_iff (f : String → String) (c : Content) :
    (c.renamed f).WellFormed ↔ c.WellFormed := by
  induction c using Content.induction with
  | constant x => exact Iff.rfl
  | datum d hd => exact Iff.rfl
  | binning input edges bins flow ihbins ihflow =>
    have hbins : ∀ n, (∀ c ∈ (bins.map (renamed f)).take n, c.WellFormed) ↔
        ∀ c ∈ bins.take n, c.WellFormed := by
      intro n
      rw [forall_take_renamed]
      exact forall₂_congr fun c hc => ihbins c (List.mem_of_mem_take hc)
    have hflow : (∀ c, flow.map (renamed f) = .value c → c.WellFormed) ↔
        ∀ c, flow = .value c → c.WellFormed := by
      rw [forall_value_renamed]
      exact forall₂_congr ihflow
    rw [renamed_binning_eq]
    constructor
    · rintro (_ | _ | ⟨hedges, hlen, h, h'⟩)
      exact .binning hedges (by rwa [List.length_map] at hlen) ((hbins _).1 h) (hflow.1 h')
    · rintro (_ | _ | ⟨hedges, hlen, h, h'⟩)
      exact .binning hedges (by rwa [List.length_map]) ((hbins _).2 h) (hflow.2 h')
  | category input items fallback => exact Iff.rfl
  | unsupported kind => exact Iff.rfl

end

/-! ## Inputs without holes -/

/-- The parts of a binning that has code are written as they are compiled. -/
theorem written_parts
    (hbins : ∀ c ∈ bins.take (edges.size - 1), ∀ {text}, c.compile target = .ok text →
      c.written target = .ok text)
    (hflow : ∀ c, flow = .value c → ∀ {text}, c.compile target = .ok text →
      c.written target = .ok text)
    (h : (Content.binning input edges bins flow).compile target = .ok text) :
    (writtenBins target bins).take (edges.size - 1) =
        (compileBins target bins).take (edges.size - 1) ∧
      writtenFlow target flow = compileFlow target flow := by
  obtain ⟨es, g, codes, hread, hlen, -, hg, hcodes, -⟩ := Binning.assemble_eq_ok_iff.1 h
  obtain ⟨-, hall⟩ := Binning.exists_firstBins_iff.1 ⟨codes, hcodes⟩
  have hvalue := (Binning.exists_guards_iff hlen hcodes).1 ⟨g, hg⟩
  rw [← Edges.size_of_read hread] at hall
  constructor
  · rw [writtenBins_eq_map, compileBins_eq_map, ← List.map_take, ← List.map_take]
    rw [compileBins_eq_map, ← List.map_take, List.forall_mem_map] at hall
    refine List.map_congr_left fun c hc => ?_
    obtain ⟨code, hcode⟩ := hall c hc
    rw [hcode, hbins c hc hcode]
  · cases flow with
    | clamp => rfl
    | error => rfl
    | value c =>
      obtain ⟨code, hcode⟩ := hvalue _ rfl
      rw [writtenFlow, compileFlow, hcode, hflow c rfl hcode]

/-- **One level.** If the code of the parts has no holes and is written, the code of the binning
holds it as it is, and is written as well. -/
theorem written_binning
    (hbins : ∀ c ∈ bins.take (edges.size - 1), ∀ {text}, c.compile target = .ok text →
      Clean text ∧ c.written target = .ok text)
    (hflow : ∀ c, flow = .value c → ∀ {text}, c.compile target = .ok text →
      Clean text ∧ c.written target = .ok text)
    (h : (Content.binning input edges bins flow).compile target = .ok text) :
    Binning.template input target edges (compileBins target bins) (compileFlow target flow) =
        .ok text ∧
      (Content.binning input edges bins flow).written target = .ok text ∧
      (Clean input → Clean text) := by
  have hclean : ∀ code, .ok code ∈ (compileBins target bins).take (edges.size - 1) → Clean code := by
    have htake : (compileBins target bins).take (edges.size - 1) =
        compileBins target (bins.take (edges.size - 1)) := by
      rw [compileBins_eq_map, compileBins_eq_map, List.map_take]
    rw [htake]
    exact forall_compileBins fun c hc _ hcode => (hbins c hc hcode).1
  obtain ⟨htemplate, htext⟩ := Binning.template_of_assemble hclean
    (forall_compileFlow fun c hc _ hcode => (hflow c hc hcode).1) h
  obtain ⟨hwritten, hwrittenFlow⟩ := written_parts (fun c hc _ hcode => (hbins c hc hcode).2)
    (fun c hc _ hcode => (hflow c hc hcode).2) h
  have hsize := Binning.size_ne_one_of_assemble h
  refine ⟨htemplate, ?_, htext⟩
  -- The bins beyond the edges may be written in another way, but they are not looked at.
  rw [written, ← Binning.template_take hsize, hwritten, hwrittenFlow, Binning.template_take hsize,
    htemplate]

/-- **All levels.** Code with inputs that have no holes has none, and is written. -/
theorem UsedInputs.clean_written {c : Content} (hc : c.UsedInputs Clean) {text : String}
    (h : c.compile target = .ok text) : Clean text ∧ c.written target = .ok text := by
  induction hc generalizing text with
  | datum d =>
    by_cases hd : ∃ x, d = .scalar (.real x)
    · obtain ⟨x, rfl⟩ := hd
      cases h
      exact ⟨clean_returned x, rfl⟩
    · rw [compile_datum target fun x hx => hd ⟨x, hx⟩] at h
      cases h
  | binning hinput _ _ ihbins ihflow =>
    obtain ⟨-, hwritten, hclean⟩ := written_binning ihbins ihflow h
    exact ⟨hclean hinput, hwritten⟩
  | category =>
    cases h
    exact ⟨clean_of_notMem (by decide), rfl⟩
  | unsupported kind => cases h

end Content

/-- **Filling in an input changes nothing but its own places.** The code of a binning is its
template filled with the input, and this is the template with the input written in its places and
the code of the parts put in as it is. So it is for every binning in it. No holes come into being,
unless the input itself has some. -/
theorem compile_binning_hygienic {target : Target} {input text : String} {edges : Edges}
    {bins : List Content} {flow : Flow Content}
    (hbins : ∀ c ∈ bins.take (edges.size - 1), c.UsedInputs Clean)
    (hflow : ∀ c, flow = .value c → c.UsedInputs Clean)
    (h : (Content.binning input edges bins flow).compile target = .ok text) :
    (∃ t, Binning.template query target edges (Content.compileBins target bins)
        (Content.compileFlow target flow) = .ok t ∧ Text.fill query input t = text) ∧
      Binning.template input target edges (Content.compileBins target bins)
        (Content.compileFlow target flow) = .ok text ∧
      (Content.binning input edges bins flow).written target = .ok text ∧
      (Clean input → Clean text) := by
  refine ⟨map_eq_ok_iff.1 (Binning.assemble_eq_template.symm.trans h), Content.written_binning ?_ ?_ h⟩
  · intro c hc code hcode
    exact (hbins c hc).clean_written hcode
  · intro c hc code hcode
    exact (hflow c hc).clean_written hcode

/-- A binning whose own name has a hole, with a name that is nearly one in a bin of it, and a bin
with a hole in its name that is left over. -/
theorem hygienic_nested_names :
    let number := Binary64.ofRank false
    let single := fun input => Content.binning input (.ofNumbers [number 10, number 20])
      [.constant (number 1)] .clamp
    let edges := Edges.ofNumbers [number 10, number 20, number 30]
    let bins := [single "___QUERY_", .constant (number 2), single "___QUERY___"]
    (∀ c ∈ bins.take (edges.size - 1), c.UsedInputs Clean) ∧
      ∃ text, (Content.binning "x___QUERY___" edges bins .error).compile .cuda = .ok text ∧
        Binning.template "x___QUERY___" .cuda edges (Content.compileBins .cuda bins) .error = .ok text ∧
        (Content.binning "x___QUERY___" edges bins .error).written .cuda = .ok text := by
  intro number single edges bins
  have hname : Clean "___QUERY_" := fun h => absurd h.length_le (by decide)
  have hused : ∀ c ∈ bins.take (edges.size - 1), c.UsedInputs Clean := by
    change ∀ c ∈ [single "___QUERY_", .constant (number 2)], c.UsedInputs Clean
    rw [List.forall_mem_cons, List.forall_mem_singleton]
    refine ⟨.binning hname (fun c hc => ?_) (by rintro c ⟨⟩), .datum _⟩
    rw [List.mem_singleton.1 (List.mem_of_mem_take hc)]
    exact .datum _
  have hsingle : (single "___QUERY_").WellFormed :=
    .binning (.numbers (by decide) (by decide +kernel) (by decide +kernel)) (by decide)
      (by simpa using .constant _) (by rintro c ⟨⟩)
  have hwf : (Content.binning "x___QUERY___" edges bins .error).WellFormed :=
    .binning (.numbers (by decide) (by decide +kernel) (by decide +kernel)) (by decide)
      (by simpa [bins] using ⟨hsingle, .constant _⟩) (by rintro c ⟨⟩)
  obtain ⟨text, htext⟩ := hwf.exists_compile .cuda
  obtain ⟨-, htemplate, hwritten, -⟩ := compile_binning_hygienic hused (by rintro c ⟨⟩) htext
  exact ⟨hused, text, htext, htemplate, hwritten⟩

end Corrections
