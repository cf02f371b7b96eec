/-
  The statements of a content.

  * `Content.program target c` are the statements that the code of `c` is made of. A binning declares
    its two arrays, has a branch for each side outside of the edges, and then decides between its bins.
  * `closed b` is a block with one more semicolon behind it. Only behind a branch that semicolon is a
    statement of its own; otherwise it is the one that the last statement lacks.
  * `Content.forall_parts_iff` and `Binning.search_iff`: what holds of the blocks of a binning holds of its
    parts.
-/
import Corrections.Proofs.Code.Constant
import Corrections.Proofs.Compiled
import Corrections.Proofs.DecisionTree

namespace Corrections

open Code

abbrev Block : Type := List Statement

/-- The block ends in a branch with an `else`. -/
def endsInBranch (b : Block) : Bool :=
  match b.getLast? with
  | some (.ifElse _ _ _) => true
  | _ => false

/-- The block with a semicolon behind it. -/
def closed (b : Block) : Block := if endsInBranch b then b ++ [.empty] else b

/-- The comparison of an input with an edge. -/
def edgeCondition (q : String) (relation : Relation) (edge : Nat) : Condition :=
  ⟨⟨q, relation, .element "edges" edge⟩, []⟩

/-- The call that stops the program. -/
def Target.failCall : Target → Call
  | .c => ⟨"exit", [.literal ⟨true, .number "1"⟩]⟩
  | .cuda => ⟨"assert", [.literal ⟨false, .number "0"⟩]⟩

/-- An edge as an element of its array. -/
def Edge.literal : Edge → Literal
  | .number x => .ofNumber "f" x
  | .lowest => ⟨true, .name "MAX_FLOAT"⟩
  | .highest => ⟨false, .name "MAX_FLOAT"⟩

/-- The number of a bin as an element of its array. -/
def binLiteral (bin : Nat) : Literal := ⟨false, .number (toString bin ++ ".0f")⟩

/-- The constant of a category. -/
def categoryLiteral : Literal := ⟨false, .number "42.f"⟩

/-- The decision between the blocks of bins. -/
def DecisionTree.statements (q : String) (block : Nat → Block) : DecisionTree → Block
  | .leaf bin => closed (block bin)
  | .node edge below above =>
    [.ifElse (edgeCondition q .less edge) (below.statements q block) (above.statements q block)]

namespace Binning

/-- What is executed when an input outside of the edges counts as an error. -/
def failure (q : String) (target : Target) : Block :=
  [.call ⟨"fprintf", [.literal ⟨false, .name "stderr"⟩,
      .text ("ERROR: " ++ q ++ " is out of bounds.\\n")]⟩,
    .call target.failCall]

/-- The block for inputs below the edges. -/
def belowBlock (q : String) (target : Target) (bins : List Block) : Flow Block → Block
  | .clamp => bins.getD 0 []
  | .error => failure q target
  | .value b => b

/-- The block for inputs above the `n` edges. -/
def aboveBlock (n : Nat) (bins : List Block) : Flow Block → Block
  | .clamp | .error => bins.getD (n - 2) []
  | .value b => b

/-- The declarations of the two arrays. -/
def arrays (edges : List Edge) : Block :=
  [.array "edges" edges.length (edges.map Edge.literal),
    .array "values" (edges.length - 1) ((List.range (edges.length - 1)).map binLiteral)]

/-- The branches for inputs outside of the edges. -/
def guardBranches (q : String) (n : Nat) (below above : Block) : Block :=
  [.ifThen (edgeCondition q .less 0) (closed below),
    .ifThen (edgeCondition q .atLeast (n - 1)) (closed above)]

/-- The decision between the bins. -/
def search (q : String) (bins : List Block) : Block :=
  (DecisionTree.build 0 bins.length).statements q (bins.getD · [])

/-- The statements of a binning. -/
def program (q : String) (edges : List Edge) (below above : Block) (bins : List Block) : Block :=
  arrays edges ++ guardBranches q edges.length below above ++ search q bins

end Binning

mutual

/-- The statements of a content. -/
def Content.program (target : Target) : Content → Block
  | .datum (.scalar (.real x)) => [.return_ (.ofNumber "" x)]
  | .datum _ => []
  | .binning input edges bins flow =>
    match edges.read with
    | .ok es =>
      let blocks := Content.programs target bins
      let outside := Content.flowProgram target flow
      Binning.program input es (Binning.belowBlock input target blocks outside)
        (Binning.aboveBlock es.length blocks outside) (blocks.take (es.length - 1))
    | .error _ => []
  | .category _ _ _ => [.return_ categoryLiteral]
  | .unsupported _ => []

def Content.programs (target : Target) : List Content → List Block
  | [] => []
  | c :: rest => c.program target :: Content.programs target rest

def Content.flowProgram (target : Target) : Flow Content → Flow Block
  | .clamp => .clamp
  | .error => .error
  | .value c => .value (c.program target)

end

theorem Content.program_binning {target : Target} {input : String} {edges : Edges} {es : List Edge}
    (hread : edges.read = .ok es) (bins : List Content) (flow : Flow Content) :
    (Content.binning input edges bins flow).program target =
      Binning.program input es
        (Binning.belowBlock input target (programs target bins) (flowProgram target flow))
        (Binning.aboveBlock es.length (programs target bins) (flowProgram target flow))
        ((programs target bins).take (es.length - 1)) := by
  rw [program, hread]

theorem Content.programs_eq_map (target : Target) (bins : List Content) :
    Content.programs target bins = bins.map (Content.program target) := by
  induction bins with
  | nil => rfl
  | cons c rest ih => simp [Content.programs, ih]

theorem getD_programs {target : Target} {bins : List Content} {i : Nat} {c : Content}
    (h : bins[i]? = some c) : (Content.programs target bins).getD i [] = c.program target := by
  rw [List.getD_eq_getElem?_getD, Content.programs_eq_map, List.getElem?_map, h]
  rfl

theorem Content.take_programs_ne_nil (target : Target) {bins : List Content} {n : Nat} (hn : 2 ≤ n)
    (hlen : n - 1 ≤ bins.length) : (programs target bins).take (n - 1) ≠ [] := by
  refine List.length_pos_iff.1 ?_
  rw [programs_eq_map, List.length_take, List.length_map, Nat.min_eq_left hlen]
  omega

/-- The blocks of a binning are a failure, blocks of its bins, or that of its flow. -/
theorem Content.forall_parts_iff {target : Target} {P : Block → Prop} {bins : List Content} {n : Nat}
    (input : String) (flow : Flow Content) (hfailure : P (Binning.failure input target)) (hn : 2 ≤ n)
    (hlen : n - 1 ≤ bins.length) :
    (P (Binning.belowBlock input target (programs target bins) (flowProgram target flow)) ∧
        P (Binning.aboveBlock n (programs target bins) (flowProgram target flow)) ∧
        ∀ b ∈ (programs target bins).take (n - 1), P b) ↔
      (∀ c ∈ bins.take (n - 1), P (c.program target)) ∧ ∀ c, flow = .value c → P (c.program target) := by
  have hmap : (∀ b ∈ (programs target bins).take (n - 1), P b) ↔
      ∀ c ∈ bins.take (n - 1), P (c.program target) := by
    rw [programs_eq_map, ← List.map_take, List.forall_mem_map]
  have hbin : ∀ i < n - 1, (∀ c ∈ bins.take (n - 1), P (c.program target)) →
      P ((programs target bins).getD i []) := by
    intro i hi h
    have hi' : i < bins.length := by omega
    rw [getD_programs (List.getElem?_eq_getElem hi')]
    refine h _ (List.mem_of_getElem? (i := i) ?_)
    rw [List.getElem?_take_of_lt hi, List.getElem?_eq_getElem hi']
  rw [hmap]
  cases flow with
  | clamp =>
    constructor
    · rintro ⟨-, -, hbins⟩
      exact ⟨hbins, by simp⟩
    · rintro ⟨hbins, -⟩
      exact ⟨hbin 0 (by omega) hbins, hbin (n - 2) (by omega) hbins, hbins⟩
  | error =>
    constructor
    · rintro ⟨-, -, hbins⟩
      exact ⟨hbins, by simp⟩
    · rintro ⟨hbins, -⟩
      exact ⟨hfailure, hbin (n - 2) (by omega) hbins, hbins⟩
  | value c =>
    simp only [flowProgram, Binning.belowBlock, Binning.aboveBlock, Flow.value.injEq, forall_eq']
    constructor
    · rintro ⟨hflow, -, hbins⟩
      exact ⟨hbins, hflow⟩
    · rintro ⟨hbins, hflow⟩
      exact ⟨hflow, hflow, hbins⟩

/-! ## Closed blocks -/

theorem closed_of_endsInBranch {b : Block} (h : endsInBranch b = true) : closed b = b ++ [.empty] := by
  rw [closed, if_pos h]

theorem endsInBranch_append {b : Block} (a : Block) (hb : b ≠ []) :
    endsInBranch (a ++ b) = endsInBranch b := by
  rw [endsInBranch, endsInBranch, List.getLast?_append_of_ne_nil _ hb]

theorem endsInBranch_closed (b : Block) : endsInBranch (closed b) = false := by
  unfold closed
  split
  · rw [endsInBranch_append _ (by simp)]
    rfl
  · next h => simpa using h

/-- A semicolon adds nothing to what is collected from statements. -/
theorem collect_closed {α : Type} {f : Block → List α} (happend : ∀ a b, f (a ++ b) = f a ++ f b)
    (hempty : f [.empty] = []) (b : Block) : f (closed b) = f b := by
  unfold closed
  split
  · rw [happend, hempty, List.append_nil]
  · rfl

/-- A semicolon behind a block that ends does not matter. -/
theorem ends_closed {names : Names} {σ : Scope} {b : Block} {h : Halt}
    (hb : (execBlock names b σ).Ends h) : (execBlock names (closed b) σ).Ends h := by
  unfold closed
  split
  · exact ends_append _ hb
  · exact hb

/-! ## Properties of all blocks -/

section
variable {P : Block → Prop} (hclosed : ∀ b, P (closed b) ↔ P b)
  (hbranch : ∀ c yes no, P [.ifElse c yes no] ↔ P yes ∧ P no)

include hclosed hbranch

theorem DecisionTree.statements_iff (q : String) (block : Nat → Block) (t : DecisionTree) :
    P (t.statements q block) ↔ ∀ bin ∈ t.leaves, P (block bin) := by
  induction t with
  | leaf bin => simp [statements, leaves, hclosed]
  | node edge below above ihbelow ihabove =>
    rw [statements, hbranch, ihbelow, ihabove, leaves, List.forall_mem_append]

/-- What a branch has if both sides have it, a decision has if all bins have it. -/
theorem Binning.search_iff {q : String} {bins : List Block} (hne : bins ≠ []) :
    P (search q bins) ↔ ∀ b ∈ bins, P b := by
  rw [search, DecisionTree.statements_iff hclosed hbranch]
  exact DecisionTree.forall_leaves_build hne []

end

end Corrections
