/-
  What a compilation writes on the error stream, and which fault it ends with.

  * `Content.translate target c`: the compilation of `c` as a computation in the world. Every part is compiled
    where its code is put down: the parts of the guards first, one of them twice if it stands on both sides,
    and then each bin where the decision comes to it. A fault complains at once, and what comes after it is not
    done any more.
  * `Session.reporting r`: the computation that has nothing to do but to give the result `r`.
    `translate_eq_reporting`: compiling is no more than this for the result of `Content.compile`.
  * `Reports w r`: with the result `r`, a single line is written if the program exits, and nothing otherwise.
  * `compile_reports_first_fault`: a binning ends with the first fault of its parts, and every content reports
    its result in this way.
-/
import Corrections.Proofs.DecisionTree
import Corrections.Proofs.Outcome
import Corrections.Proofs.Session

namespace Corrections

/-! ## Results as computations -/

namespace Session
variable {α β : Type}

/-- Fails with an error in a content. One that ends the whole program is complained about first. -/
def reject (e : CompileError) : Session α := do
  if let some line := e.complaint? then complain line
  throw (.compile e)

/-- Gives a result, whatever the world is like. -/
def reporting : Except CompileError α → Session α
  | .ok a => pure a
  | .error e => reject e

theorem reject_apply (e : CompileError) (w : World) :
    (reject e : Session α) w = .error (.compile e)
      (match e.complaint? with
      | some line => { w with err := w.err ++ line ++ "\n" }
      | none => w) := by
  unfold reject
  cases e.complaint? <;> rfl

theorem reject_bind (e : CompileError) (f : α → Session β) : reject e >>= f = reject e := by
  funext w
  rw [bind_of_error (reject_apply e w), reject_apply]

/-- Results in a row are reported one after the other, up to the first fault. -/
theorem reporting_bind (r : Except CompileError α) (f : α → Except CompileError β) :
    reporting (r >>= f) = reporting r >>= fun a => reporting (f a) := by
  cases r with
  | ok a => rfl
  | error e => exact (reject_bind e _).symm

theorem reporting_mapM {f : α → Except CompileError β} (xs : List α) :
    reporting (xs.mapM f) = xs.mapM fun x => reporting (f x) := by
  induction xs with
  | nil => rfl
  | cons x xs ih =>
    simp only [List.mapM_cons, reporting_bind, ih]
    rfl

end Session

open Session (reject reporting reporting_bind)

/-! ## The computation -/

/-- Reads edges from left to right. -/
def Edge.readEach : List Datum → Session (List Edge)
  | [] => return []
  | d :: rest => do
    match ofDatum? d with
    | none => reject .unreadableEdge
    | some e => return e :: (← readEach rest)

def Edges.readEach : Edges → Session (List Edge)
  | .uniform => reject .uniformEdges
  | .unknown => reject .unknownEdges
  | .listed entries => Edge.readEach entries

/-- Comes to the bins of a tree, in the order of its lines. -/
def DecisionTree.visit (code : Nat → Session String) : DecisionTree → Session (List String)
  | .leaf bin => return [← code bin]
  | .node _ below above => do
    let codes ← below.visit code
    return codes ++ (← above.visit code)

namespace Binning

def translateBin (bins : List (Session String)) (i : Nat) : Session String :=
  match bins[i]? with
  | some code => code
  | none => reject .missingBin

@[inherit_doc lastBin]
def translateLast (bins : List (Session String)) (n : Nat) : Session String :=
  if n ≤ 1 then translateBin bins (bins.length - 1) else translateBin bins (n - 2)

/-- Compiles what stands in the guards. The value of a flow stands in both of them. -/
def translateGuards (q : String) (target : Target) (n : Nat) (bins : List (Session String)) :
    Flow (Session String) → Session Guards
  | .clamp => return ⟨← translateBin bins 0, ← translateLast bins n⟩
  | .error => return ⟨outOfBounds q target, ← translateLast bins n⟩
  | .value code => return ⟨← code, ← code⟩

/-- Compiles a binning from the compilations of its parts. -/
def translate (target : Target) (input : String) (edges : Edges) (bins : List (Session String))
    (flow : Flow (Session String)) : Session String := do
  let edges ← edges.readEach
  if edges.isEmpty then reject (.edgeCount 0 0)
  reporting (Edge.ascending edges)
  let g ← translateGuards DecisionTree.query target edges.length bins flow
  if edges.length = 1 then reject .endlessSplit
  let codes ← (DecisionTree.build 0 (edges.length - 1)).visit (translateBin bins)
  return Text.fill DecisionTree.query input
    ("\n".intercalate (listing DecisionTree.query edges g codes))

end Binning

mutual

/-- Compiles a content, part by part. -/
def Content.translate (target : Target) : Content → Session String
  | .datum (.scalar (.real x)) => return (Datum.scalar (.real x)).returned
  | .datum _ => reject .unknownContent
  | .binning input edges bins flow =>
    Binning.translate target input edges (Content.translateEach target bins)
      (Content.translateFlow target flow)
  | .category _ _ _ => return categoryCode
  | .unsupported kind => reject (.unsupported kind)

def Content.translateEach (target : Target) : List Content → List (Session String)
  | [] => []
  | c :: rest => c.translate target :: Content.translateEach target rest

def Content.translateFlow (target : Target) : Flow Content → Flow (Session String)
  | .clamp => .clamp
  | .error => .error
  | .value c => .value (c.translate target)

end

/-! ## The computation gives the result -/

theorem Edge.readEach_eq (ds : List Datum) : Edge.readEach ds = reporting (Edge.readAll ds) := by
  induction ds with
  | nil => rfl
  | cons d ds ih =>
    unfold Edge.readEach Edge.readAll
    cases Edge.ofDatum? d with
    | none => rfl
    | some e =>
      simp only [ih]
      cases Edge.readAll ds with
      | ok es => rfl
      | error fault => exact Session.reject_bind fault _

theorem Edges.readEach_eq (edges : Edges) : edges.readEach = reporting edges.read := by
  cases edges with
  | listed entries => exact Edge.readEach_eq entries
  | uniform => rfl
  | unknown => rfl

/-- The bins of a tree are come to from left to right. -/
theorem DecisionTree.visit_eq (f : Nat → Compiled) (t : DecisionTree) :
    (t.visit fun i => reporting (f i)) = reporting (t.leaves.mapM f) := by
  induction t with
  | leaf bin =>
    rw [visit, leaves, Session.reporting_mapM]
    simp
  | node edge below above ihbelow ihabove =>
    rw [visit, ihbelow, ihabove, leaves, List.mapM_append, reporting_bind]
    simp only [reporting_bind]
    rfl

namespace Binning
variable {target : Target} {q input : String} {n : Nat} {edges : Edges} {bins : List Compiled}
  {flow : Flow Compiled}

theorem translateBin_eq (bins : List Compiled) (i : Nat) :
    translateBin (bins.map reporting) i = reporting (binAt bins i) := by
  unfold translateBin binAt
  rw [List.getElem?_map]
  cases bins[i]? <;> rfl

theorem translateLast_eq (bins : List Compiled) (n : Nat) :
    translateLast (bins.map reporting) n = reporting (lastBin bins n) := by
  unfold translateLast lastBin
  rw [translateBin_eq, translateBin_eq, List.length_map]
  split_ifs <;> rfl

theorem translateGuards_eq :
    translateGuards q target n (bins.map reporting) (flow.map reporting) =
      reporting (guards q target n bins flow) := by
  cases flow with
  | clamp =>
    simp only [Flow.map, translateGuards, guards, translateBin_eq, translateLast_eq, reporting_bind]
    rfl
  | error =>
    simp only [Flow.map, translateGuards, guards, translateLast_eq, reporting_bind]
    rfl
  | value code =>
    -- The second time the value has code as well, and nothing new is written.
    cases code with
    | ok text => rfl
    | error e => exact Session.reject_bind e _

/-- **One binning.** If its parts do no more than to give their results, so does the binning. -/
theorem translate_eq :
    translate target input edges (bins.map reporting) (flow.map reporting) =
      reporting (assemble target input edges bins flow) := by
  have hvisit : ∀ size, 1 ≤ size →
      (DecisionTree.build 0 size).visit (translateBin (bins.map reporting)) =
        reporting (firstBins bins size) := by
    intro size hsize
    have hbins : translateBin (bins.map reporting) = fun i => reporting (binAt bins i) :=
      funext (translateBin_eq bins)
    rw [hbins, DecisionTree.visit_eq, DecisionTree.leaves_build hsize, firstBins, List.range_eq_range']
  unfold translate assemble
  rw [Edges.readEach_eq, reporting_bind]
  refine bind_congr fun es => ?_
  by_cases hempty : es.isEmpty = true
  · rw [if_pos hempty, if_pos hempty]
    exact Session.reject_bind _ _
  rw [if_neg hempty, if_neg hempty, reporting_bind]
  refine bind_congr fun _ => ?_
  rw [translateGuards_eq, reporting_bind]
  refine bind_congr fun g => ?_
  by_cases hone : es.length = 1
  · rw [if_pos hone, if_pos hone]
    exact Session.reject_bind _ _
  · have hpos : 0 < es.length := List.length_pos_iff.2 (by simpa using hempty)
    rw [if_neg hone, if_neg hone, hvisit _ (by omega), reporting_bind]
    rfl

end Binning

namespace Content
variable {target : Target}

theorem translateEach_eq_map (bins : List Content) :
    translateEach target bins = bins.map (translate target) := by
  induction bins with
  | nil => rfl
  | cons c rest ih => simp [translateEach, ih]

/-- **Compiling is giving the result.** Nothing is written on the way but the complaint of the fault that the
compilation ends with. -/
theorem translate_eq_reporting (c : Content) : c.translate target = reporting (c.compile target) := by
  induction c using Content.induction with
  | constant x => rfl
  | datum d hd =>
    rw [compile_datum target hd]
    rcases d with (_ | _ | _ | x | _) | _ | _
    case scalar.real => exact absurd rfl (hd x)
    all_goals rfl
  | category input items fallback => rfl
  | unsupported kind => rfl
  | binning input edges bins flow ihbins ihflow =>
    have hbins : translateEach target bins = (compileBins target bins).map reporting := by
      rw [translateEach_eq_map, compileBins_eq_map, List.map_map]
      exact List.map_congr_left ihbins
    have hflow : translateFlow target flow = (compileFlow target flow).map reporting := by
      cases flow with
      | clamp => rfl
      | error => rfl
      | value c => exact congrArg Flow.value (ihflow c rfl)
    rw [translate, hbins, hflow, Binning.translate_eq, compile]

end Content

/-! ## What is seen of a compilation -/

/-- How a compilation with a given result ends in the world `w`, and what it leaves there. -/
inductive Reports (w : World) : Compiled → EStateM.Result Failure World String → Prop
  | code (text : String) : Reports w (.ok text) (.ok text w)
  /-- The program exits, and one line has been written. -/
  | exit {e : CompileError} {line : String} (hline : '\n' ∉ line.toList)
      (hending : e.ending = .exits (-1) "" (line ++ "\n")) :
      Reports w (.error e) (.error (.compile e) { w with err := w.err ++ line ++ "\n" })
  /-- An error is raised, or there is no end. Nothing has been written. -/
  | raise {e : CompileError} (hending : ∀ code out err, e.ending ≠ .exits code out err) :
      Reports w (.error e) (.error (.compile e) w)

/-- A complaint is one line. -/
theorem CompileError.newline_notMem_complaint {e : CompileError} {line : String}
    (h : e.complaint? = some line) : '\n' ∉ line.toList := by
  cases e with
  | unknownContent => cases h; decide
  | unknownEdges => cases h; decide
  | unreadableEdge => cases h; decide
  | _ => cases h

theorem reports_reporting (w : World) (r : Compiled) : Reports w r (reporting r w) := by
  cases r with
  | ok text => exact .code text
  | error e =>
    rw [reporting, Session.reject_apply]
    cases h : e.complaint? with
    | some line =>
      refine .exit (CompileError.newline_notMem_complaint h) ?_
      simp [CompileError.ending, h, Ending.complaint]
    | none =>
      refine .raise fun code out err => ?_
      cases hmessage : e.message? <;> simp [CompileError.ending, h, hmessage]

/-- **Which fault is reported, and how.** A binning with at least two edges, if these can be read and are in
order, ends with the first fault of its parts: those of the guards, and then the bins from left to right. A bin
that is missing is a fault as well. If there is none, the binning has code. Every content writes one line if its
compilation exits from the program, and nothing otherwise. -/
theorem compile_reports_first_fault (target : Target) :
    (∀ (input : String) (edges : Edges) (es : List Edge) (bins : List Content) (flow : Flow Content),
      edges.read = .ok es → Edge.ascending es = .ok () → 2 ≤ es.length →
        fault? ((Content.binning input edges bins flow).compile target) =
          firstFault? ((Content.parts es.length bins flow).map (Content.compilePart target))) ∧
      (∃ e, Content.compilePart target none = .error e ∧ e.ending = .raises "list index out of range") ∧
      ∀ (c : Content) (w : World), Reports w (c.compile target) (c.translate target w) := by
  refine ⟨?_, ⟨.missingBin, rfl, rfl⟩, ?_⟩
  · intro input edges es bins flow hread hasc hlen
    have hne : es ≠ [] := List.length_pos_iff.1 (by omega)
    have hparts : (Content.parts es.length bins flow).map (Content.compilePart target) =
        Binning.attempts es.length (Content.compileBins target bins) (Content.compileFlow target flow) := by
      rw [Content.attempts_compile, if_neg (by omega), List.append_nil]
    rw [hparts]
    cases h : (Content.binning input edges bins flow).compile target with
    | ok text => exact ((Binning.exists_assemble_iff hread hne hasc).1 ⟨text, h⟩).symm
    | error e => exact ((Binning.assemble_eq_error_iff hread hne hasc).1 h).symm
  · intro c w
    rw [Content.translate_eq_reporting]
    exact reports_reporting w _

/-- Two faults in a bin and a bin that is missing: what stands outside of the edges decides which of them is
reported. -/
theorem first_fault_depends_on_flow :
    let number := Binary64.ofRank false
    let edges := Edges.ofNumbers [number 10, number 20, number 30]
    let inner := Content.binning "y" edges [.unsupported .formula, .datum (.scalar .null)] .error
    let outer := Content.binning "x" edges [inner]
    let w := World.start .absent []
    fault? (inner.compile .c) = some .unknownContent ∧
      fault? ((outer .clamp).compile .c) = some .unknownContent ∧
      fault? ((outer .error).compile .c) = some .missingBin ∧
      fault? ((outer (.value (.unsupported .transform))).compile .c) = some (.unsupported .transform) ∧
      Reports w ((outer .clamp).compile .c) ((outer .clamp).translate .c w) := by
  intro number edges inner outer w
  obtain ⟨hfirst, -, hreports⟩ := compile_reports_first_fault .c
  have hread : edges.read = .ok [.number (number 10), .number (number 20), .number (number 30)] := rfl
  have hasc : Edge.ascending [.number (number 10), .number (number 20), .number (number 30)] = .ok () := by
    decide +kernel
  have hfault := fun input bins flow => hfirst input edges _ bins flow hread hasc (by simp)
  have hinner : fault? (inner.compile .c) = some .unknownContent := hfault "y" _ .error
  have hinner' : inner.compile .c = .error .unknownContent := fault?_eq_some_iff.1 hinner
  refine ⟨hinner, ?_, hfault "x" [inner] .error, hfault "x" [inner] (.value (.unsupported .transform)),
    hreports _ w⟩
  rw [hfault "x" [inner] .clamp]
  simp [Content.parts, Content.guardParts, Content.compilePart, hinner', firstFault?_cons, fault?]

end Corrections
