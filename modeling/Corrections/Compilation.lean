/-
  The code of a content.

  * `Content.compile target c` is the sequence of statements that returns the value of `c`, without the
    last semicolon.
  * A binning gives arrays of its edges and values, two guards for inputs outside of the edges, and a
    decision tree over its bins (`listing`). It is written as a template, and at the end the name of
    the input is filled into the whole text, the code of the bins included.
  * `Binning.assemble` puts the parts together. Faults are found in this order: in the edges, in the
    guards, in the missing range of a single edge, in the bins from left to right.
-/
import Corrections.DecisionTree
import Corrections.Edge
import Corrections.Target
import Corrections.Text.Fill

namespace Corrections

/-- The statement that returns a value. -/
def Datum.returned (d : Datum) : String := "return " ++ d.text

/-- The code of a category: one and the same value for all of its cases. -/
def categoryCode : String := "return 42.f"

/-- Code, or why there is none. -/
abbrev Compiled : Type := Except CompileError String

namespace Binning

open DecisionTree (query edgeAt)

/-- The two statements for inputs outside of the edges. -/
structure Guards where
  below : String
  above : String
  deriving DecidableEq

/-- The code of the bin at `i`. -/
def binAt (bins : List Compiled) (i : Nat) : Compiled :=
  match bins[i]? with
  | some code => code
  | none => .error .missingBin

/-- The code of the bin that ends at the last of `n` edges. A single edge ends no bin, and the last of
all bins stands in. -/
def lastBin (bins : List Compiled) (n : Nat) : Compiled :=
  if n ≤ 1 then binAt bins (bins.length - 1) else binAt bins (n - 2)

/-- The statement of an input below all edges that counts as an error. -/
def outOfBounds (q : String) (target : Target) : String :=
  "fprintf(stderr, \"ERROR: " ++ q ++ " is out of bounds.\\n\");" ++ target.failCode

/-- The guards of a binning with `n` edges. -/
def guards (q : String) (target : Target) (n : Nat) (bins : List Compiled) :
    Flow Compiled → Except CompileError Guards
  | .clamp => do
    let below ← binAt bins 0
    let above ← lastBin bins n
    return ⟨below, above⟩
  | .error => do
    let above ← lastBin bins n
    return ⟨outOfBounds q target, above⟩
  | .value code => do
    let code ← code
    return ⟨code, code⟩

/-- The codes of the first `n` bins, the first fault from the left winning. -/
def firstBins (bins : List Compiled) (n : Nat) : Except CompileError (List String) :=
  (List.range n).mapM (binAt bins)

/-- The declarations of the edges and of the values, which are the numbers of the bins. -/
def arrayLines (edges : List Edge) : List String :=
  let bins := edges.length - 1
  let values := (List.range bins).map fun i => toString i ++ ".0f"
  ["    // Embedded edges and values arrays",
    "    float edges[" ++ toString edges.length ++ "] = \x7b" ++
      ", ".intercalate (edges.map Edge.code) ++ "\x7d;",
    "    float values[" ++ toString bins ++ "] = \x7b" ++ ", ".intercalate values ++ "\x7d;",
    ""]

/-- The guards of a binning with `n` edges, as statements. -/
def guardLines (q : String) (n : Nat) (g : Guards) : List String :=
  ["    // Handle edge cases",
    "    if (" ++ q ++ " < " ++ edgeAt 0 ++ ") \x7b",
    "        " ++ g.below ++ ";",
    "    \x7d",
    "    if (" ++ q ++ " >= " ++ edgeAt (n - 1) ++ ") \x7b",
    "        " ++ g.above ++ ";",
    "    \x7d"]

/-- The decision between the bins, as statements. -/
def searchLines (q : String) (codes : List String) : List String :=
  ["",
    "    // Binary search implemented as a balanced decision tree with if/else statements"] ++
    ((DecisionTree.build 0 codes.length).entries q (codes.getD · "") 0).map ("    " ++ ·)

/-- The lines of a binning of `q`. -/
def listing (q : String) (edges : List Edge) (g : Guards) (codes : List String) : List String :=
  arrayLines edges ++ guardLines q edges.length g ++ searchLines q codes

/-- The code of a binning from the codes of its parts. -/
def assemble (target : Target) (input : String) (edges : Edges) (bins : List Compiled)
    (flow : Flow Compiled) : Compiled := do
  let edges ← edges.read
  if edges.isEmpty then throw (.edgeCount 0 0)
  Edge.ascending edges
  let g ← guards query target edges.length bins flow
  if edges.length = 1 then throw .endlessSplit
  let codes ← firstBins bins (edges.length - 1)
  return Text.fill query input ("\n".intercalate (listing query edges g codes))

end Binning

mutual

/-- The code of a content. -/
def Content.compile (target : Target) : Content → Compiled
  | .datum (.scalar (.real x)) => .ok (Datum.scalar (.real x)).returned
  | .datum _ => .error .unknownContent
  | .binning input edges bins flow =>
    Binning.assemble target input edges (Content.compileBins target bins)
      (Content.compileFlow target flow)
  | .category _ _ _ => .ok categoryCode
  | .unsupported kind => .error (.unsupported kind)

/-- The codes of all bins. -/
def Content.compileBins (target : Target) : List Content → List Compiled
  | [] => []
  | c :: rest => c.compile target :: Content.compileBins target rest

/-- The code for inputs outside of the edges. -/
def Content.compileFlow (target : Target) : Flow Content → Flow Compiled
  | .clamp => .clamp
  | .error => .error
  | .value c => .value (c.compile target)

end

/-- The bins are compiled one by one. -/
theorem Content.compileBins_eq_map (target : Target) (bins : List Content) :
    Content.compileBins target bins = bins.map (Content.compile target) := by
  induction bins with
  | nil => rfl
  | cons c rest ih => simp [Content.compileBins, ih]

end Corrections
