/-
  What a successful compilation consists of.

  * `Content.induction` follows the recursion of `Content.compile`.
  * `Binning.template q`: the code of a binning with `q` in the places of its input. `assemble_eq_template`:
    code is such a template, filled.
  * `firstBins_eq_ok_iff` and `template_eq_ok_iff`: code comes out exactly when every part has code.
-/
import Corrections.Compilation
import Mathlib.Tactic.Common

namespace Corrections

/-- Induction over contents: a binning is reached from its bins and from the value of its flow. -/
@[elab_as_elim]
theorem Content.induction {motive : Content → Prop} (constant : ∀ x, motive (.constant x))
    (datum : ∀ d, (∀ x, d ≠ .scalar (.real x)) → motive (.datum d))
    (binning : ∀ input edges bins flow, (∀ c ∈ bins, motive c) →
      (∀ c, flow = .value c → motive c) → motive (.binning input edges bins flow))
    (category : ∀ input items fallback, motive (.category input items fallback))
    (unsupported : ∀ kind, motive (.unsupported kind)) (c : Content) : motive c := by
  refine Content.compile.induct motive (fun flow => ∀ c, flow = .value c → motive c)
    (fun bins => ∀ c ∈ bins, motive c) constant datum binning category unsupported ?_ ?_ ?_ ?_ ?_ c
  · simp
  · intro c rest hc hrest c' hc'
    rcases List.mem_cons.1 hc' with rfl | hc'
    · exact hc
    · exact hrest c' hc'
  · simp
  · simp
  · rintro c hc c' ⟨⟩
    exact hc

theorem Content.compile_datum (target : Target) {d : Datum} (h : ∀ x, d ≠ .scalar (.real x)) :
    (Content.datum d).compile target = .error .unknownContent := by
  rcases d with (_ | _ | _ | x | _) | _ | _
  case scalar.real => exact absurd rfl (h x)
  all_goals rfl

section
variable {target : Target}

theorem Content.forall_compileBins {P : String → Prop} {bins : List Content}
    (h : ∀ c ∈ bins, ∀ {text}, c.compile target = .ok text → P text) :
    ∀ code, .ok code ∈ Content.compileBins target bins → P code := by
  intro code hcode
  rw [Content.compileBins_eq_map] at hcode
  obtain ⟨c, hc, hcompile⟩ := List.mem_map.1 hcode
  exact h c hc hcompile

theorem Content.forall_compileFlow {P : String → Prop} {flow : Flow Content}
    (h : ∀ c, flow = .value c → ∀ {text}, c.compile target = .ok text → P text) :
    ∀ code, Content.compileFlow target flow = .value (.ok code) → P code := by
  intro code hcode
  cases flow with
  | clamp => cases hcode
  | error => cases hcode
  | value c => exact h c rfl (Flow.value.inj hcode)

end

theorem bind_eq_ok_iff {ε α β : Type} {x : Except ε α} {f : α → Except ε β} {b : β} :
    x >>= f = .ok b ↔ ∃ a, x = .ok a ∧ f a = .ok b := by
  cases x with
  | error e => simp [bind, Except.bind]
  | ok a => simp [bind, Except.bind]

theorem map_eq_ok_iff {ε α β : Type} {x : Except ε α} {f : α → β} {b : β} :
    x.map f = .ok b ↔ ∃ a, x = .ok a ∧ f a = b := by
  cases x with
  | error e => simp [Except.map]
  | ok a => simp [Except.map]

/-- The same flow with another value. -/
def Flow.map {α β : Type} (f : α → β) : Flow α → Flow β
  | .clamp => .clamp
  | .error => .error
  | .value a => .value (f a)

namespace Flow
variable {α β γ : Type} {flow : Flow α}

theorem map_map (f : α → β) (g : β → γ) : (flow.map f).map g = flow.map (g ∘ f) := by
  cases flow <;> rfl

theorem map_congr {f g : α → β} (h : ∀ a, flow = .value a → f a = g a) : flow.map f = flow.map g := by
  cases flow with
  | clamp => rfl
  | error => rfl
  | value a => exact congrArg Flow.value (h a rfl)

theorem map_eq_self {f : α → α} (h : ∀ a, flow = .value a → f a = a) : flow.map f = flow := by
  cases flow with
  | clamp => rfl
  | error => rfl
  | value a => exact congrArg Flow.value (h a rfl)

end Flow

theorem map_eq_self {α : Type} {f : α → α} {l : List α} (h : ∀ a ∈ l, f a = a) : l.map f = l :=
  (List.map_congr_left h).trans (List.map_id l)

namespace Binning

theorem binAt_eq_ok_iff {bins : List Compiled} {i : Nat} {code : String} :
    binAt bins i = .ok code ↔ bins[i]? = some (.ok code) := by
  unfold binAt
  cases bins[i]? with
  | none => simp
  | some c => simp

theorem firstBins_succ (bins : List Compiled) (n : Nat) :
    firstBins bins (n + 1) = (do
      let codes ← firstBins bins n
      let code ← binAt bins n
      return codes ++ [code]) := by
  simp [firstBins, List.range_succ, List.mapM_append]

/-- The first `n` bins have code exactly when there are as many and each of them has. -/
theorem firstBins_eq_ok_iff {bins : List Compiled} {n : Nat} {codes : List String} :
    firstBins bins n = .ok codes ↔ bins.take n = codes.map .ok ∧ codes.length = n := by
  induction n generalizing codes with
  | zero =>
    have h : firstBins bins 0 = .ok [] := rfl
    rw [h]
    constructor
    · rintro ⟨⟩
      simp
    · rintro ⟨-, hlen⟩
      rw [List.length_eq_zero_iff.1 hlen]
  | succ n ih =>
    simp only [firstBins_succ, bind_eq_ok_iff, binAt_eq_ok_iff, ih]
    constructor
    · rintro ⟨codes, ⟨htake, hlen⟩, code, hcode, ⟨⟩⟩
      rw [List.take_add_one, hcode, htake]
      simp [hlen]
    · rintro ⟨htake, hlen⟩
      obtain ⟨init, last, rfl⟩ : ∃ init last, codes = init ++ [last] :=
        ⟨codes.dropLast, codes.getLast (by rintro rfl; simp at hlen),
          (List.dropLast_concat_getLast _).symm⟩
      have hinit : init.length = n := by simpa using hlen
      have hn : n < (bins.take (n + 1)).length := by rw [htake]; simp [hinit]
      refine ⟨init, ⟨?_, hinit⟩, last, ?_, rfl⟩
      · have := congrArg (List.take n) htake
        simpa [List.take_take, hinit] using this
      · have := congrArg (·[n]?) htake
        simpa [List.getElem?_take, hinit] using this

/-- The code of the last bin, for at least two edges. -/
theorem lastBin_eq {bins : List Compiled} {n : Nat} (h : 2 ≤ n) :
    lastBin bins n = binAt bins (n - 2) := by
  unfold lastBin
  rw [if_neg (by omega)]

/-- The template of a binning, with `q` in the places of the input. -/
def template (q : String) (target : Target) (edges : Edges) (bins : List Compiled)
    (flow : Flow Compiled) : Compiled := do
  let edges ← edges.read
  if edges.isEmpty then throw (.edgeCount 0 0)
  Edge.ascending edges
  let g ← guards q target edges.length bins flow
  if edges.length = 1 then throw .endlessSplit
  let codes ← firstBins bins (edges.length - 1)
  return "\n".intercalate (listing q edges g codes)

section
variable {target : Target} {input q : String} {edges : Edges} {bins : List Compiled}
  {flow : Flow Compiled} {text : String}

/-- The code of a binning is its template with the input filled in. -/
theorem assemble_eq_template :
    assemble target input edges bins flow =
      (template DecisionTree.query target edges bins flow).map
        (Text.fill DecisionTree.query input) := by
  unfold assemble template
  cases edges.read with
  | error e => rfl
  | ok es =>
    simp only [bind, Except.bind]
    split
    · rfl
    · cases Edge.ascending es with
      | error e => rfl
      | ok u =>
        cases guards DecisionTree.query target es.length bins flow with
        | error e => rfl
        | ok g =>
          simp only
          split
          · rfl
          · cases firstBins bins (es.length - 1) <;> rfl

/-- A binning has code exactly when its edges ascend, there is a range between them, and the guards
and all bins have code. -/
theorem template_eq_ok_iff :
    template q target edges bins flow = .ok text ↔
      ∃ es g codes, edges.read = .ok es ∧ 2 ≤ es.length ∧ Edge.ascending es = .ok () ∧
        guards q target es.length bins flow = .ok g ∧ firstBins bins (es.length - 1) = .ok codes ∧
        "\n".intercalate (listing q es g codes) = text := by
  simp only [template, bind_eq_ok_iff]
  constructor
  · rintro ⟨es, hread, h⟩
    split at h
    · cases h
    · next hempty =>
      obtain ⟨⟨⟩, hasc, h⟩ := bind_eq_ok_iff.1 h
      obtain ⟨g, hg, h⟩ := bind_eq_ok_iff.1 h
      split at h
      · cases h
      · next hone =>
        obtain ⟨codes, hcodes, h⟩ := bind_eq_ok_iff.1 h
        have hpos : 0 < es.length := List.length_pos_iff.2 (by simpa using hempty)
        exact ⟨es, g, codes, hread, by omega, hasc, hg, hcodes, Except.ok.inj h⟩
  · rintro ⟨es, g, codes, hread, hlen, hasc, hg, hcodes, rfl⟩
    have hne : es.isEmpty = false := by
      cases es with
      | nil => simp at hlen
      | cons e rest => rfl
    refine ⟨es, hread, ?_⟩
    simp [hne, hasc, hg, hcodes, show es.length ≠ 1 by omega, bind, Except.bind, pure, Except.pure]

theorem assemble_eq_ok_iff :
    assemble target input edges bins flow = .ok text ↔
      ∃ es g codes, edges.read = .ok es ∧ 2 ≤ es.length ∧ Edge.ascending es = .ok () ∧
        guards DecisionTree.query target es.length bins flow = .ok g ∧
        firstBins bins (es.length - 1) = .ok codes ∧
        Text.fill DecisionTree.query input
          ("\n".intercalate (listing DecisionTree.query es g codes)) = text := by
  rw [assemble_eq_template, map_eq_ok_iff]
  constructor
  · rintro ⟨t, ht, hfill⟩
    obtain ⟨es, g, codes, hread, hlen, hasc, hg, hcodes, rfl⟩ := template_eq_ok_iff.1 ht
    exact ⟨es, g, codes, hread, hlen, hasc, hg, hcodes, hfill⟩
  · rintro ⟨es, g, codes, hread, hlen, hasc, hg, hcodes, hfill⟩
    exact ⟨_, template_eq_ok_iff.2 ⟨es, g, codes, hread, hlen, hasc, hg, hcodes, rfl⟩, hfill⟩

end

end Binning

end Corrections
