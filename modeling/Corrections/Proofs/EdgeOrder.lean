/-
  Edges at infinity.

  * `Endpoint`: an edge as it is given, a number that is no NaN or a name of one of the infinities.
    `Endpoint.toEReal` is its value among the extended reals.
  * `below_iff`: an edge is found to be below another one exactly when its value is and both are
    numbers, or both are names.
  * `compile_clampAt_iff`: so edges with increasing values are accepted only if they are alike, and
    a number next to a name cannot be compared.
-/
import Corrections.Proofs.Binary64.Extended
import Corrections.Proofs.Outcome

namespace Corrections

namespace Edge
variable {a b : Edge}

/-- A number and a name cannot be compared. -/
theorem below_of_kind_ne (h : a.kind ≠ b.kind) :
    a.below b = .error (.incomparable a.kind b.kind) := by
  cases a <;> cases b <;> first | rfl | exact absurd rfl h

/-- Two numbers can be compared, and so can two names. -/
theorem exists_below_of_kind_eq (h : a.kind = b.kind) : ∃ r, a.below b = .ok r := by
  cases a <;> cases b <;> first | exact ⟨_, rfl⟩ | cases h

end Edge

/-- An edge as it is given. -/
inductive Endpoint where
  | number (x : Binary64) (hx : x ≠ .nan)
  /-- The name `-inf`. -/
  | minusInfinity
  /-- The name `inf`, or `+inf`. -/
  | infinity (plus : Bool)

namespace Endpoint

/-- The edge in the data of a correction. -/
def datum : Endpoint → Datum
  | .number x _ => .scalar (.real x)
  | .minusInfinity => .scalar (.str "-inf")
  | .infinity false => .scalar (.str "inf")
  | .infinity true => .scalar (.str "+inf")

/-- The value of an edge. -/
noncomputable def toEReal : Endpoint → EReal
  | .number x _ => x.toEReal
  | .minusInfinity => ⊥
  | .infinity _ => ⊤

/-- The edge as it is read. -/
def edge : Endpoint → Edge
  | .number x _ => .number x
  | .minusInfinity => .lowest
  | .infinity _ => .highest

/-- Whether an edge is a number or a name. -/
def kind (p : Endpoint) : EdgeKind := p.edge.kind

/-- The values go up from each edge to all later ones. -/
def Increasing (ps : List Endpoint) : Prop := (ps.map toEReal).Pairwise (· < ·)

/-- The edges are all numbers, or all names. -/
def Alike (ps : List Endpoint) : Prop := ∀ p ∈ ps, ∀ p' ∈ ps, p.kind = p'.kind

theorem read_listed (ps : List Endpoint) :
    (Edges.listed (ps.map datum)).read = .ok (ps.map edge) := by
  have hread : ∀ p : Endpoint, Edge.ofDatum? p.datum = some p.edge := by
    intro p
    rcases p with ⟨x, hx⟩ | _ | (_ | _) <;> rfl
  refine Edge.readAll_eq_ok_iff.2 ?_
  simp [hread]

variable {p p' : Endpoint} {ps : List Endpoint}

/-- **An edge is below another one if its value is and the two are alike.** -/
theorem below_iff : Edge.Below p.edge p'.edge ↔ p.toEReal < p'.toEReal ∧ p.kind = p'.kind := by
  cases p with
  | number x hx =>
    cases p' with
    | number y hy =>
      simp [edge, kind, Edge.kind, toEReal, Edge.below_iff, Binary64.lt_iff_toEReal_lt hx hy]
    | minusInfinity => simp [edge, kind, Edge.kind, Edge.below_iff]
    | infinity plus => simp [edge, kind, Edge.kind, Edge.below_iff]
  | minusInfinity =>
    cases p' with
    | number y hy => simp [edge, kind, Edge.kind, Edge.below_iff]
    | minusInfinity => simp [edge, toEReal, Edge.below_iff]
    | infinity plus => simp [edge, kind, Edge.kind, toEReal, Edge.below_iff]
  | infinity plus => cases p' <;> simp [edge, kind, Edge.kind, toEReal, Edge.below_iff]

theorem alike_iff_pairwise : Alike ps ↔ ps.Pairwise fun p p' => p.kind = p'.kind := by
  have : Std.Symm fun p p' : Endpoint => p.kind = p'.kind := ⟨fun _ _ => Eq.symm⟩
  refine ⟨fun h => List.pairwise_of_forall_mem_list h, fun h p hp p' hp' => ?_⟩
  exact List.Pairwise.forall_of_forall (R := fun p p' => p.kind = p'.kind) (fun _ _ => rfl) h hp hp'

theorem alike_cons_cons : Alike (p :: p' :: ps) ↔ p.kind = p'.kind ∧ Alike (p' :: ps) := by
  constructor
  · intro h
    exact ⟨h p (by simp) p' (by simp), fun q hq q' hq' =>
      h q (List.mem_cons_of_mem _ hq) q' (List.mem_cons_of_mem _ hq')⟩
  · rintro ⟨hkind, h⟩
    have hp : ∀ q ∈ p :: p' :: ps, q.kind = p'.kind := by
      rw [List.forall_mem_cons]
      exact ⟨hkind, fun q hq => h q hq p' (by simp)⟩
    exact fun q hq q' hq' => (hp q hq).trans (hp q' hq').symm

theorem increasing_cons_cons :
    Increasing (p :: p' :: ps) ↔ p.toEReal < p'.toEReal ∧ Increasing (p' :: ps) := by
  unfold Increasing
  rw [← List.isChain_iff_pairwise, ← List.isChain_iff_pairwise]
  simp only [List.map_cons, List.isChain_cons_cons]

/-- The edges are found to be in order exactly if they increase and are alike. -/
theorem ascending_eq_ok_iff :
    Edge.ascending (ps.map edge) = .ok () ↔ Increasing ps ∧ Alike ps := by
  rw [Edge.ascending_eq_ok_iff, alike_iff_pairwise, Increasing, List.pairwise_map, List.pairwise_map,
    ← List.pairwise_and_iff]
  simp only [below_iff]

/-- Increasing edges that are not alike have a number next to a name. -/
theorem ascending_of_not_alike (hinc : Increasing ps) (h : ¬ Alike ps) :
    ∃ left right, left ≠ right ∧ Edge.ascending (ps.map edge) = .error (.incomparable left right) := by
  induction ps with
  | nil => exact absurd (fun p hp => absurd hp (by simp)) h
  | cons p ps ih =>
    cases ps with
    | nil => exact absurd (by simp [Alike]) h
    | cons p' ps =>
      rw [increasing_cons_cons] at hinc
      rw [alike_cons_cons, not_and] at h
      rw [List.map_cons, List.map_cons, Edge.ascending]
      -- Neighbours that are alike are in order, and the fault is further on.
      by_cases hkind : p.kind = p'.kind
      · have hbelow : p.edge.below p'.edge = .ok true := below_iff.2 ⟨hinc.1, hkind⟩
        rw [hbelow]
        exact ih hinc.2 (h hkind)
      · rw [Edge.below_of_kind_ne hkind]
        exact ⟨p.kind, p'.kind, hkind, rfl⟩

/-- Edges that are alike can only be out of order. -/
theorem ascending_of_not_increasing (halike : Alike ps) (h : ¬ Increasing ps) :
    Edge.ascending (ps.map edge) = .error .unsorted := by
  induction ps with
  | nil => exact absurd List.Pairwise.nil h
  | cons p ps ih =>
    cases ps with
    | nil => exact absurd (List.pairwise_singleton _ _) h
    | cons p' ps =>
      rw [increasing_cons_cons, not_and] at h
      rw [alike_cons_cons] at halike
      rw [List.map_cons, List.map_cons, Edge.ascending]
      obtain ⟨b, hb⟩ := Edge.exists_below_of_kind_eq halike.1
      rw [hb]
      cases b with
      | false => rfl
      | true => exact ih halike.2 (h (below_iff.1 hb).1)

end Endpoint

/-- A binning of constants between the given edges, with the nearest bin outside of them. -/
abbrev Content.clampAt (input : String) (ps : List Endpoint) (vs : List Binary64) : Content :=
  .binning input (.listed (ps.map Endpoint.datum)) (vs.map .constant) .clamp

namespace Content
variable {target : Target} {input : String} {ps : List Endpoint} {vs : List Binary64}

/-- With as many constants as there are bins, only the edges matter. -/
theorem exists_compile_clampAt_iff (hlen : 2 ≤ ps.length) (hvs : vs.length + 1 = ps.length) :
    (∃ text, (clampAt input ps vs).compile target = .ok text) ↔
      Edge.ascending (ps.map Endpoint.edge) = .ok () := by
  have hread := Endpoint.read_listed ps
  constructor
  · rintro ⟨text, h⟩
    obtain ⟨es, g, codes, hread', -, hasc, -⟩ := Binning.assemble_eq_ok_iff.1 h
    cases hread.symm.trans hread'
    exact hasc
  · intro hasc
    refine WellFormed.exists_compile (.binning (Edges.wellFormed_iff.2
      ⟨_, hread, hasc, by simpa using hlen, rfl⟩) ?_ ?_ (by rintro c ⟨⟩)) target
    · simp only [List.length_map]
      omega
    · intro c hc
      obtain ⟨v, -, rfl⟩ := List.mem_map.1 (List.mem_of_mem_take hc)
      exact .constant v

theorem compile_clampAt_of_ascending_error {e : CompileError}
    (h : Edge.ascending (ps.map Endpoint.edge) = .error e) :
    (clampAt input ps vs).compile target = .error e :=
  Binning.assemble_of_ascending_error (Endpoint.read_listed ps) h

end Content

/-- **Which edges at infinity are accepted.** There is code exactly for edges with increasing values
that are all numbers, or all names. Increasing edges of both kinds are a fault, since a number
cannot be compared with a name, and edges of one kind that do not increase are out of order. -/
theorem compile_clampAt_iff (target : Target) (input : String) {ps : List Endpoint}
    {vs : List Binary64} (hlen : 2 ≤ ps.length) (hvs : vs.length + 1 = ps.length) :
    ((∃ text, (Content.clampAt input ps vs).compile target = .ok text) ↔
        Endpoint.Increasing ps ∧ Endpoint.Alike ps) ∧
      (Endpoint.Increasing ps → ¬ Endpoint.Alike ps → ∃ left right, left ≠ right ∧
        (Content.clampAt input ps vs).compile target = .error (.incomparable left right)) ∧
      (Endpoint.Alike ps → ¬ Endpoint.Increasing ps →
        (Content.clampAt input ps vs).compile target = .error .unsorted) := by
  refine ⟨?_, fun hinc halike => ?_, fun halike hinc => ?_⟩
  · rw [Content.exists_compile_clampAt_iff hlen hvs, Endpoint.ascending_eq_ok_iff]
  · obtain ⟨left, right, hne, hasc⟩ := Endpoint.ascending_of_not_alike hinc halike
    exact ⟨left, right, hne, Content.compile_clampAt_of_ascending_error hasc⟩
  · exact Content.compile_clampAt_of_ascending_error
      (Endpoint.ascending_of_not_increasing halike hinc)

/-- From minus infinity over zero to infinity: accepted if all three are numbers, and a fault if the
infinities are names. -/
theorem compile_clampAt_infinities :
    let zero := Endpoint.number (.zero false) (by rintro ⟨⟩)
    let numbers := [.number (.infinity true) (by rintro ⟨⟩), zero,
      .number (.infinity false) (by rintro ⟨⟩)]
    let names := [.minusInfinity, zero, .infinity true]
    let vs := [Binary64.ofRank false 1, .ofRank false 2]
    2 ≤ numbers.length ∧ 2 ≤ names.length ∧
      vs.length + 1 = numbers.length ∧ vs.length + 1 = names.length ∧
      (∃ text, (Content.clampAt "x" numbers vs).compile .cuda = .ok text) ∧
      ∃ left right, left ≠ right ∧
        (Content.clampAt "x" names vs).compile .cuda = .error (.incomparable left right) := by
  intro zero numbers names vs
  have hnumbers : Endpoint.Increasing numbers := by
    simp [Endpoint.Increasing, numbers, zero, Endpoint.toEReal, Binary64.toEReal, Binary64.zero,
      EReal.bot_lt_coe, EReal.coe_lt_top]
  have hnames : Endpoint.Increasing names := by
    simp [Endpoint.Increasing, names, zero, Endpoint.toEReal, Binary64.toEReal, Binary64.zero,
      EReal.bot_lt_coe, EReal.coe_lt_top]
  have halike : Endpoint.Alike numbers := by
    simp [Endpoint.Alike, numbers, zero, Endpoint.kind, Endpoint.edge, Edge.kind]
  have hmixed : ¬ Endpoint.Alike names := by
    simp [Endpoint.Alike, names, zero, Endpoint.kind, Endpoint.edge, Edge.kind]
  exact ⟨by decide, by decide, rfl, rfl,
    (compile_clampAt_iff .cuda "x" (by decide) rfl).1.2 ⟨hnumbers, halike⟩,
    (compile_clampAt_iff .cuda "x" (by decide) rfl).2.1 hnames hmixed⟩

/-- **Zero is not found to be below infinity**, if the infinity is a name. -/
theorem number_below_infinity_rejected :
    let ps := [.number (.zero false) (by rintro ⟨⟩), .infinity false]
    ∃ one, Binary64.read? "1.0" = some one ∧ 2 ≤ ps.length ∧ [one].length + 1 = ps.length ∧
      Endpoint.Increasing ps ∧
      (Content.clampAt "x" ps [one]).compile .c = .error (.incomparable .number .name) ∧
      ¬ ∃ text, (Content.clampAt "x" ps [one]).compile .c = .ok text := by
  intro ps
  have hcompile : (Content.clampAt "x" ps [.ofRank false (1023 * 2 ^ 52)]).compile .c =
      .error (.incomparable .number .name) := rfl
  refine ⟨.ofRank false (1023 * 2 ^ 52), by decide +kernel, by decide, rfl, ?_, hcompile, ?_⟩
  · simp [Endpoint.Increasing, ps, Endpoint.toEReal, Binary64.toEReal, Binary64.zero,
      EReal.coe_lt_top]
  · rw [hcompile]
    rintro ⟨text, ⟨⟩⟩

end Corrections
