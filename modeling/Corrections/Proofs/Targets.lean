/-
  What the target changes in generated code.

  * `Joined k text`: for every target the text is made of the same segments, with `k` fail expressions of
    that target between them.
  * `Agree P f`: a computation fails for all targets with the same error, or it succeeds for all of them
    and the results together have the property `P`.
  * `Content.joints` counts the fail expressions in the code of a content. A part of a binning counts as
    often as it is compiled.
  * `target_changes_failCode`: the code of a content and the header of a builder are joined so.
-/
import Corrections.Proofs.Acceptance
import Corrections.Proofs.DecisionTree
import Corrections.Proofs.Substitution
import Corrections.Builder.Header
import Mathlib.Algebra.GroupWithZero.Nat

namespace Corrections

/-! ## Segments -/

theorem Text.intercalate_append (sep : String) (front back : List String) (s s' : String) :
    sep.intercalate (front ++ [s]) ++ sep.intercalate (s' :: back) =
      sep.intercalate (front ++ (s ++ s') :: back) := by
  have hback : s ++ sep.intercalate (s' :: back) = sep.intercalate ((s ++ s') :: back) := by
    cases back with
    | nil => simp
    | cons s'' back => simp only [String.intercalate_cons_cons, String.append_assoc]
  induction front with
  | nil => simpa only [List.nil_append, String.intercalate_singleton] using hback
  | cons s'' front ih =>
    have hfront : ∀ rest : List String, rest ≠ [] →
        sep.intercalate (s'' :: front ++ rest) = s'' ++ sep ++ sep.intercalate (front ++ rest) := by
      intro rest hrest
      exact String.intercalate_cons_of_ne_nil (by simp [hrest])
    rw [hfront _ (by simp), hfront _ (by simp), String.append_assoc, ih]

/-- For every target the text is made of the same segments, with `k` fail expressions between them. -/
def Joined (k : Nat) (text : Target → String) : Prop :=
  ∃ segments : List String, segments.length = k + 1 ∧ ∀ t, text t = t.failCode.intercalate segments

namespace Joined
variable {k l : Nat} {text text' : Target → String}

theorem fixed (s : String) : Joined 0 fun _ => s :=
  ⟨[s], rfl, fun _ => by rw [String.intercalate_singleton]⟩

theorem failCode : Joined 1 Target.failCode :=
  ⟨["", ""], rfl, fun t => by simp⟩

theorem append (h : Joined k text) (h' : Joined l text') : Joined (k + l) fun t => text t ++ text' t := by
  obtain ⟨segments, hlen, htext⟩ := h
  obtain ⟨segments', hlen', htext'⟩ := h'
  obtain ⟨front, s, rfl⟩ : ∃ front s, segments = front ++ [s] :=
    ⟨_, _, (List.dropLast_concat_getLast (List.ne_nil_of_length_eq_add_one hlen)).symm⟩
  obtain ⟨s', back, rfl⟩ := List.exists_cons_of_length_eq_add_one hlen'
  refine ⟨front ++ (s ++ s') :: back, ?_, fun t => ?_⟩
  · simp only [List.length_append, List.length_cons, List.length_nil] at hlen hlen' ⊢
    omega
  · simp only [htext, htext', Text.intercalate_append]

theorem append_fixed (h : Joined k text) (s : String) : Joined k fun t => text t ++ s :=
  h.append (fixed s)

theorem fixed_append (s : String) (h : Joined k text) : Joined k fun t => s ++ text t := by
  have hjoined := (fixed s).append h
  rwa [Nat.zero_add] at hjoined

/-- A name is filled into each segment by itself, because no hole reaches into a fail expression. -/
theorem fill (h : Joined k text) (value : String) :
    Joined k fun t => Text.fill DecisionTree.query value (text t) := by
  obtain ⟨segments, hlen, htext⟩ := h
  refine ⟨segments.map (Text.fill DecisionTree.query value), by simpa using hlen, fun t => ?_⟩
  have hfixed : Text.fill DecisionTree.query value t.failCode = t.failCode :=
    Text.fill_of_notMem (by cases t <;> decide) value
  have hbegins : Text.Begins t.failCode := by cases t <;> decide
  have hends : Text.Ends t.failCode := by cases t <;> decide
  simp only [htext]
  clear hlen htext
  induction segments with
  | nil => rfl
  | cons s rest ih =>
    cases rest with
    | nil => simp
    | cons s' rest =>
      rw [String.intercalate_cons_cons, Text.fill_append (.inl (hends.append s)),
        Text.fill_append (.inr hbegins), hfixed, ih]
      simp

end Joined

/-- For every target the lines are made of the same segments, with `k` fail expressions between them. -/
inductive JoinedLines : Nat → (Target → List String) → Prop
  | nil : JoinedLines 0 fun _ => []
  | cons {k l : Nat} {line : Target → String} {lines : Target → List String} (h : Joined k line)
    (hlines : JoinedLines l lines) : JoinedLines (k + l) fun t => line t :: lines t

namespace JoinedLines
variable {k l : Nat} {line : Target → String} {lines lines' : Target → List String}

theorem single (h : Joined k line) : JoinedLines k fun t => [line t] := .cons h .nil

theorem fixed_cons (s : String) (h : JoinedLines k lines) : JoinedLines k fun t => s :: lines t := by
  have hlines := cons (.fixed s) h
  rwa [Nat.zero_add] at hlines

theorem fixed (ls : List String) : JoinedLines 0 fun _ => ls := by
  induction ls with
  | nil => exact .nil
  | cons s ls ih => exact ih.fixed_cons s

theorem append (h : JoinedLines k lines) (h' : JoinedLines l lines') :
    JoinedLines (k + l) fun t => lines t ++ lines' t := by
  induction h with
  | nil => simpa using h'
  | cons hline _ ih =>
    rw [Nat.add_assoc]
    exact .cons hline ih

theorem map_append (s : String) (h : JoinedLines k lines) :
    JoinedLines k fun t => (lines t).map (s ++ ·) := by
  induction h with
  | nil => exact .nil
  | cons hline _ ih => exact .cons (hline.fixed_append s) ih

theorem intercalate (h : JoinedLines k lines) : Joined k fun t => "\n".intercalate (lines t) := by
  induction h with
  | nil => exact .fixed ""
  | @cons k l line lines hline hlines ih =>
    cases hlines with
    | nil => simpa using hline
    | cons _ _ =>
      simp only [String.intercalate_cons_cons] at ih ⊢
      exact (hline.append_fixed "\n").append ih

end JoinedLines

/-! ## The same error or joined results -/

/-- The computation fails for all targets with the same error, or it succeeds for all of them and the
results have the property `P`. -/
def Agree {ε α : Type} (P : (Target → α) → Prop) (f : Target → Except ε α) : Prop :=
  (∃ e, ∀ t, f t = .error e) ∨ ∃ a, P a ∧ ∀ t, f t = .ok (a t)

namespace Agree
variable {ε α β : Type} {P : (Target → α) → Prop} {Q : (Target → β) → Prop}
  {f : Target → Except ε α} {g : Target → α → Except ε β}

theorem error (e : ε) : Agree P fun _ => (.error e : Except ε α) := .inl ⟨e, fun _ => rfl⟩

theorem bind (hf : Agree P f) (hg : ∀ a, P a → Agree Q fun t => g t (a t)) :
    Agree Q fun t => f t >>= g t := by
  rcases hf with ⟨e, he⟩ | ⟨a, ha, hok⟩
  · exact .inl ⟨e, fun t => by simp only [he]; rfl⟩
  · have hbind : (fun t => f t >>= g t) = fun t => g t (a t) := funext fun t => by rw [hok]; rfl
    rw [hbind]
    exact hg a ha

theorem const_bind (x : Except ε α) (h : ∀ a, x = .ok a → Agree Q fun t => g t a) :
    Agree Q fun t => x >>= g t := by
  cases x with
  | error e => exact .error e
  | ok a => exact h a rfl

end Agree

/-! ## The number of fail expressions -/

namespace Binning

/-- The fail expressions in the two guards of a binning with `n` edges. -/
def guardJoints (n : Nat) (bins : List Nat) : Flow Nat → Nat
  | .clamp => bins.getD 0 0 + bins.getD (n - 2) 0
  | .error => 1 + bins.getD (n - 2) 0
  | .value k => 2 * k

/-- The fail expressions in the code of a binning with `n` edges, from those of its parts. -/
def joints (n : Nat) (bins : List Nat) (flow : Flow Nat) : Nat :=
  ((List.range (n - 1)).map (bins.getD · 0)).sum + guardJoints n bins flow

end Binning

mutual

/-- The number of fail expressions in the code of a content. -/
def Content.joints : Content → Nat
  | .binning _ edges bins flow =>
    Binning.joints edges.size (Content.binJoints bins) (Content.flowJoints flow)
  | .datum _ | .category _ _ _ | .unsupported _ => 0

def Content.binJoints : List Content → List Nat
  | [] => []
  | c :: rest => c.joints :: Content.binJoints rest

def Content.flowJoints : Flow Content → Flow Nat
  | .clamp => .clamp
  | .error => .error
  | .value c => .value c.joints

end

theorem Content.binJoints_eq_map (bins : List Content) :
    Content.binJoints bins = bins.map Content.joints := by
  induction bins with
  | nil => rfl
  | cons c rest ih => simp [Content.binJoints, ih]

/-- The code of a content is the same segments for every target, or cannot be generated for any. -/
abbrev Content.CodeJoined (c : Content) : Prop := Agree (Joined c.joints) fun t => c.compile t

/-! ## The code of a binning -/

namespace DecisionTree
variable {q : String} {code : Target → Nat → String} {h : Nat → Nat}

theorem joined_binLine (q : String) {bin : Nat} (hcode : Joined (h bin) fun t => code t bin) :
    Joined (h bin) fun t => binLine q (code t) bin := by
  have hfront := ((hcode.append_fixed "; // ").append_fixed (edgeAt bin)).append_fixed " <= "
  exact ((hfront.append_fixed q).append_fixed " < ").append_fixed (edgeAt (bin + 1))

/-- The entries of a tree hold the code of each of its bins once. -/
theorem joined_entries (q : String) (depth : Nat) (t : DecisionTree)
    (hcode : ∀ bin ∈ t.leaves, Joined (h bin) fun target => code target bin) :
    JoinedLines (t.leaves.map h).sum fun target => t.entries q (code target) depth := by
  induction depth, t using entries.induct with
  | case1 depth bin =>
    have hline := joined_binLine q (hcode bin (by simp [leaves]))
    simpa [leaves, entries] using JoinedLines.single (hline.fixed_append (blanks (4 * depth) ++ " "))
  | case2 depth edge first second =>
    have hfirst := joined_binLine q (hcode first (by simp [leaves]))
    have hsecond := joined_binLine q (hcode second (by simp [leaves]))
    have hlines := (((JoinedLines.single
      (hsecond.fixed_append (blanks (4 * (depth + 1)) ++ " "))).append
      (.fixed [blanks (4 * depth) ++ "\x7d"])).fixed_cons (blanks (4 * depth) ++ elseLine))
    have hall := (JoinedLines.cons (hfirst.fixed_append (blanks (4 * (depth + 1)))) hlines).fixed_cons
      (blanks (4 * depth) ++ ifLine q edge)
    simpa [leaves, entries] using hall
  | case3 depth edge below above hleaves ihbelow ihabove =>
    have hbelow := ihbelow fun bin hbin => hcode bin (by simp [leaves, hbin])
    have habove := ihabove fun bin hbin => hcode bin (by simp [leaves, hbin])
    have hentries : ∀ target, entries q (code target) depth (.node edge below above) =
        (blanks (4 * depth) ++ ifLine q edge) :: entries q (code target) (depth + 1) below ++
          (blanks (4 * depth) ++ elseLine) :: entries q (code target) (depth + 1) above ++
          [blanks (4 * depth) ++ "\x7d"] := by
      intro target
      rw [entries]
      exact hleaves
    simp only [hentries, leaves, List.map_append, List.sum_append]
    exact ((hbelow.fixed_cons _).append (habove.fixed_cons _)).append (.fixed _)

end DecisionTree

namespace Binning
variable {bins : List Content} {flow : Flow Content} {n i : Nat}

theorem agree_binAt (hbins : ∀ c ∈ bins, c.CodeJoined) (i : Nat) :
    Agree (Joined ((Content.binJoints bins).getD i 0)) fun t =>
      binAt (Content.compileBins t bins) i := by
  simp only [Content.compileBins_eq_map, Content.binJoints_eq_map, binAt, List.getElem?_map,
    List.getD_eq_getElem?_getD]
  cases hi : bins[i]? with
  | none => exact .error CompileError.missingBin
  | some c => exact hbins c (List.mem_of_getElem? hi)

theorem agree_lastBin (hbins : ∀ c ∈ bins, c.CodeJoined) (n : Nat) :
    ∃ k, Agree (Joined k) (fun t => lastBin (Content.compileBins t bins) n) ∧
      (2 ≤ n → k = (Content.binJoints bins).getD (n - 2) 0) := by
  unfold lastBin
  by_cases hn : n ≤ 1
  · simp only [if_pos hn, Content.compileBins_eq_map, List.length_map]
    simp only [← Content.compileBins_eq_map]
    exact ⟨_, agree_binAt hbins (bins.length - 1), fun h => by omega⟩
  · simp only [if_neg hn]
    exact ⟨_, agree_binAt hbins (n - 2), fun _ => rfl⟩

/-- The two guards together. A single edge has guards as well, although no code comes of them. -/
theorem agree_guards (q : String) (hbins : ∀ c ∈ bins, c.CodeJoined)
    (hflow : ∀ c, flow = .value c → c.CodeJoined) (n : Nat) :
    ∃ k l, Agree (fun g => Joined k (fun t => (g t).below) ∧ Joined l fun t => (g t).above)
        (fun t => guards q t n (Content.compileBins t bins) (Content.compileFlow t flow)) ∧
      (2 ≤ n → k + l = guardJoints n (Content.binJoints bins) (Content.flowJoints flow)) := by
  obtain ⟨last, hlast, hlen⟩ := agree_lastBin hbins n
  cases flow with
  | clamp =>
    refine ⟨_, last, (agree_binAt hbins 0).bind fun below hbelow => hlast.bind fun above habove => ?_,
      fun hn => by rw [hlen hn]; rfl⟩
    exact .inr ⟨fun t => ⟨below t, above t⟩, ⟨hbelow, habove⟩, fun _ => rfl⟩
  | error =>
    refine ⟨1, last, hlast.bind fun above habove => ?_, fun hn => by rw [hlen hn]; rfl⟩
    exact .inr ⟨fun t => ⟨outOfBounds q t, above t⟩, ⟨Joined.failCode.fixed_append _, habove⟩, fun _ => rfl⟩
  | value c =>
    refine ⟨c.joints, c.joints, (hflow c rfl).bind fun code hcode => ?_, fun _ => (Nat.two_mul _).symm⟩
    exact .inr ⟨fun t => ⟨code t, code t⟩, ⟨hcode, hcode⟩, fun _ => rfl⟩

theorem agree_firstBins (hbins : ∀ c ∈ bins, c.CodeJoined) (n : Nat) :
    Agree (fun codes => (∀ t, (codes t).length = n) ∧
        ∀ i < n, Joined ((Content.binJoints bins).getD i 0) fun t => (codes t).getD i "")
      fun t => firstBins (Content.compileBins t bins) n := by
  induction n with
  | zero => exact .inr ⟨fun _ => [], ⟨fun _ => rfl, fun i hi => absurd hi (Nat.not_lt_zero i)⟩, fun _ => rfl⟩
  | succ n ih =>
    simp only [firstBins_succ]
    refine ih.bind fun codes hcodes => (agree_binAt hbins n).bind fun code hcode => ?_
    refine .inr ⟨fun t => codes t ++ [code t], ⟨fun t => by simp [hcodes.1 t], fun i hi => ?_⟩,
      fun _ => rfl⟩
    rcases Nat.lt_succ_iff_lt_or_eq.1 hi with hlt | rfl
    · have hget : ∀ t, (codes t ++ [code t]).getD i "" = (codes t).getD i "" := fun t =>
        List.getD_append _ _ _ _ (by rw [hcodes.1 t]; exact hlt)
      simp only [hget]
      exact hcodes.2 i hlt
    · have hget : ∀ t, (codes t ++ [code t]).getD i "" = code t := fun t => by
        rw [List.getD_append_right _ _ _ _ (Nat.le_of_eq (hcodes.1 t)), hcodes.1 t, Nat.sub_self]
        rfl
      simp only [hget]
      exact hcode

theorem joined_guardLines (q : String) (n : Nat) {k l : Nat} {g : Target → Guards}
    (hbelow : Joined k fun t => (g t).below) (habove : Joined l fun t => (g t).above) :
    JoinedLines (k + l) fun t => guardLines q n (g t) := by
  have hguard : ∀ {k : Nat} {code : Target → String}, Joined k code →
      Joined k fun t => "        " ++ code t ++ ";" := fun h => (h.fixed_append _).append_fixed _
  have hlast := (JoinedLines.cons (hguard habove) (.fixed ["    \x7d"])).fixed_cons
    ("    if (" ++ q ++ " >= " ++ DecisionTree.edgeAt (n - 1) ++ ") \x7b")
  exact ((JoinedLines.cons (hguard hbelow) (hlast.fixed_cons "    \x7d")).fixed_cons _).fixed_cons _

theorem joined_searchLines (q : String) {h : Nat → Nat} {codes : Target → List String} (hn : 1 ≤ n)
    (hlen : ∀ t, (codes t).length = n) (hcodes : ∀ i < n, Joined (h i) fun t => (codes t).getD i "") :
    JoinedLines ((List.range n).map h).sum fun t => searchLines q (codes t) := by
  have hleaves : (DecisionTree.build 0 n).leaves = List.range n := by
    rw [DecisionTree.leaves_build hn, List.range_eq_range']
  have hentries : JoinedLines ((DecisionTree.build 0 n).leaves.map h).sum fun t =>
      (DecisionTree.build 0 n).entries q ((codes t).getD · "") 0 :=
    DecisionTree.joined_entries q 0 _ fun i hi => hcodes i (by simpa [hleaves] using hi)
  rw [hleaves] at hentries
  simp only [searchLines, hlen]
  have hlines := (hentries.map_append "    ").fixed_cons
    "    // Binary search implemented as a balanced decision tree with if/else statements"
  exact hlines.fixed_cons ""

/-- **The code of a binning is joined if the codes of its parts are.** -/
theorem agree_assemble (input : String) (edges : Edges) (hbins : ∀ c ∈ bins, c.CodeJoined)
    (hflow : ∀ c, flow = .value c → c.CodeJoined) :
    (Content.binning input edges bins flow).CodeJoined := by
  simp only [Content.CodeJoined, Content.compile, Content.joints, assemble]
  refine .const_bind _ fun es hread => ?_
  rw [Edges.size_of_read hread]
  split
  · exact .error (CompileError.edgeCount 0 0)
  next hempty =>
  refine .const_bind _ fun _ _ => ?_
  obtain ⟨k, l, hguards, hcount⟩ := agree_guards DecisionTree.query hbins hflow es.length
  refine hguards.bind fun g hg => ?_
  obtain ⟨hbelow, habove⟩ := hg
  split
  · exact .error CompileError.endlessSplit
  next hone =>
  refine (agree_firstBins hbins _).bind fun codes hfirst => ?_
  obtain ⟨hlen, hcodes⟩ := hfirst
  have hsize : 2 ≤ es.length := by
    have hpos : 0 < es.length := List.length_pos_iff.2 (by simpa using hempty)
    omega
  have hlines := ((JoinedLines.fixed (arrayLines es)).append
    (joined_guardLines DecisionTree.query es.length hbelow habove)).append
    (joined_searchLines DecisionTree.query (by omega) hlen hcodes)
  have htotal : 0 + (k + l) + ((List.range (es.length - 1)).map
      ((Content.binJoints bins).getD · 0)).sum =
      joints es.length (Content.binJoints bins) (Content.flowJoints flow) := by
    rw [joints, ← hcount hsize]
    omega
  rw [htotal] at hlines
  exact .inr ⟨_, hlines.intercalate.fill input, fun _ => rfl⟩

end Binning

/-! ## Contents and headers -/

theorem Content.codeJoined (c : Content) : c.CodeJoined := by
  induction c using Content.induction with
  | constant x => exact .inr ⟨_, .fixed _, fun _ => rfl⟩
  | datum d hd =>
    simp only [Content.CodeJoined, Content.compile_datum _ hd]
    exact .error CompileError.unknownContent
  | binning input edges bins flow ihbins ihflow => exact Binning.agree_assemble input edges ihbins ihflow
  | category input items fallback => exact .inr ⟨_, .fixed _, fun _ => rfl⟩
  | unsupported kind => exact .error (CompileError.unsupported kind)

namespace Builder

/-- The number of fail expressions in a header: those of the content, one for each parameter that is
checked, and the last one. -/
def joints (b : Builder) : Nat :=
  b.content.joints + b.params.values.countP (!·.isString) + 1

theorem joined_validationText (b : Builder) (v : Variable) :
    Joined (if v.isString then 0 else 1) fun t => { b with target := t }.validationText v := by
  unfold validationText
  cases v.isString with
  | true => exact .fixed ""
  | false => exact ((Joined.failCode.fixed_append _).append_fixed _).append_fixed _

theorem joined_validation (b : Builder) :
    Joined (b.params.values.countP (!·.isString)) fun t => { b with target := t }.validation := by
  have hvalues : ∀ vs : List Variable, Joined (vs.countP (!·.isString)) fun t =>
      String.join (vs.map { b with target := t }.validationText) := by
    intro vs
    induction vs with
    | nil => exact .fixed ""
    | cons v vs ih =>
      have hjoined := (joined_validationText b v).append ih
      simp only [List.map_cons, String.join_cons, List.countP_cons]
      cases hv : v.isString with
      | true => simpa [hv] using hjoined
      | false => simpa [hv, Nat.add_comm] using hjoined
  exact hvalues b.params.values

theorem joined_headerText (b : Builder) {k : Nat} {code : Target → String} (h : Joined k code) :
    Joined (k + b.params.values.countP (!·.isString) + 1) fun t =>
      { b with target := t }.headerText (code t) := by
  have hbody := ((((joined_validation b).fixed_append "        ").append_fixed "\n").append_fixed
    "\n").append_fixed "        "
  have hcode := (((hbody.append h).append_fixed "\n").append_fixed "\n").append_fixed exhaustedLine
  have hend := ((hcode.append_fixed "        ").append Joined.failCode).append_fixed ";\n"
  have hall := (hend.fixed_append b.opening).append_fixed closing
  rw [Nat.add_comm k]
  exact hall

theorem agree_dump (b : Builder) : Agree (Joined b.joints) fun t => { b with target := t }.dump := by
  simp only [dump, body]
  split
  · exact .error Failure.noVariables
  split
  · exact .error Failure.noContent
  rcases b.content.codeJoined with ⟨e, he⟩ | ⟨code, hcode, hok⟩
  · exact .inl ⟨.compile e, fun t => by simp only [he]; rfl⟩
  · exact .inr ⟨_, joined_headerText b hcode, fun t => by simp only [hok]; rfl⟩

end Builder

/-- **The target changes nothing but the fail expression.** The code of a content cannot be generated for
any target, and for the same reason, or it is made of the same segments for every target, with the fail
expression of the target between them, `c.joints` times in all. So it is with the header of a builder. -/
theorem target_changes_failCode (c : Content) (b : Builder) :
    ((∃ e, ∀ t, c.compile t = .error e) ∨
      ∃ segments : List String, segments.length = c.joints + 1 ∧
        ∀ t : Target, c.compile t = .ok (t.failCode.intercalate segments)) ∧
    ((∃ e, ∀ t, { b with target := t }.dump = .error e) ∨
      ∃ segments : List String, segments.length = b.joints + 1 ∧
        ∀ t : Target, { b with target := t }.dump = .ok (t.failCode.intercalate segments)) := by
  have hsegments : ∀ {ε : Type} {k : Nat} {f : Target → Except ε String}, Agree (Joined k) f →
      (∃ e, ∀ t, f t = .error e) ∨ ∃ segments : List String, segments.length = k + 1 ∧
        ∀ t, f t = .ok (t.failCode.intercalate segments) := by
    rintro ε k f (herror | ⟨text, ⟨segments, hlen, htext⟩, hok⟩)
    · exact .inl herror
    · exact .inr ⟨segments, hlen, fun t => by rw [hok, htext]⟩
  exact ⟨hsegments c.codeJoined, hsegments b.agree_dump⟩

end Corrections
