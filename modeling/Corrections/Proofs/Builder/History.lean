/-
  What a sequence of steps leaves of a builder.

  * `Builder.after s b` is the builder after the step `s`. It does not depend on the world, and whether
    the step succeeds shows in it only (`perform_builder`).
  * `Step.target?`, `Step.description?`, `Step.content?` and `Step.declaration?` say what a step sets, if
    it sets anything. A declaration counts only with one of the three known types.
  * `Variable.Kept correction key v`: what holds of every parameter that is kept under `key`.
  * `performAll_state`: after any steps each part of the builder is what was set last, and the parameters
    stand in the order in which their names were first declared.
-/
import Corrections.Builder.Step
import Corrections.Proofs.Session
import Mathlib.Data.List.Basic
import Mathlib.Data.List.Induction
import Mathlib.Data.List.Nodup
import Mathlib.Tactic.Common

namespace Corrections

/-! ## What a step sets -/

/-- The types that a parameter can have. -/
def Declaration.types : List String := ["real", "string", "int"]

namespace Step

def target? : Step → Option Target
  | .setTarget name => Target.ofName? name
  | _ => none

def description? : Step → Option String
  | .setDescription (some d) => if d = "" then none else some d
  | _ => none

def content? : Step → Option Content
  | .setContent c => some c
  | _ => none

def declaration? : Step → Option Declaration
  | .addVariable d => if d.type ∈ Declaration.types then some d else none
  | _ => none

end Step

/-! ## Declarations -/

namespace Variable
variable {correction : String} {d : Declaration} {v : Variable}

/-- The three ways in which a declaration succeeds. -/
theorem declare_eq_ok_iff : declare correction d = .ok v ↔
    (d.type = "real" ∧
      v = ⟨d.name, .float, lowerBound d.min, upperBound d.max, givenValues d.values⟩) ∨
    (d.type = "string" ∧
      v = ⟨d.name, .enumeration (d.name ++ "_" ++ correction), d.min, d.max, givenValues d.values⟩) ∨
    (d.type = "int" ∧ v = ⟨d.name, .int, d.min, d.max, givenValues d.values⟩) := by
  unfold declare
  by_cases hreal : d.type = "real"
  · simp [hreal, eq_comm]
  by_cases hstring : d.type = "string"
  · simp [hstring, eq_comm]
  by_cases hint : d.type = "int"
  · simp [hint, eq_comm]
  · simp [hreal, hstring, hint]

theorem exists_declare_iff :
    (∃ v, declare correction d = .ok v) ↔ d.type ∈ Declaration.types := by
  simp only [declare_eq_ok_iff, Declaration.types, List.mem_cons, List.not_mem_nil, or_false]
  constructor
  · rintro ⟨v, ⟨h, -⟩ | ⟨h, -⟩ | ⟨h, -⟩⟩
    · exact .inl h
    · exact .inr (.inl h)
    · exact .inr (.inr h)
  · rintro (h | h | h)
    · exact ⟨_, .inl ⟨h, rfl⟩⟩
    · exact ⟨_, .inr (.inl ⟨h, rfl⟩)⟩
    · exact ⟨_, .inr (.inr ⟨h, rfl⟩)⟩

theorem name_of_declare (h : declare correction d = .ok v) : v.name = d.name := by
  rcases declare_eq_ok_iff.1 h with ⟨-, rfl⟩ | ⟨-, rfl⟩ | ⟨-, rfl⟩ <;> rfl

theorem lowerBound_ne (m : Datum) : lowerBound m ≠ .scalar (.real (.infinity true)) := by
  unfold lowerBound
  split
  · simp
  · next h => simpa using h

theorem upperBound_ne (m : Datum) : upperBound m ≠ .scalar (.real (.infinity false)) := by
  unfold upperBound
  split
  · simp
  · next h => simpa using h

theorem ne_nil_of_givenValues {given values : List Datum} (h : givenValues given = some values) :
    values ≠ [] := by
  unfold givenValues at h
  split at h
  · cases h
  · next hne =>
    cases h
    simpa using hne

theorem enumeration_ne_float (name correction : String) : name ++ "_" ++ correction ≠ "float" := by
  intro h
  have hmem : '_' ∈ (name ++ "_" ++ correction).toList := by simp
  rw [h] at hmem
  simp at hmem

/-- What holds of a parameter of `correction` that is kept under `key`. -/
structure Kept (correction key : String) (v : Variable) : Prop where
  name : v.name = key
  type : (v.isString = true ∧ v.type.code = key ++ "_" ++ correction) ∨
    (v.isString = false ∧ (v.type.code = "float" ∨ v.type.code = "int"))
  min : v.type.code = "float" → v.min ≠ .scalar (.real (.infinity true))
  max : v.type.code = "float" → v.max ≠ .scalar (.real (.infinity false))
  values : ∀ values, v.values = some values → values ≠ []

theorem kept_of_declare (h : declare correction d = .ok v) : v.Kept correction d.name := by
  rcases declare_eq_ok_iff.1 h with ⟨-, rfl⟩ | ⟨-, rfl⟩ | ⟨-, rfl⟩
  · exact ⟨rfl, .inr ⟨rfl, .inl rfl⟩, fun _ => lowerBound_ne _, fun _ => upperBound_ne _,
      fun _ => ne_nil_of_givenValues⟩
  · have hne := enumeration_ne_float d.name correction
    exact ⟨rfl, .inl ⟨rfl, rfl⟩, fun h => absurd h hne, fun h => absurd h hne,
      fun _ => ne_nil_of_givenValues⟩
  · have hne : VariableType.int.code ≠ "float" := by simp [VariableType.code]
    exact ⟨rfl, .inr ⟨rfl, .inr rfl⟩, fun h => absurd h hne, fun h => absurd h hne,
      fun _ => ne_nil_of_givenValues⟩

end Variable

namespace Builder

/-! ## One step -/

/-- The builder after a step. -/
def after (b : Builder) : Step → Builder
  | .setTarget name => { b with target := (Target.ofName? name).getD b.target }
  | .setDescription description => b.setDescription description
  | .addVariable d =>
    match Variable.declare b.name d with
    | .ok v => b.setVariable v
    | .error _ => b
  | .setContent c => b.setContent c
  | .enums | .validation | .body | .dump | .save _ _ => b

theorem addVariable_eq (b : Builder) (d : Declaration) (w : World) :
    b.addVariable d w =
      match Variable.declare b.name d with
      | .error e => .error e w
      | .ok v => .ok (b.setVariable v) (Session.printed w v.notices) := by
  unfold addVariable
  cases Variable.declare b.name d with
  | error e => rfl
  | ok v =>
    rw [Session.bind_of_ok (Session.ofExcept_ok _ _), Session.bind_of_ok (Session.forM_print _ _)]
    rfl

theorem perform_addVariable_of_ok {b : Builder} {d : Declaration} {v : Variable}
    (h : Variable.declare b.name d = .ok v) (w : World) :
    perform (.addVariable d) b w = (.ok .state, b.setVariable v, Session.printed w v.notices) := by
  have hadd := addVariable_eq b d w
  rw [h] at hadd
  have hstep := Session.bind_of_ok (f := fun b' => pure (Answer.state, b')) hadd
  simp [perform, step, hstep]

theorem perform_addVariable_of_error {b : Builder} {d : Declaration} {e : Failure}
    (h : Variable.declare b.name d = .error e) (w : World) :
    perform (.addVariable d) b w = (.error e, b, w) := by
  have hadd := addVariable_eq b d w
  rw [h] at hadd
  have hstep := Session.bind_of_error (f := fun b' => pure (Answer.state, b')) hadd
  simp [perform, step, hstep]

/-- A step after which the builder is the same, if it succeeds. -/
theorem perform_of_fixed {s : Step} {b : Builder} {w : World}
    (h : ∀ answer b' w', b.step s w = .ok (answer, b') w' → b' = b) : (perform s b w).2.1 = b := by
  unfold perform
  cases hs : b.step s w with
  | ok r w' => exact h r.1 r.2 w' hs
  | error e w' => rfl

/-- **A step does one thing to the builder,** whatever the world is like and whether or not the step
fails. -/
theorem perform_builder (s : Step) (b : Builder) (w : World) : (perform s b w).2.1 = b.after s := by
  cases s with
  | setTarget name =>
    cases h : Target.ofName? name with
    | some t => simp [perform, step, setTarget, Target.find, after, h, Except.map, bind, EStateM.bind]
    | none => simp [perform, step, setTarget, Target.find, after, h, Except.map, bind, EStateM.bind]
  | setDescription description => rfl
  | addVariable d =>
    cases h : Variable.declare b.name d with
    | ok v => simp [perform_addVariable_of_ok h, after, h]
    | error e => simp [perform_addVariable_of_error h, after, h]
  | setContent c => rfl
  | enums => rfl
  | validation => rfl
  | body =>
    refine perform_of_fixed fun answer b' w' h => ?_
    obtain ⟨text, w₁, -, ⟨⟩⟩ := Session.bind_eq_ok_iff.1 h
    rfl
  | dump =>
    refine perform_of_fixed fun answer b' w' h => ?_
    obtain ⟨text, w₁, -, ⟨⟩⟩ := Session.bind_eq_ok_iff.1 h
    rfl
  | save directory formatted =>
    refine perform_of_fixed fun answer b' w' h => ?_
    obtain ⟨_, w₁, -, ⟨⟩⟩ := Session.bind_eq_ok_iff.1 h
    rfl

/-- The builder after a sequence of steps. -/
theorem performAll_builder (steps : List Step) (b : Builder) (w : World) :
    (performAll steps b w).1 = steps.foldl after b := by
  induction steps generalizing b w with
  | nil => rfl
  | cons s rest ih => rw [performAll, ih, perform_builder, List.foldl_cons]

/-! ## The parts of the builder -/

/-- Each part but the parameters is what the step sets, or as it was. -/
theorem after_eq (b : Builder) (s : Step) :
    b.after s = ⟨b.name, s.target?.getD b.target, s.description?.getD b.description,
      (b.after s).params, s.content?.getD b.content⟩ := by
  cases s with
  | setDescription description =>
    cases description with
    | none => rfl
    | some d =>
      by_cases h : d = ""
      · simp [after, setDescription, h, Step.target?, Step.description?, Step.content?]
      · simp [after, setDescription, h, Step.target?, Step.description?, Step.content?]
  | addVariable d =>
    cases h : Variable.declare b.name d with
    | ok v => simp [after, h, setVariable, Step.target?, Step.description?, Step.content?]
    | error e => simp [after, h, Step.target?, Step.description?, Step.content?]
  | _ => rfl

section
variable {b : Builder} {s : Step}

theorem params_after_of_none (h : s.declaration? = none) : (b.after s).params = b.params := by
  cases s with
  | setDescription description =>
    cases description with
    | none => rfl
    | some d => by_cases hd : d = "" <;> simp [after, setDescription, hd]
  | addVariable d =>
    have htype : d.type ∉ Declaration.types := by simpa [Step.declaration?] using h
    cases hd : Variable.declare b.name d with
    | ok v => exact absurd (Variable.exists_declare_iff.1 ⟨v, hd⟩) htype
    | error e => simp [after, hd]
  | _ => rfl

theorem params_after_of_some {d : Declaration} (h : s.declaration? = some d) :
    ∃ v, Variable.declare b.name d = .ok v ∧ (b.after s).params = b.params.insert d.name v := by
  cases s with
  | addVariable d' =>
    obtain ⟨htype, rfl⟩ : d'.type ∈ Declaration.types ∧ d' = d := by
      simpa [Step.declaration?] using h
    obtain ⟨v, hv⟩ := (@Variable.exists_declare_iff b.name _).2 htype
    refine ⟨v, hv, ?_⟩
    simp [after, hv, setVariable, Variable.name_of_declare hv]
  | _ => simp [Step.declaration?] at h

end

/-! ## Whole sequences -/

/-- What is known of a builder that began as `new correction target` and went through steps. -/
structure Records (correction : String) (target : Target) (steps : List Step) (b : Builder) :
    Prop where
  name : b.name = correction
  target : b.target = (steps.filterMap Step.target?).getLastD target
  description : b.description = (steps.filterMap Step.description?).getLastD ""
  content : b.content = (steps.filterMap Step.content?).getLastD (.datum (.scalar .null))
  /-- The names stand in the order of their first declarations. -/
  keys : b.params.keys = ((steps.filterMap Step.declaration?).map Declaration.name).eraseDups
  /-- A name stands for the parameter of its last declaration. -/
  params : ∀ key v, b.params.get? key = some v ↔
    ∃ d, ((steps.filterMap Step.declaration?).filter (·.name = key)).getLast? = some d ∧
      Variable.declare correction d = .ok v
  kept : ∀ e ∈ b.params.entries, e.2.Kept correction e.1

variable {correction : String} {target : Target} {steps : List Step} {b : Builder}

theorem records_new (correction : String) (target : Target) :
    Records correction target [] (new correction target) := by
  refine ⟨rfl, rfl, rfl, rfl, rfl, fun key v => ?_, fun e he => ?_⟩
  · simp [new, Table.get?, Table.find?, Table.empty]
  · simp [new, Table.empty] at he

/-- The last thing that was set, after one more step. -/
theorem getLastD_filterMap_concat {α : Type} (f : Step → Option α) (steps : List Step) (s : Step)
    (a : α) :
    ((steps ++ [s]).filterMap f).getLastD a = (f s).getD ((steps.filterMap f).getLastD a) := by
  cases h : f s with
  | none => simp [List.filterMap_append, h]
  | some x => simp [List.filterMap_append, h]

theorem eraseDups_concat (names : List String) (name : String) :
    (names ++ [name]).eraseDups =
      if name ∈ names then names.eraseDups else names.eraseDups ++ [name] := by
  rw [List.eraseDups_append]
  by_cases h : name ∈ names
  · simp [List.removeAll, h]
  · simp [List.removeAll, h, List.eraseDups_cons]

theorem nodup_eraseDups (names : List String) : names.eraseDups.Nodup := by
  induction names using List.reverseRecOn with
  | nil => exact List.nodup_nil
  | append_singleton names name ih =>
    rw [eraseDups_concat]
    split
    · exact ih
    · next h =>
      refine List.nodup_append.2 ⟨ih, List.nodup_singleton _, ?_⟩
      rintro a ha b hb rfl
      exact h (List.mem_singleton.1 hb ▸ List.mem_eraseDups.1 ha)

theorem Records.keys_after (h : Records correction target steps b) (s : Step) :
    (b.after s).params.keys =
      (((steps ++ [s]).filterMap Step.declaration?).map Declaration.name).eraseDups := by
  cases hs : s.declaration? with
  | none => rw [params_after_of_none hs, h.keys]; simp [List.filterMap_append, hs]
  | some d =>
    obtain ⟨v, -, hparams⟩ := @params_after_of_some b s d hs
    have hsteps : (steps ++ [s]).filterMap Step.declaration? =
        steps.filterMap Step.declaration? ++ [d] := by
      simp [List.filterMap_append, hs]
    rw [hparams, Table.keys_insert, h.keys, hsteps, List.map_append, List.map_singleton,
      eraseDups_concat]
    exact if_congr List.mem_eraseDups rfl rfl

theorem Records.params_after (h : Records correction target steps b) (s : Step) (key : String)
    (v : Variable) : (b.after s).params.get? key = some v ↔
      ∃ d, (((steps ++ [s]).filterMap Step.declaration?).filter (·.name = key)).getLast? = some d ∧
        Variable.declare correction d = .ok v := by
  cases hs : s.declaration? with
  | none => rw [params_after_of_none hs, h.params]; simp [List.filterMap_append, hs]
  | some d =>
    obtain ⟨u, hu, hparams⟩ := @params_after_of_some b s d hs
    rw [h.name] at hu
    rw [hparams, Table.get?_insert]
    by_cases hkey : d.name = key
    · simp [List.filterMap_append, List.filter_append, hs, hkey, hu]
    · simp [List.filterMap_append, List.filter_append, hs, hkey, h.params]

theorem Records.kept_after (h : Records correction target steps b) (s : Step) :
    ∀ e ∈ (b.after s).params.entries, e.2.Kept correction e.1 := by
  intro e he
  cases hs : s.declaration? with
  | none =>
    rw [params_after_of_none hs] at he
    exact h.kept e he
  | some d =>
    obtain ⟨v, hv, hparams⟩ := @params_after_of_some b s d hs
    rw [hparams] at he
    rcases Table.mem_insert he with rfl | he
    · exact Variable.kept_of_declare (h.name ▸ hv)
    · exact h.kept e he

/-- One more step is recorded. -/
theorem Records.after (h : Records correction target steps b) (s : Step) :
    Records correction target (steps ++ [s]) (b.after s) := by
  have hafter := after_eq b s
  refine ⟨?_, ?_, ?_, ?_, h.keys_after s, h.params_after s, h.kept_after s⟩
  · rw [hafter, h.name]
  · rw [hafter, h.target, getLastD_filterMap_concat]
  · rw [hafter, h.description, getLastD_filterMap_concat]
  · rw [hafter, h.content, getLastD_filterMap_concat]

/-- Whole sequences are recorded. -/
theorem Records.foldl (h : Records correction target steps b) (more : List Step) :
    Records correction target (steps ++ more) (more.foldl Builder.after b) := by
  induction more generalizing steps b with
  | nil => simpa using h
  | cons s rest ih => simpa using ih (h.after s)

theorem records_performAll (correction : String) (target : Target) (steps : List Step) (w : World) :
    Records correction target steps (performAll steps (new correction target) w).1 := by
  rw [performAll_builder]
  exact (records_new correction target).foldl steps

end Builder

/-- **What a sequence of steps leaves of a builder.** Each part is what was set last, and the parameters
stand under the names that were declared, in the order of their first declarations. A declaration fails
exactly when its type is none of the three, and then nothing changes. -/
theorem performAll_state (correction : String) (target : Target) (steps : List Step) (w : World) :
    Builder.Records correction target steps
        (Builder.performAll steps (Builder.new correction target) w).1 ∧
      ∀ (b : Builder) (d : Declaration) (w : World),
        ((∃ e, (Builder.perform (.addVariable d) b w).1 = .error e) ↔
          d.type ∉ ["real", "string", "int"]) ∧
        ∀ e, (Builder.perform (.addVariable d) b w).1 = .error e →
          (Builder.perform (.addVariable d) b w).2 = (b, w) := by
  refine ⟨Builder.records_performAll correction target steps w, fun b d w => ?_⟩
  have htypes := @Variable.exists_declare_iff b.name d
  cases h : Variable.declare b.name d with
  | ok v =>
    rw [Builder.perform_addVariable_of_ok h]
    have htype : d.type ∈ ["real", "string", "int"] := htypes.1 ⟨v, h⟩
    simp [htype]
  | error e =>
    rw [Builder.perform_addVariable_of_error h]
    have htype : d.type ∉ ["real", "string", "int"] := fun hmem => by
      obtain ⟨v, hv⟩ := htypes.2 hmem
      rw [h] at hv
      cases hv
    simp [htype]

end Corrections
