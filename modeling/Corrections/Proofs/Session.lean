/-
  Computations in the world, step by step.

  * `bind_of_ok`, `bind_of_error` and `bind_eq_ok_iff`: a sequence goes on exactly when its first part
    succeeds.
  * `printed w lines` is the world after lines were printed.
  * `after`: the world that a computation leaves, whether or not it succeeds.
  * `KeepsSetting`: a computation after which the formatter and the working directory are still the same.
-/
import Corrections.World

namespace Corrections.Session
variable {α β : Type}

@[simp]
theorem pure_apply (a : α) (w : World) : (pure a : Session α) w = .ok a w := rfl

theorem bind_of_ok {m : Session α} {f : α → Session β} {w w' : World} {a : α} (h : m w = .ok a w') :
    (m >>= f) w = f a w' := by
  simp [bind, EStateM.bind, h]

theorem bind_of_error {m : Session α} {f : α → Session β} {w w' : World} {e : Failure}
    (h : m w = .error e w') : (m >>= f) w = .error e w' := by
  simp [bind, EStateM.bind, h]

/-- A sequence succeeds exactly when both parts do. -/
theorem bind_eq_ok_iff {m : Session α} {f : α → Session β} {w w'' : World} {b : β} :
    (m >>= f) w = .ok b w'' ↔ ∃ a w', m w = .ok a w' ∧ f a w' = .ok b w'' := by
  cases hm : m w with
  | ok a w' =>
    rw [bind_of_ok hm]
    constructor
    · intro hf
      exact ⟨a, w', rfl, hf⟩
    · rintro ⟨_, _, ⟨⟩, hf⟩
      exact hf
  | error e w' => simp [bind_of_error hm]

/-- The computation succeeds. -/
def succeeds (m : Session Unit) (w : World) : Bool :=
  match m w with
  | .ok _ _ => true
  | .error _ _ => false

theorem succeeds_iff {m : Session Unit} {w : World} :
    m.succeeds w = true ↔ ∃ w', m w = .ok () w' := by
  unfold succeeds
  cases m w with
  | ok a w' => simp
  | error e w' => simp

theorem succeeds_eq_false_iff {m : Session Unit} {w : World} :
    m.succeeds w = false ↔ ∃ e w', m w = .error e w' := by
  unfold succeeds
  cases m w with
  | ok a w' => simp
  | error e w' => simp

/-- The world at the end of a computation. -/
def finalWorld : EStateM.Result Failure World α → World
  | .ok _ w => w
  | .error _ w => w

/-- The world that a computation leaves, whether or not it succeeds. -/
def after (m : Session α) (w : World) : World := finalWorld (m w)

theorem after_of_ok {m : Session α} {w w' : World} {a : α} (h : m w = .ok a w') : m.after w = w' := by
  rw [after, h]
  rfl

theorem after_of_error {m : Session α} {w w' : World} {e : Failure} (h : m w = .error e w') :
    m.after w = w' := by
  rw [after, h]
  rfl

@[simp]
theorem ofExcept_ok (a : α) (w : World) : ofExcept (.ok a) w = .ok a w := rfl

@[simp]
theorem ofExcept_error (e : Failure) (w : World) :
    (ofExcept (.error e) : Session α) w = .error e w := rfl

@[simp]
theorem get_eq (w : World) : (get : Session World) w = .ok w w := rfl

@[simp]
theorem format_eq (text : String) (w : World) :
    format text w = .ok () { w with formatted := w.formatted ++ [text] } := rfl

theorem makeDirectories_bind (path : String) (f : Unit → Session β) (w : World) :
    (makeDirectories path >>= f) w =
      match w.workspace.makeDirectories path with
      | (.error e, ws) => .error (.file e) { w with workspace := ws }
      | (.ok (), ws) => f () { w with workspace := ws } := by
  simp only [Bind.bind, EStateM.bind, makeDirectories]
  rcases w.workspace.makeDirectories path with ⟨_ | _, ws⟩ <;> rfl

theorem openFile_bind (path : String) (f : Place → Session β) (w : World) :
    (openFile path >>= f) w =
      match w.workspace.openFile path with
      | .error e => .error (.file e) w
      | .ok (p, ws) => f p { w with workspace := ws } := by
  simp only [Bind.bind, EStateM.bind, openFile]
  cases w.workspace.openFile path <;> rfl

/-- The world after lines were printed. -/
def printed (w : World) (lines : List String) : World :=
  { w with out := lines.foldl (fun out line => out ++ line ++ "\n") w.out }

@[simp]
theorem printed_workspace (w : World) (lines : List String) :
    (printed w lines).workspace = w.workspace := rfl

@[simp]
theorem printed_formatter (w : World) (lines : List String) :
    (printed w lines).formatter = w.formatter := rfl

@[simp]
theorem printed_formatted (w : World) (lines : List String) :
    (printed w lines).formatted = w.formatted := rfl

theorem print_eq (line : String) (w : World) : print line w = .ok () (printed w [line]) := rfl

theorem printed_printed (w : World) (lines lines' : List String) :
    printed (printed w lines) lines' = printed w (lines ++ lines') := by
  simp [printed]

theorem forM_print (lines : List String) (w : World) :
    lines.forM print w = .ok () (printed w lines) := by
  induction lines generalizing w with
  | nil => rfl
  | cons line rest ih => exact ih _

/-- The formatter and the working directory are still the same afterwards. -/
structure KeepsSetting (m : Session α) : Prop where
  formatter : ∀ w, (m.after w).formatter = w.formatter
  home : ∀ w, (m.after w).workspace.home = w.workspace.home

namespace KeepsSetting
variable {m : Session α} {w w' : World}

theorem of_ok (hm : KeepsSetting m) {a : α} (h : m w = .ok a w') :
    w'.formatter = w.formatter ∧ w'.workspace.home = w.workspace.home := by
  rw [← after_of_ok h]
  exact ⟨hm.formatter w, hm.home w⟩

theorem of_error (hm : KeepsSetting m) {e : Failure} (h : m w = .error e w') :
    w'.formatter = w.formatter ∧ w'.workspace.home = w.workspace.home := by
  rw [← after_of_error h]
  exact ⟨hm.formatter w, hm.home w⟩

theorem bind {f : α → Session β} (hm : KeepsSetting m) (hf : ∀ a, KeepsSetting (f a)) :
    KeepsSetting (m >>= f) := by
  constructor
  · intro w
    rw [← hm.formatter w]
    cases h : m w with
    | ok a w' => rw [after_of_ok h, after, bind_of_ok h, ← after, (hf a).formatter]
    | error e w' => rw [after_of_error h, after_of_error (bind_of_error h)]
  · intro w
    rw [← hm.home w]
    cases h : m w with
    | ok a w' => rw [after_of_ok h, after, bind_of_ok h, ← after, (hf a).home]
    | error e w' => rw [after_of_error h, after_of_error (bind_of_error h)]

end KeepsSetting

end Corrections.Session
