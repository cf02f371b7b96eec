/-
  The execution of generated code.

  * `Run` is what happens in an execution: the elements of arrays that are looked at, the texts that
    are printed, and how it ends. It goes on, or it halts in a `return`, in a call that stops the
    program, or in something that has no meaning.
  * An array is visible from its declaration to the end of the block, and hides an earlier one of the
    same name. A constant denotes the number it is the text of.
  * `execute names text` runs the statements of a text, where `names` gives the values of the variables
    and of the named constants.
  * `Gives` and `Ends` say how a run goes when every element is inside of its array.
-/
import Corrections.Binary64.Reading
import Corrections.Proofs.Binary64.Order
import Corrections.Proofs.Code.Statement

namespace Corrections

def Binary64.neg : Binary64 → Binary64
  | .nan => .nan
  | .infinity negative => .infinity (!negative)
  | .finite negative rank => .finite (!negative) rank

namespace Code

/-- An element of an array that is looked at. -/
structure Access where
  index : Nat
  size : Nat
  initialisers : Nat
  deriving DecidableEq

/-- The element is there, and every element of the array was given. -/
def Access.InBounds (a : Access) : Prop := a.index < a.size ∧ a.initialisers = a.size

inductive Event where
  | read (a : Access)
  | print (s : String)
  deriving DecidableEq

/-- The end of an execution. -/
inductive Halt where
  | returned (x : Binary64)
  | stopped (c : Call)
  | undefined
  deriving DecidableEq

/-- What happens, and how it ends if it does not go on. -/
structure Run (α : Type) where
  events : List Event
  result : Except Halt α

namespace Run
variable {α β : Type}

def halt (h : Halt) : Run α := ⟨[], .error h⟩

def bind (r : Run α) (f : α → Run β) : Run β :=
  match r.result with
  | .ok a => ⟨r.events ++ (f a).events, (f a).result⟩
  | .error h => ⟨r.events, .error h⟩

instance : Monad Run where
  pure a := ⟨[], .ok a⟩
  bind := bind

/-- A value, or something that has no meaning. -/
def ofOption : Option α → Run α
  | some a => pure a
  | none => halt .undefined

end Run

/-- The value of an array. -/
structure Elements where
  size : Nat
  values : List Binary64

/-- The arrays that are visible, the last one first. -/
abbrev Scope : Type := List (String × Elements)

/-- The values of variables and of named constants. -/
abbrev Names : Type := String → Binary64

/-- The number that a constant denotes, with or without the suffix of its type. -/
def constant? (s : String) : Option Binary64 :=
  if s.toList.getLast? = some 'f' then
    match Binary64.read? (String.ofList s.toList.dropLast) with
    | some x => some x
    | none => Binary64.read? s
  else Binary64.read? s

section
variable (names : Names)

def Atom.value? : Atom → Option Binary64
  | .number s => constant? s
  | .name s => some ((constant? s).getD (names s))

def Literal.value? (l : Literal) : Option Binary64 :=
  (l.atom.value? names).map fun x => if l.negative then x.neg else x

/-- The value of a variable. An array is no number. -/
def variableValue (σ : Scope) (x : String) : Run Binary64 :=
  match σ.lookup x with
  | none => pure (names x)
  | some _ => .halt .undefined

/-- The element at `index`. What was not given is zero. -/
def Elements.get (a : Elements) (index : Nat) : Run Binary64 :=
  ⟨[.read ⟨index, a.size, a.values.length⟩],
    if index < a.size then .ok (a.values.getD index (.zero false)) else .error .undefined⟩

def Operand.value (σ : Scope) : Operand → Run Binary64
  | .literal l => .ofOption (l.value? names)
  | .element array index => do (← Run.ofOption (σ.lookup array)).get index

def Relation.holds : Relation → Binary64 → Binary64 → Bool
  | .less, x, y => x.lt y
  | .atLeast, x, y => y.le x
  | .greater, x, y => y.lt x

def Comparison.holds (σ : Scope) (c : Comparison) : Run Bool := do
  let x ← variableValue names σ c.variableName
  let y ← c.operand.value names σ
  return c.relation.holds x y

/-- Whether one of the comparisons holds. Those behind it are not looked at. -/
def someHolds (σ : Scope) : List Comparison → Run Bool
  | [] => return false
  | c :: rest => do
    if ← c.holds names σ then return true
    someHolds σ rest

def Condition.holds (σ : Scope) (c : Condition) : Run Bool := someHolds names σ (c.first :: c.others)

/-- The array becomes visible. It cannot be given more elements than it has. -/
def declare (name : String) (size : Nat) (values : List Literal) (σ : Scope) : Run Scope := do
  let values ← Run.ofOption (values.mapM (Literal.value? names))
  if values.length ≤ size then return (name, ⟨size, values⟩) :: σ
  .halt .undefined

/-- The call ends the program. -/
def Call.stops (c : Call) : Bool :=
  c.function == "exit" ||
    c.function == "assert" && c.arguments == [.literal ⟨false, .number "0"⟩]

def Call.exec (c : Call) : Run Unit :=
  if c.stops then .halt (.stopped c)
  else
    match c with
    | ⟨"fprintf", [_, .text s]⟩ => ⟨[.print s], .ok ()⟩
    | _ => .halt .undefined

mutual

/-- One statement, and the arrays that are visible behind it. -/
def Statement.exec : Statement → Scope → Run Scope
  | .array name size values, σ => declare names name size values σ
  | .ifThen c yes, σ => do
    if ← c.holds names σ then
      let _ ← execBlock yes σ
    return σ
  | .ifElse c yes no, σ => do
    if ← c.holds names σ then
      let _ ← execBlock yes σ
    else
      let _ ← execBlock no σ
    return σ
  | .return_ l, _ => do .halt (.returned (← Run.ofOption (l.value? names)))
  | .call c, σ => do
    c.exec
    return σ
  | .empty, σ => return σ

/-- Statements in a row. -/
def execBlock : List Statement → Scope → Run Scope
  | [], σ => return σ
  | s :: rest, σ => do execBlock rest (← s.exec σ)

end

/-- The execution of a text. What cannot be read has no meaning. -/
def execute (text : String) : Run Scope :=
  match statements? text with
  | some b => execBlock names b []
  | none => .halt .undefined

end

/-! ## Runs in which every element is inside of its array -/

namespace Run
variable {α β : Type} {r : Run α} {f : α → Run β} {a : α} {b : β} {h : Halt}

def Safe (r : Run α) : Prop := ∀ x, .read x ∈ r.events → x.InBounds

/-- The run goes on with `a`. -/
structure Gives (r : Run α) (a : α) : Prop where
  safe : r.Safe
  result : r.result = .ok a

/-- The run halts with `h`. -/
structure Ends (r : Run α) (h : Halt) : Prop where
  safe : r.Safe
  result : r.result = .error h

theorem bind_of_ok (hr : r.result = .ok a) : r >>= f = ⟨r.events ++ (f a).events, (f a).result⟩ := by
  change bind r f = _
  unfold bind
  rw [hr]

theorem bind_of_error (hr : r.result = .error h) : r >>= f = ⟨r.events, .error h⟩ := by
  change bind r f = _
  unfold bind
  rw [hr]

theorem Safe.append {events events' : List Event} {x : Except Halt α} {y : Except Halt β}
    (hr : Safe ⟨events, x⟩) (hr' : Safe ⟨events', y⟩) : Safe (⟨events ++ events', y⟩ : Run β) := by
  intro access haccess
  rcases List.mem_append.1 haccess with haccess | haccess
  · exact hr access haccess
  · exact hr' access haccess

theorem gives_pure (a : α) : (pure a : Run α).Gives a := by
  refine ⟨?_, rfl⟩
  rintro x ⟨⟩

theorem ends_halt (h : Halt) : (halt h : Run α).Ends h := by
  refine ⟨?_, rfl⟩
  rintro x ⟨⟩

theorem Gives.bind (hr : r.Gives a) (hf : (f a).Gives b) : (r >>= f).Gives b := by
  rw [bind_of_ok hr.result]
  exact ⟨hr.safe.append hf.safe, hf.result⟩

theorem Gives.bind_ends (hr : r.Gives a) (hf : (f a).Ends h) : (r >>= f).Ends h := by
  rw [bind_of_ok hr.result]
  exact ⟨hr.safe.append hf.safe, hf.result⟩

theorem Ends.bind (hr : r.Ends h) : (r >>= f).Ends h := by
  rw [bind_of_error hr.result]
  exact ⟨hr.safe, rfl⟩

end Run

variable {names : Names} {σ σ' : Scope} {h : Halt}

theorem gives_variable {x : String} (hx : σ.lookup x = none) :
    (variableValue names σ x).Gives (names x) := by
  rw [variableValue, hx]
  exact Run.gives_pure _

/-- An element that was given, in an array of which every element was. -/
theorem gives_element {array : String} {e : Elements} {index : Nat} {x : Binary64}
    (harray : σ.lookup array = some e) (hsize : e.values.length = e.size)
    (hx : e.values[index]? = some x) : ((Operand.element array index).value names σ).Gives x := by
  have hindex : index < e.size := by
    obtain ⟨hlt, -⟩ := List.getElem?_eq_some_iff.1 hx
    rwa [← hsize]
  rw [Operand.value, harray]
  refine (Run.gives_pure e).bind ⟨?_, ?_⟩
  · intro access haccess
    obtain rfl : access = ⟨index, e.size, e.values.length⟩ := by simpa [Elements.get] using haccess
    exact ⟨hindex, hsize⟩
  · rw [Elements.get, if_pos hindex, List.getD_eq_getElem?_getD, hx]
    rfl

theorem gives_comparison {c : Comparison} {y : Binary64} (hx : σ.lookup c.variableName = none)
    (hy : (c.operand.value names σ).Gives y) :
    (Condition.holds names σ ⟨c, []⟩).Gives (c.relation.holds (names c.variableName) y) := by
  have hc : (c.holds names σ).Gives (c.relation.holds (names c.variableName) y) :=
    (gives_variable hx).bind (hy.bind (Run.gives_pure _))
  refine hc.bind ?_
  cases c.relation.holds (names c.variableName) y with
  | true => exact Run.gives_pure _
  | false => exact Run.gives_pure _

theorem gives_array {name : String} {size : Nat} {values : List Literal} {xs : List Binary64}
    (hvalues : values.mapM (Literal.value? names) = some xs) (hsize : xs.length ≤ size) :
    ((Statement.array name size values).exec names σ).Gives ((name, ⟨size, xs⟩) :: σ) := by
  rw [Statement.exec, declare, hvalues]
  refine (Run.gives_pure xs).bind ?_
  rw [if_pos hsize]
  exact Run.gives_pure _

section
variable {c : Condition} {yes no : List Statement}

theorem ends_ifThen (hc : (c.holds names σ).Gives true) (hyes : (execBlock names yes σ).Ends h) :
    ((Statement.ifThen c yes).exec names σ).Ends h := by
  rw [Statement.exec]
  exact hc.bind_ends hyes.bind

theorem gives_ifThen (hc : (c.holds names σ).Gives false) :
    ((Statement.ifThen c yes).exec names σ).Gives σ := by
  rw [Statement.exec]
  exact hc.bind (Run.gives_pure σ)

theorem ends_ifElse {b : Bool} (hc : (c.holds names σ).Gives b)
    (hblock : (execBlock names (if b then yes else no) σ).Ends h) :
    ((Statement.ifElse c yes no).exec names σ).Ends h := by
  rw [Statement.exec]
  refine hc.bind_ends ?_
  cases b with
  | true => exact hblock.bind
  | false => exact hblock.bind

end

theorem ends_return {l : Literal} {x : Binary64} (hx : l.value? names = some x) :
    ((Statement.return_ l).exec names σ).Ends (.returned x) := by
  rw [Statement.exec, hx]
  exact (Run.gives_pure x).bind_ends (Run.ends_halt _)

theorem ends_call {c : Call} (hc : c.stops = true) :
    ((Statement.call c).exec names σ).Ends (.stopped c) := by
  have hexec : c.exec = .halt (.stopped c) := by
    unfold Call.exec
    rw [if_pos hc]
  rw [Statement.exec, hexec]
  exact (Run.ends_halt _).bind

section
variable {s : Statement} {rest : List Statement}

theorem ends_cons (hs : (s.exec names σ).Ends h) : (execBlock names (s :: rest) σ).Ends h := by
  rw [execBlock]
  exact hs.bind

theorem ends_cons_of_gives (hs : (s.exec names σ).Gives σ') (hrest : (execBlock names rest σ').Ends h) :
    (execBlock names (s :: rest) σ).Ends h := by
  rw [execBlock]
  exact hs.bind_ends hrest

end

/-- What stands behind the end is not reached. -/
theorem ends_append {b : List Statement} (rest : List Statement) (hb : (execBlock names b σ).Ends h) :
    (execBlock names (b ++ rest) σ).Ends h := by
  induction b generalizing σ with
  | nil => exact absurd hb.result (by simp [execBlock, pure])
  | cons s b ih =>
    rw [execBlock] at hb
    rw [List.cons_append, execBlock]
    cases hs : (s.exec names σ).result with
    | error h' =>
      rw [Run.bind_of_error hs] at hb ⊢
      exact hb
    | ok σ' =>
      have hsafe : (s.exec names σ).Safe := by
        rw [Run.bind_of_ok hs] at hb
        exact fun x hx => hb.safe x (List.mem_append_left _ hx)
      refine Run.Gives.bind_ends ⟨hsafe, hs⟩ (ih ?_)
      rw [Run.bind_of_ok hs] at hb
      exact ⟨fun x hx => hb.safe x (List.mem_append_right _ hx), hb.result⟩

theorem execute_eq {text : String} {b : List Statement} (hb : statements? text = some b) :
    execute names text = execBlock names b [] := by
  rw [execute, hb]

end Code

end Corrections
