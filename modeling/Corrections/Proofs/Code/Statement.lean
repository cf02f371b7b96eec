/-
  The statements of generated code.

  * `Statement` is the declaration of an array, a branch, a `return`, a call, or nothing. `blockTokens`
    are the tokens of statements in a row.
  * `Reader` goes through tokens one by one. It keeps the blocks that are open, with the statements
    they have so far, and the tokens of the statement that is being read.
  * `statements?` are the statements of a text. The last one may lack its semicolon, as it does in the
    code of a content.
  * `read_blockTokens`: statements are read back from their tokens.
-/
import Corrections.Proofs.Code.Token
import Mathlib.Tactic.Common
import Std.Data.String.ToNat

namespace Corrections.Code

/-- A number without its sign: a constant, or the name of one. -/
inductive Atom where
  | number (s : String)
  | name (s : String)
  deriving DecidableEq

/-- A number. -/
structure Literal where
  negative : Bool
  atom : Atom
  deriving DecidableEq

/-- What a variable is compared with: a number, or an element of an array. -/
inductive Operand where
  | literal (l : Literal)
  | element (array : String) (index : Nat)
  deriving DecidableEq

inductive Relation where
  | less
  | atLeast
  | greater
  deriving DecidableEq

/-- The comparison of a variable. -/
structure Comparison where
  variableName : String
  relation : Relation
  operand : Operand
  deriving DecidableEq

/-- One or more comparisons of which one has to hold. -/
structure Condition where
  first : Comparison
  others : List Comparison
  deriving DecidableEq

inductive Argument where
  | text (s : String)
  | literal (l : Literal)
  deriving DecidableEq

/-- The call of a function. -/
structure Call where
  function : String
  arguments : List Argument
  deriving DecidableEq

inductive Statement where
  | array (name : String) (size : Nat) (values : List Literal)
  | ifThen (c : Condition) (yes : List Statement)
  | ifElse (c : Condition) (yes no : List Statement)
  | return_ (l : Literal)
  | call (c : Call)
  | empty

/-! ## The tokens of a statement -/

def Atom.token : Atom → Token
  | .number s => .number s
  | .name s => .name s

def Literal.tokens (l : Literal) : List Token :=
  if l.negative then [.symbol .minus, l.atom.token] else [l.atom.token]

def Operand.tokens : Operand → List Token
  | .literal l => l.tokens
  | .element array index =>
    [.name array, .symbol .bracketOpen, .number (toString index), .symbol .bracketClose]

def Relation.symbol : Relation → Symbol
  | .less => .less
  | .atLeast => .atLeast
  | .greater => .greater

def Comparison.tokens (c : Comparison) : List Token :=
  .name c.variableName :: .symbol c.relation.symbol :: c.operand.tokens

/-- Tokens with a symbol between them. -/
def separated (s : Symbol) (parts : List (List Token)) : List Token :=
  List.intercalate [.symbol s] parts

def Condition.tokens (c : Condition) : List Token :=
  separated .or (c.first.tokens :: c.others.map Comparison.tokens)

def Argument.tokens : Argument → List Token
  | .text s => [.text s]
  | .literal l => l.tokens

def Call.tokens (c : Call) : List Token :=
  .name c.function :: .symbol .parenOpen :: separated .comma (c.arguments.map Argument.tokens) ++
    [.symbol .parenClose]

/-- The tokens of the declaration of an array. -/
def arrayTokens (name : String) (size : Nat) (values : List Literal) : List Token :=
  .keyword .float :: .name name :: .symbol .bracketOpen :: .number (toString size) ::
    .symbol .bracketClose :: .symbol .assign :: .symbol .braceOpen ::
    separated .comma (values.map Literal.tokens) ++ [.symbol .braceClose]

/-- The tokens that begin a branch. -/
def ifTokens (c : Condition) : List Token :=
  .keyword .if_ :: .symbol .parenOpen :: c.tokens ++ [.symbol .parenClose]

mutual

def Statement.tokens : Statement → List Token
  | .array name size values => arrayTokens name size values ++ [.symbol .semicolon]
  | .ifThen c yes => ifTokens c ++ .symbol .braceOpen :: blockTokens yes ++ [.symbol .braceClose]
  | .ifElse c yes no =>
    ifTokens c ++ .symbol .braceOpen :: blockTokens yes ++ .symbol .braceClose :: .keyword .else_ ::
      .symbol .braceOpen :: blockTokens no ++ [.symbol .braceClose]
  | .return_ l => .keyword .return_ :: l.tokens ++ [.symbol .semicolon]
  | .call c => c.tokens ++ [.symbol .semicolon]
  | .empty => [.symbol .semicolon]

/-- The tokens of statements in a row. -/
def blockTokens : List Statement → List Token
  | [] => []
  | s :: rest => s.tokens ++ blockTokens rest

end

theorem blockTokens_append (a b : List Statement) :
    blockTokens (a ++ b) = blockTokens a ++ blockTokens b := by
  induction a with
  | nil => rfl
  | cons s a ih => simp [blockTokens, ih]

/-! ## Reading a statement -/

def Atom.ofToken? : Token → Option Atom
  | .number s => some (.number s)
  | .name s => some (.name s)
  | _ => none

def Literal.read? : List Token → Option Literal
  | [t] => (Atom.ofToken? t).map (⟨false, ·⟩)
  | [.symbol .minus, t] => (Atom.ofToken? t).map (⟨true, ·⟩)
  | _ => none

def Operand.read? : List Token → Option Operand
  | [.name array, .symbol .bracketOpen, .number index, .symbol .bracketClose] =>
    index.toNat?.map (.element array)
  | ts => (Literal.read? ts).map .literal

def Relation.ofSymbol? : Symbol → Option Relation
  | .less => some .less
  | .atLeast => some .atLeast
  | .greater => some .greater
  | _ => none

def Comparison.read? : List Token → Option Comparison
  | .name x :: .symbol s :: ts => do
    let relation ← Relation.ofSymbol? s
    let operand ← Operand.read? ts
    return ⟨x, relation, operand⟩
  | _ => none

/-- The parts between the symbols `s`, each of them read. -/
def parts? {α : Type} (read : List Token → Option α) (s : Symbol) (ts : List Token) : Option (List α) :=
  (ts.splitOn (.symbol s)).mapM read

/-- A list with commas, which may be empty. -/
def list? {α : Type} (read : List Token → Option α) (ts : List Token) : Option (List α) :=
  if ts = [] then some [] else parts? read .comma ts

/-- What stands before a closing symbol at the end. -/
def enclosed? (s : Symbol) (ts : List Token) : Option (List Token) :=
  if ts.getLast? = some (.symbol s) then some ts.dropLast else none

def Condition.read? (ts : List Token) : Option Condition := do
  match ← parts? Comparison.read? .or ts with
  | [] => none
  | first :: others => return ⟨first, others⟩

def Argument.read? : List Token → Option Argument
  | [.text s] => some (.text s)
  | ts => (Literal.read? ts).map .literal

/-- A statement without blocks, from the tokens before its semicolon. -/
def Statement.simple? : List Token → Option Statement
  | [] => some .empty
  | .keyword .return_ :: ts => (Literal.read? ts).map .return_
  | .keyword .float :: .name name :: .symbol .bracketOpen :: .number size :: .symbol .bracketClose ::
      .symbol .assign :: .symbol .braceOpen :: ts => do
    let size ← size.toNat?
    let values ← list? Literal.read? (← enclosed? .braceClose ts)
    return .array name size values
  | .name function :: .symbol .parenOpen :: ts => do
    let arguments ← list? Argument.read? (← enclosed? .parenClose ts)
    return .call ⟨function, arguments⟩
  | _ => none

/-- The condition of a branch, from the tokens before its block. -/
def branch? : List Token → Option Condition
  | .keyword .if_ :: .symbol .parenOpen :: ts => do Condition.read? (← enclosed? .parenClose ts)
  | _ => none

/-- A block that is open. -/
inductive Opening where
  | then_ (c : Condition)
  | else_ (c : Condition) (yes : List Statement)

/-- The statement of a block that is complete. -/
def Opening.close : Opening → List Statement → Statement
  | .then_ c, block => .ifThen c block
  | .else_ c yes, block => .ifElse c yes block

/-- What has been read: the statements of the innermost block, the blocks around it, and the tokens of
the statement that is being read. Each stands in reverse. -/
structure Reader where
  done : List Statement
  outer : List (Opening × List Statement)
  pending : List Token

namespace Reader

/-- An array is being read. Its braces open and close no block. -/
def inArray (r : Reader) : Bool := r.pending.getLast? == some (.keyword .float)

def keep (r : Reader) (t : Token) : Reader := { r with pending := t :: r.pending }

/-- The block behind a condition or behind `else`. -/
def openBlock (r : Reader) : Option Reader :=
  if r.pending = [.keyword .else_] then
    match r.done with
    | .ifThen c yes :: done => some ⟨[], (.else_ c yes, done) :: r.outer, []⟩
    | _ => none
  else (branch? r.pending.reverse).map fun c => ⟨[], (.then_ c, r.done) :: r.outer, []⟩

def closeBlock (r : Reader) : Option Reader :=
  match r.pending, r.outer with
  | [], (opening, done) :: outer => some ⟨opening.close r.done.reverse :: done, outer, []⟩
  | _, _ => none

/-- One token more. -/
def step (r : Reader) (t : Token) : Option Reader :=
  if t = .symbol .semicolon then
    (Statement.simple? r.pending.reverse).map fun s => { r with done := s :: r.done, pending := [] }
  else if r.inArray then some (r.keep t)
  else if t = .symbol .braceOpen then r.openBlock
  else if t = .symbol .braceClose then r.closeBlock
  else some (r.keep t)

def read (r : Reader) (ts : List Token) : Option Reader := ts.foldlM step r

/-- The statements, once all blocks are closed. -/
def finish? (r : Reader) : Option (List Statement) :=
  match r.outer, r.pending with
  | [], [] => some r.done.reverse
  | [], pending => (Statement.simple? pending.reverse).map fun s => (s :: r.done).reverse
  | _, _ => none

end Reader

/-- The statements of a text. -/
def statements? (text : String) : Option (List Statement) := do
  let ts ← tokens? text
  let r ← Reader.read ⟨[], [], []⟩ ts
  r.finish?

/-! ## Statements are read back -/

/-- A token that separates nothing. -/
def Token.isInner : Token → Bool
  | .number _ | .name _ | .text _ => true
  | .symbol s => s ∈ [.minus, .bracketOpen, .bracketClose, .less, .atLeast, .greater]
  | .keyword _ => false

/-- A token that neither ends a statement nor bounds a block. -/
def Token.isPlain (t : Token) : Bool :=
  t != .symbol .semicolon && t != .symbol .braceOpen && t != .symbol .braceClose

theorem Token.isPlain_of_isInner {t : Token} (h : t.isInner = true) : t.isPlain = true := by
  simp only [Token.isPlain, Bool.and_eq_true, bne_iff_ne]
  refine ⟨⟨?_, ?_⟩, ?_⟩ <;> (rintro rfl; exact absurd h (by decide))

theorem Atom.isInner_token (a : Atom) : a.token.isInner = true := by
  cases a <;> rfl

theorem Atom.ofToken?_token (a : Atom) : Atom.ofToken? a.token = some a := by
  cases a <;> rfl

theorem Literal.isInner_of_mem {l : Literal} {t : Token} (h : t ∈ l.tokens) : t.isInner = true := by
  have h' : t = .symbol .minus ∨ t = l.atom.token := by
    unfold Literal.tokens at h
    split at h <;> simp_all
  rcases h' with rfl | rfl
  · rfl
  · exact l.atom.isInner_token

theorem Literal.read?_tokens (l : Literal) : Literal.read? l.tokens = some l := by
  obtain ⟨negative, atom⟩ := l
  cases negative with
  | false => simp [Literal.tokens, Literal.read?, Atom.ofToken?_token]
  | true => simp [Literal.tokens, Literal.read?, Atom.ofToken?_token]

theorem Literal.tokens_ne_nil (l : Literal) : l.tokens ≠ [] := by
  unfold Literal.tokens
  split <;> simp

theorem Operand.isInner_of_mem {o : Operand} {t : Token} (h : t ∈ o.tokens) : t.isInner = true := by
  cases o with
  | literal l => exact Literal.isInner_of_mem h
  | element array index =>
    simp only [Operand.tokens, List.mem_cons, List.not_mem_nil, or_false] at h
    rcases h with rfl | rfl | rfl | rfl <;> rfl

theorem Operand.read?_tokens (o : Operand) : Operand.read? o.tokens = some o := by
  cases o with
  | element array index => simp [Operand.tokens, Operand.read?, toString]
  | literal l =>
    have hread : Operand.read? l.tokens = (Literal.read? l.tokens).map .literal := by
      obtain ⟨negative, atom⟩ := l
      cases negative <;> cases atom <;> rfl
    rw [Operand.tokens, hread, Literal.read?_tokens]
    rfl

theorem Comparison.isInner_of_mem {c : Comparison} {t : Token} (h : t ∈ c.tokens) :
    t.isInner = true := by
  rcases List.mem_cons.1 h with rfl | h
  · rfl
  rcases List.mem_cons.1 h with rfl | h
  · cases c.relation <;> rfl
  · exact Operand.isInner_of_mem h

theorem Comparison.read?_tokens (c : Comparison) : Comparison.read? c.tokens = some c := by
  have hrelation : Relation.ofSymbol? c.relation.symbol = some c.relation := by
    cases c.relation <;> rfl
  simp [Comparison.tokens, Comparison.read?, hrelation, Operand.read?_tokens]

theorem Argument.isInner_of_mem {a : Argument} {t : Token} (h : t ∈ a.tokens) : t.isInner = true := by
  cases a with
  | text s => rw [List.mem_singleton.1 h]; rfl
  | literal l => exact Literal.isInner_of_mem h

theorem Argument.tokens_ne_nil (a : Argument) : a.tokens ≠ [] := by
  cases a with
  | text s => simp [Argument.tokens]
  | literal l => exact l.tokens_ne_nil

theorem Argument.read?_tokens (a : Argument) : Argument.read? a.tokens = some a := by
  cases a with
  | text s => rfl
  | literal l =>
    have hread : Argument.read? l.tokens = (Literal.read? l.tokens).map .literal := by
      obtain ⟨negative, atom⟩ := l
      cases negative <;> cases atom <;> rfl
    rw [Argument.tokens, hread, Literal.read?_tokens]
    rfl

section
variable {α : Type} {read : List Token → Option α} {write : α → List Token}

theorem parts?_separated (s : Symbol) (hread : ∀ a, read (write a) = some a)
    (hs : ∀ a, .symbol s ∉ write a) {as : List α} (hne : as ≠ []) :
    parts? read s (separated s (as.map write)) = some as := by
  have hmap : ∀ as : List α, (as.map write).mapM read = some as := by
    intro as
    induction as with
    | nil => rfl
    | cons a as ih => simp [hread, ih]
  have hparts : ∀ part ∈ as.map write, .symbol s ∉ part := by
    intro part hpart
    obtain ⟨a, -, rfl⟩ := List.mem_map.1 hpart
    exact hs a
  rw [parts?, separated, List.splitOn_intercalate _ hparts (by simpa using hne), hmap]

theorem mem_separated {s : Symbol} {parts : List (List Token)} {t : Token} (h : t ∈ separated s parts) :
    t = .symbol s ∨ ∃ part ∈ parts, t ∈ part := by
  induction parts with
  | nil => simp [separated] at h
  | cons part rest ih =>
    cases rest with
    | nil => exact .inr ⟨part, by simp, by simpa [separated] using h⟩
    | cons part' rest =>
      rw [separated, List.intercalate_cons_cons, List.append_assoc, List.mem_append,
        List.mem_append] at h
      rcases h with h | h | h
      · exact .inr ⟨part, by simp, h⟩
      · exact .inl (List.mem_singleton.1 h)
      · rcases ih h with h | ⟨p, hp, h⟩
        · exact .inl h
        · exact .inr ⟨p, by simp [hp], h⟩

theorem isPlain_of_mem_separated {s : Symbol} (hs : (Token.symbol s).isPlain = true)
    (hwrite : ∀ a, ∀ t ∈ write a, t.isInner = true) {as : List α} :
    ∀ t ∈ separated s (as.map write), t.isPlain = true := by
  intro t ht
  rcases mem_separated ht with rfl | ⟨part, hpart, ht⟩
  · exact hs
  · obtain ⟨a, -, rfl⟩ := List.mem_map.1 hpart
    exact Token.isPlain_of_isInner (hwrite a t ht)

theorem separated_ne_nil {s : Symbol} {parts : List (List Token)} (hne : parts ≠ [])
    (h : ∀ part ∈ parts, part ≠ []) : separated s parts ≠ [] := by
  obtain ⟨part, rest, rfl⟩ := List.exists_cons_of_ne_nil hne
  cases rest with
  | nil => simpa [separated] using h part (by simp)
  | cons part' rest => simp [separated, h part (by simp)]

theorem list?_separated (hread : ∀ a, read (write a) = some a) (hs : ∀ a, .symbol .comma ∉ write a)
    (hne : ∀ a, write a ≠ []) (as : List α) :
    list? read (separated .comma (as.map write)) = some as := by
  cases as with
  | nil => rfl
  | cons a as =>
    have h : separated .comma ((a :: as).map write) ≠ [] :=
      separated_ne_nil (by simp) (by simpa using ⟨hne a, fun b _ => hne b⟩)
    rw [list?, if_neg h, parts?_separated .comma hread hs (by simp)]

end

theorem enclosed?_append (s : Symbol) (ts : List Token) :
    enclosed? s (ts ++ [.symbol s]) = some ts := by
  simp [enclosed?]

theorem Condition.read?_tokens (c : Condition) : Condition.read? c.tokens = some c := by
  have hor : ∀ a : Comparison, .symbol .or ∉ a.tokens :=
    fun a h => absurd (Comparison.isInner_of_mem h) (by decide)
  have hparts := parts?_separated .or Comparison.read?_tokens hor (List.cons_ne_nil c.first c.others)
  rw [List.map_cons] at hparts
  rw [Condition.read?, Condition.tokens, hparts]
  rfl

theorem branch?_ifTokens (c : Condition) : branch? (ifTokens c) = some c := by
  simp only [ifTokens, List.cons_append, branch?, enclosed?_append]
  exact c.read?_tokens

theorem Statement.simple?_array (name : String) (size : Nat) (values : List Literal) :
    Statement.simple? (arrayTokens name size values) = some (.array name size values) := by
  have hcomma : ∀ l : Literal, .symbol .comma ∉ l.tokens :=
    fun l h => absurd (Literal.isInner_of_mem h) (by decide)
  have hvalues := list?_separated Literal.read?_tokens hcomma Literal.tokens_ne_nil values
  simp [arrayTokens, Statement.simple?, enclosed?_append, hvalues, toString]

theorem Statement.simple?_call (c : Call) : Statement.simple? c.tokens = some (.call c) := by
  have hcomma : ∀ a : Argument, .symbol .comma ∉ a.tokens :=
    fun a h => absurd (Argument.isInner_of_mem h) (by decide)
  have harguments := list?_separated Argument.read?_tokens hcomma Argument.tokens_ne_nil c.arguments
  simp [Call.tokens, Statement.simple?, enclosed?_append, harguments]

theorem Statement.simple?_return (l : Literal) :
    Statement.simple? (.keyword .return_ :: l.tokens) = some (.return_ l) := by
  simp [Statement.simple?, Literal.read?_tokens]

theorem Call.isPlain_of_mem {c : Call} {t : Token} (h : t ∈ c.tokens) : t.isPlain = true := by
  have harguments := @isPlain_of_mem_separated _ Argument.tokens .comma rfl
    (fun _ _ => Argument.isInner_of_mem) c.arguments
  simp only [Call.tokens, List.cons_append, List.mem_cons, List.mem_append, List.not_mem_nil,
    or_false] at h
  rcases h with rfl | rfl | h | rfl
  · rfl
  · rfl
  · exact harguments t h
  · rfl

theorem isPlain_of_mem_ifTokens {c : Condition} {t : Token} (h : t ∈ ifTokens c) :
    t.isPlain = true := by
  have hparts := @isPlain_of_mem_separated _ Comparison.tokens .or rfl
    (fun _ _ => Comparison.isInner_of_mem) (c.first :: c.others)
  simp only [ifTokens, List.cons_append, List.mem_cons, List.mem_append, List.not_mem_nil, or_false]
    at h
  rcases h with rfl | rfl | h | rfl
  · rfl
  · rfl
  · exact hparts t h
  · rfl

theorem isPlain_of_mem_return {l : Literal} {t : Token} (h : t ∈ .keyword .return_ :: l.tokens) :
    t.isPlain = true := by
  rcases List.mem_cons.1 h with rfl | h
  · rfl
  · exact Token.isPlain_of_isInner (Literal.isInner_of_mem h)

namespace Reader

theorem read_append (r : Reader) (ts us : List Token) :
    r.read (ts ++ us) = (r.read ts).bind (read · us) := by
  simp [read, List.foldlM_append]

theorem read_cons (r : Reader) (t : Token) (ts : List Token) :
    r.read (t :: ts) = (r.step t).bind (read · ts) := by
  simp [read]

/-- The tokens of a statement are kept until its end. Only in an array there may be braces. -/
theorem read_keep {r : Reader} {ts : List Token} (hsemicolon : .symbol .semicolon ∉ ts)
    (hbraces : r.inArray = true ∨ .symbol .braceOpen ∉ ts ∧ .symbol .braceClose ∉ ts) :
    r.read ts = some { r with pending := ts.reverse ++ r.pending } := by
  induction ts generalizing r with
  | nil => rfl
  | cons t ts ih =>
    simp only [List.mem_cons, not_or] at hsemicolon hbraces
    have hstep : r.step t = some (r.keep t) := by
      unfold step
      rw [if_neg (Ne.symm hsemicolon.1)]
      rcases hbraces with harray | ⟨⟨hopen, -⟩, ⟨hclose, -⟩⟩
      · rw [if_pos harray]
      · rw [if_neg (Ne.symm hopen), if_neg (Ne.symm hclose), ite_self]
    have hnext : (r.keep t).inArray = true ∨ .symbol .braceOpen ∉ ts ∧ .symbol .braceClose ∉ ts := by
      rcases hbraces with harray | ⟨⟨-, hopen⟩, ⟨-, hclose⟩⟩
      · refine .inl ?_
        unfold inArray keep at *
        cases hp : r.pending with
        | nil => simp [hp] at harray
        | cons u us => simpa [hp] using harray
      · exact .inr ⟨hopen, hclose⟩
    rw [read_cons, hstep, Option.bind_some, ih hsemicolon.2 hnext]
    simp [keep]

variable {done : List Statement} {outer : List (Opening × List Statement)}

/-- A statement without blocks is read at its semicolon. -/
theorem read_simple {ts : List Token} {s : Statement} (hsimple : Statement.simple? ts = some s)
    (hkeep : read ⟨done, outer, []⟩ ts = some ⟨done, outer, ts.reverse⟩) :
    read ⟨done, outer, []⟩ (ts ++ [.symbol .semicolon]) = some ⟨s :: done, outer, []⟩ := by
  rw [read_append, hkeep, Option.bind_some, read_cons, step, if_pos rfl]
  simp [hsimple, read]

theorem read_plain {ts : List Token} (h : ∀ t ∈ ts, t.isPlain = true) :
    read ⟨done, outer, []⟩ ts = some ⟨done, outer, ts.reverse⟩ := by
  have hnot : ∀ t, t.isPlain = false → t ∉ ts := by
    intro t ht hmem
    rw [h t hmem] at ht
    cases ht
  rw [read_keep (hnot _ rfl) (.inr ⟨hnot _ rfl, hnot _ rfl⟩), List.append_nil]

theorem read_array (name : String) (size : Nat) (values : List Literal) :
    read ⟨done, outer, []⟩ (arrayTokens name size values ++ [.symbol .semicolon]) =
      some ⟨.array name size values :: done, outer, []⟩ := by
  refine read_simple (Statement.simple?_array name size values) ?_
  -- Behind the keyword the array is being read, and its braces are kept.
  have hfloat : step ⟨done, outer, []⟩ (.keyword .float) = some ⟨done, outer, [.keyword .float]⟩ := rfl
  have hvalues : .symbol .semicolon ∉ separated .comma (values.map Literal.tokens) := fun h =>
    absurd (isPlain_of_mem_separated rfl (fun _ _ => Literal.isInner_of_mem) _ h) (by decide)
  rw [arrayTokens, List.cons_append, read_cons, hfloat, Option.bind_some,
    read_keep (by simpa using hvalues) (.inl rfl)]
  simp

/-- A condition opens a block. -/
theorem read_if (c : Condition) (ts : List Token) :
    read ⟨done, outer, []⟩ (ifTokens c ++ .symbol .braceOpen :: ts) =
      read ⟨[], (.then_ c, done) :: outer, []⟩ ts := by
  have hstep : step ⟨done, outer, (ifTokens c).reverse⟩ (.symbol .braceOpen) =
      some ⟨[], (.then_ c, done) :: outer, []⟩ := by
    have harray : inArray ⟨done, outer, (ifTokens c).reverse⟩ = false := by
      rw [inArray, List.getLast?_reverse]
      rfl
    have helse : (ifTokens c).reverse ≠ [.keyword .else_] := by
      intro h
      have := congrArg List.length h
      simp [ifTokens] at this
    rw [step, if_neg (by decide), harray, if_neg Bool.false_ne_true, if_pos rfl, openBlock,
      if_neg helse]
    simp [branch?_ifTokens]
  rw [read_append, read_plain fun _ => isPlain_of_mem_ifTokens, Option.bind_some, read_cons, hstep,
    Option.bind_some]

theorem read_close (opening : Opening) (block : List Statement) (ts : List Token) :
    read ⟨block.reverse, (opening, done) :: outer, []⟩ (.symbol .braceClose :: ts) =
      read ⟨opening.close block :: done, outer, []⟩ ts := by
  have hstep : step ⟨block.reverse, (opening, done) :: outer, []⟩ (.symbol .braceClose) =
      some ⟨opening.close block :: done, outer, []⟩ := by
    simp [step, inArray, closeBlock]
  rw [read_cons, hstep, Option.bind_some]

theorem read_else (c : Condition) (yes : List Statement) (ts : List Token) :
    read ⟨.ifThen c yes :: done, outer, []⟩ (.keyword .else_ :: .symbol .braceOpen :: ts) =
      read ⟨[], (.else_ c yes, done) :: outer, []⟩ ts :=
  rfl

mutual

theorem read_tokens :
    ∀ (s : Statement) (done : List Statement) (outer : List (Opening × List Statement)),
    read ⟨done, outer, []⟩ s.tokens = some ⟨s :: done, outer, []⟩
  | .array name size values, _, _ => read_array name size values
  | .return_ l, _, _ =>
    read_simple (Statement.simple?_return l) (read_plain fun _ => isPlain_of_mem_return)
  | .call c, _, _ => read_simple (Statement.simple?_call c) (read_plain fun _ => Call.isPlain_of_mem)
  | .empty, _, _ => rfl
  | .ifThen c yes, done, outer => by
    rw [Statement.tokens, List.append_assoc, List.cons_append, read_if, read_append,
      read_blockTokens yes, List.append_nil, Option.bind_some, read_close]
    rfl
  | .ifElse c yes no, done, outer => by
    rw [Statement.tokens, List.append_assoc, List.append_assoc, List.cons_append, read_if, read_append,
      read_blockTokens yes, List.append_nil, Option.bind_some]
    simp only [List.cons_append]
    rw [read_close, Opening.close, read_else, read_append, read_blockTokens no, List.append_nil,
      Option.bind_some, read_close]
    rfl

/-- **Statements are read back from their tokens.** -/
theorem read_blockTokens : ∀ (b done : List Statement) (outer : List (Opening × List Statement)),
    read ⟨done, outer, []⟩ (blockTokens b) = some ⟨b.reverse ++ done, outer, []⟩
  | [], _, _ => rfl
  | s :: b, done, outer => by
    rw [blockTokens, read_append, read_tokens s, Option.bind_some, read_blockTokens b]
    simp

end

end Reader

/-- The statements of a text with the tokens of a block. -/
theorem statements?_eq {text : String} {b : List Statement} (h : tokens? text = some (blockTokens b)) :
    statements? text = some b := by
  simp [statements?, h, Reader.read_blockTokens, Reader.finish?]

theorem statements?_return {text : String} {l : Literal}
    (h : tokens? text = some (.keyword .return_ :: l.tokens)) :
    statements? text = some [.return_ l] := by
  have hread := @Reader.read_plain [] [] _ fun _ => @isPlain_of_mem_return l _
  have hsimple := Statement.simple?_return l
  simp [statements?, h, hread, Reader.finish?, hsimple]

end Corrections.Code
