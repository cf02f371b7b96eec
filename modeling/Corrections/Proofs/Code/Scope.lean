/-
  The blocks of generated code and the names that are declared in them.

  * `Scopes` goes through tokens one by one. It keeps the names that are declared in the blocks that are
    open, and in those that are closed.
  * `blocks parameters ts` are the blocks of a function with the tokens `ts` between its braces, each as the
    list of the names it declares. The outermost one declares the parameters too.
  * `Adds ts own inner`: tokens that declare `own` in the block they stand in, and have the blocks `inner`.
  * `adds_blockTokens`: what the tokens of statements add can be seen from the statements.
-/
import Corrections.Proofs.Code.Statement

namespace Corrections.Code

/-- What has been read: whether the last token is the type of a declaration, the names that the innermost
block declares, and those of the blocks around it and of the blocks that are closed. -/
structure Scopes where
  typed : Bool
  names : List String
  outer : List (List String)
  closed : List (List String)

namespace Scopes

/-- The innermost block ends. -/
def close (s : Scopes) : Scopes :=
  match s.outer with
  | [] => { s with typed := false }
  | names :: outer => ⟨false, names, outer, s.closed ++ [s.names]⟩

/-- One token more. A name right behind a type is declared. The braces around the elements of an array count
as a block too, in which nothing is declared. -/
def step (s : Scopes) : Token → Scopes
  | .keyword .float => { s with typed := true }
  | .name x => ⟨false, if s.typed then s.names ++ [x] else s.names, s.outer, s.closed⟩
  | .symbol .braceOpen => ⟨false, [], s.names :: s.outer, s.closed⟩
  | .symbol .braceClose => s.close
  | _ => { s with typed := false }

def read (s : Scopes) (ts : List Token) : Scopes := ts.foldl step s

end Scopes

/-- The blocks of a function, each as the names that are declared in it. -/
def blocks (parameters : List String) (ts : List Token) : List (List String) :=
  let s := Scopes.read ⟨false, parameters, [], []⟩ ts
  s.names :: (s.outer ++ s.closed)

/-! ## What tokens add -/

/-- The tokens declare `own` in the block they stand in, and the blocks in them are `inner`. -/
def Adds (ts : List Token) (own : List String) (inner : List (List String)) : Prop :=
  ∀ names outer closed, Scopes.read ⟨false, names, outer, closed⟩ ts =
    ⟨false, names ++ own, outer, closed ++ inner⟩

/-- A token that neither bounds a block nor begins a declaration. -/
def Token.isQuiet (t : Token) : Bool :=
  t != .symbol .braceOpen && t != .symbol .braceClose && t != .keyword .float

namespace Adds
variable {ts us : List Token} {own own' : List String} {inner inner' : List (List String)}

theorem append (h : Adds ts own inner) (h' : Adds us own' inner') :
    Adds (ts ++ us) (own ++ own') (inner ++ inner') := by
  intro names outer closed
  have hts := h names outer closed
  have hus := h' (names ++ own) outer (closed ++ inner)
  unfold Scopes.read at *
  rw [List.foldl_append, hts, hus, List.append_assoc, List.append_assoc]

/-- Tokens between braces are a block of their own. -/
theorem block (h : Adds ts own inner) :
    Adds (.symbol .braceOpen :: ts ++ [.symbol .braceClose]) [] (inner ++ [own]) := by
  intro names outer closed
  have hts := h [] (names :: outer) closed
  unfold Scopes.read at *
  rw [List.cons_append, List.foldl_cons, Scopes.step, List.foldl_append, hts]
  simp [Scopes.step, Scopes.close]

theorem declaration (x : String) : Adds [.keyword .float, .name x] [x] [] := by
  intro names outer closed
  simp [Scopes.read, Scopes.step]

theorem quiet (h : ∀ t ∈ ts, t.isQuiet = true) : Adds ts [] [] := by
  intro names outer closed
  have hstep : ∀ t : Token, t.isQuiet = true →
      Scopes.step ⟨false, names, outer, closed⟩ t = ⟨false, names, outer, closed⟩ := by
    intro t ht
    unfold Scopes.step
    split
    · exact absurd ht (by decide)
    · rfl
    · exact absurd ht (by decide)
    · exact absurd ht (by decide)
    · rfl
  rw [List.append_nil, List.append_nil]
  induction ts with
  | nil => rfl
  | cons t ts ih =>
    rw [List.forall_mem_cons] at h
    unfold Scopes.read at *
    rw [List.foldl_cons, hstep t h.1, ih h.2]

theorem blocks_eq (h : Adds ts own inner) (parameters : List String) :
    blocks parameters ts = (parameters ++ own) :: inner := by
  simp [blocks, h parameters [] []]

end Adds

/-! ## What statements add -/

/-- The names that a statement declares in the block it stands in. -/
def Statement.declared : Statement → List String
  | .array name _ _ => [name]
  | _ => []

def declared (b : List Statement) : List String := b.flatMap Statement.declared

mutual

/-- The blocks in a statement. -/
def Statement.innerBlocks : Statement → List (List String)
  | .array _ _ _ => [[]]
  | .ifThen _ yes => Code.innerBlocks yes ++ [declared yes]
  | .ifElse _ yes no =>
    Code.innerBlocks yes ++ [declared yes] ++ (Code.innerBlocks no ++ [declared no])
  | .return_ _ | .call _ | .empty => []

def innerBlocks : List Statement → List (List String)
  | [] => []
  | s :: rest => s.innerBlocks ++ innerBlocks rest

end

theorem declared_append (a b : List Statement) : declared (a ++ b) = declared a ++ declared b :=
  List.flatMap_append

theorem innerBlocks_append (a b : List Statement) :
    innerBlocks (a ++ b) = innerBlocks a ++ innerBlocks b := by
  induction a with
  | nil => rfl
  | cons s a ih => simp [innerBlocks, ih]

theorem Token.isQuiet_of_isInner {t : Token} (h : t.isInner = true) : t.isQuiet = true := by
  simp only [Token.isQuiet, Bool.and_eq_true, bne_iff_ne]
  refine ⟨⟨?_, ?_⟩, ?_⟩ <;> (rintro rfl; exact absurd h (by decide))

theorem isQuiet_of_mem_separated {α : Type} {write : α → List Token} {s : Symbol}
    (hs : (Token.symbol s).isQuiet = true) (hwrite : ∀ a, ∀ t ∈ write a, t.isInner = true)
    (as : List α) : ∀ t ∈ separated s (as.map write), t.isQuiet = true := by
  intro t ht
  rcases mem_separated ht with rfl | ⟨part, hpart, ht⟩
  · exact hs
  · obtain ⟨a, -, rfl⟩ := List.mem_map.1 hpart
    exact Token.isQuiet_of_isInner (hwrite a t ht)

theorem adds_ifTokens (c : Condition) : Adds (ifTokens c) [] [] := by
  have hparts := @isQuiet_of_mem_separated _ Comparison.tokens .or rfl
    (fun _ _ => Comparison.isInner_of_mem) (c.first :: c.others)
  refine .quiet ?_
  simp only [ifTokens, List.cons_append, List.forall_mem_cons, List.forall_mem_append,
    List.not_mem_nil, false_implies, implies_true, and_true]
  exact ⟨rfl, rfl, hparts, rfl⟩

theorem adds_return (l : Literal) : Adds (.keyword .return_ :: l.tokens) [] [] := by
  refine .quiet ?_
  rw [List.forall_mem_cons]
  exact ⟨rfl, fun t ht => Token.isQuiet_of_isInner (Literal.isInner_of_mem ht)⟩

theorem adds_call (c : Call) : Adds c.tokens [] [] := by
  have harguments := @isQuiet_of_mem_separated _ Argument.tokens .comma rfl
    (fun _ _ => Argument.isInner_of_mem) c.arguments
  refine .quiet ?_
  simp only [Call.tokens, List.cons_append, List.forall_mem_cons, List.forall_mem_append,
    List.not_mem_nil, false_implies, implies_true, and_true]
  exact ⟨rfl, rfl, harguments, rfl⟩

theorem adds_array (name : String) (size : Nat) (values : List Literal) :
    Adds (arrayTokens name size values) [name] [[]] := by
  have hsize : Adds [.symbol .bracketOpen, .number (toString size), .symbol .bracketClose,
      .symbol .assign] [] [] := .quiet (by simp [Token.isQuiet])
  have hvalues : Adds (separated .comma (values.map Literal.tokens)) [] [] :=
    .quiet (isQuiet_of_mem_separated rfl (fun _ _ => Literal.isInner_of_mem) values)
  exact ((Adds.declaration name).append hsize).append hvalues.block

theorem adds_semicolon : Adds [.symbol .semicolon] [] [] := .quiet (by simp [Token.isQuiet])

mutual

theorem adds_tokens : ∀ s : Statement, Adds s.tokens s.declared s.innerBlocks
  | .array name size values => (adds_array name size values).append adds_semicolon
  | .return_ l => (adds_return l).append adds_semicolon
  | .call c => (adds_call c).append adds_semicolon
  | .empty => adds_semicolon
  | .ifThen c yes => by
    have h := (adds_ifTokens c).append (adds_blockTokens yes).block
    rwa [List.nil_append, ← List.append_assoc] at h
  | .ifElse c yes no => by
    have helse : Adds [.keyword .else_] [] [] := .quiet (by simp [Token.isQuiet])
    have h := ((adds_ifTokens c).append (adds_blockTokens yes).block).append
      (helse.append (adds_blockTokens no).block)
    simpa [Statement.tokens, Statement.declared, Statement.innerBlocks] using h

/-- **What the tokens of statements add.** -/
theorem adds_blockTokens : ∀ b : List Statement, Adds (blockTokens b) (declared b) (innerBlocks b)
  | [] => .quiet (by simp [blockTokens])
  | s :: b => by
    have h := (adds_tokens s).append (adds_blockTokens b)
    rwa [← blockTokens, ← innerBlocks] at h

end

end Corrections.Code
