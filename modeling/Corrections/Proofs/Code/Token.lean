/-
  The tokens of generated code.

  * `Token` is a keyword, a name, a number, a text in quotes or a symbol.
  * `scan` goes through characters one by one. A `Mode` says what is being read; blanks, comments and
    lines that begin with `#` are passed over.
  * `tokens? s` are the tokens of a text, unless it ends inside of a comment or of a text in quotes.
-/
namespace Corrections.Code

/-- The keywords of the language. -/
def keywords : List String :=
  ["auto", "break", "case", "char", "const", "continue", "default", "do", "double", "else", "enum",
    "extern", "float", "for", "goto", "if", "inline", "int", "long", "register", "restrict", "return",
    "short", "signed", "sizeof", "static", "struct", "switch", "typedef", "union", "unsigned", "void",
    "volatile", "while", "_Alignas", "_Alignof", "_Atomic", "_Bool", "_Complex", "_Generic",
    "_Imaginary", "_Noreturn", "_Static_assert", "_Thread_local"]

/-- A keyword. Those that generated statements use stand apart. -/
inductive Keyword where
  | float
  | if_
  | else_
  | return_
  | other (s : String)
  deriving DecidableEq

/-- A symbol. -/
inductive Symbol where
  | parenOpen
  | parenClose
  | braceOpen
  | braceClose
  | bracketOpen
  | bracketClose
  | semicolon
  | comma
  | assign
  | minus
  | less
  | atMost
  | greater
  | atLeast
  | or
  | other (c : Char)
  deriving DecidableEq

/-- A token. -/
inductive Token where
  | keyword (k : Keyword)
  | name (s : String)
  | number (s : String)
  | text (s : String)
  | symbol (s : Symbol)
  deriving DecidableEq

/-- The symbol of one character. -/
def Symbol.ofChar : Char → Symbol
  | '(' => .parenOpen
  | ')' => .parenClose
  | '\x7b' => .braceOpen
  | '\x7d' => .braceClose
  | '[' => .bracketOpen
  | ']' => .bracketClose
  | ';' => .semicolon
  | ',' => .comma
  | '=' => .assign
  | '-' => .minus
  | '<' => .less
  | '>' => .greater
  | c => .other c

/-- The symbol of two characters. -/
def Symbol.ofPair? : Char → Char → Option Symbol
  | '<', '=' => some .atMost
  | '>', '=' => some .atLeast
  | '|', '|' => some .or
  | _, _ => none

/-- A word is a keyword or a name. -/
def Token.ofWord (s : String) : Token :=
  if s = "float" then .keyword .float
  else if s = "if" then .keyword .if_
  else if s = "else" then .keyword .else_
  else if s = "return" then .keyword .return_
  else if s ∈ keywords then .keyword (.other s)
  else .name s

/-- A character that a name can begin with. -/
def isNameStart (c : Char) : Bool := c.isAlpha || c == '_'

/-- A character of a name. -/
def isNameChar (c : Char) : Bool := c.isAlphanum || c == '_'

/-- A character that goes on with a number whose last character is `last`. -/
def continuesNumber (last c : Char) : Bool :=
  isNameChar c || c == '.' || ((c == '+' || c == '-') && (last == 'e' || last == 'E'))

/-- What is being read. Characters already read stand in reverse. -/
inductive Mode where
  | blank
  | name (read : List Char)
  | number (last : Char) (read : List Char)
  | text (read : List Char)
  | escape (read : List Char)
  | operator (c : Char)
  | slash
  | line
  | block
  | blockStar
  deriving DecidableEq

/-- The first character of something. -/
def start (c : Char) : Mode × List Token :=
  if isNameStart c then (.name [c], [])
  else if c.isDigit then (.number c [], [])
  else if c.isWhitespace then (.blank, [])
  else if c == '\x22' then (.text [], [])
  else if c == '/' then (.slash, [])
  else if c == '#' then (.line, [])
  else if c == '<' || c == '>' || c == '|' then (.operator c, [])
  else (.blank, [.symbol (.ofChar c)])

/-- What has been read is the token `t`, and `c` begins something else. -/
def close (t : Token) (c : Char) : Mode × List Token := ((start c).1, t :: (start c).2)

/-- One character more. -/
def Mode.step : Mode → Char → Mode × List Token
  | .blank, c => start c
  | .name read, c =>
    if isNameChar c then (.name (c :: read), []) else close (.ofWord (String.ofList read.reverse)) c
  | .number last read, c =>
    if continuesNumber last c then (.number c (last :: read), [])
    else close (.number (String.ofList (last :: read).reverse)) c
  | .text read, c =>
    if c == '\x22' then (.blank, [.text (String.ofList read.reverse)])
    else if c == '\\' then (.escape read, [])
    else (.text (c :: read), [])
  | .escape read, c => (.text (c :: '\\' :: read), [])
  | .operator o, c =>
    match Symbol.ofPair? o c with
    | some s => (.blank, [.symbol s])
    | none => close (.symbol (.ofChar o)) c
  | .slash, c =>
    if c == '/' then (.line, []) else if c == '*' then (.block, []) else close (.symbol (.ofChar '/')) c
  | .line, c => if c == '\n' then (.blank, []) else (.line, [])
  | .block, c => if c == '*' then (.blockStar, []) else (.block, [])
  | .blockStar, c =>
    if c == '/' then (.blank, []) else if c == '*' then (.blockStar, []) else (.block, [])

/-- The tokens of characters, and what is still being read behind them. -/
def scan : Mode → List Char → Mode × List Token
  | m, [] => (m, [])
  | m, c :: cs =>
    let first := m.step c
    let rest := scan first.1 cs
    (rest.1, first.2 ++ rest.2)

/-- The tokens of a text. The end of the text ends a line. -/
def tokens? (s : String) : Option (List Token) :=
  match scan .blank (s.toList ++ ['\n']) with
  | (.blank, ts) => some ts
  | _ => none

/-! ## Reading a text piece by piece -/

theorem scan_append (m : Mode) (a b : List Char) :
    scan m (a ++ b) = ((scan (scan m a).1 b).1, (scan m a).2 ++ (scan (scan m a).1 b).2) := by
  induction a generalizing m with
  | nil => simp [scan]
  | cons c a ih => simp [scan, ih]

/-- The text has the tokens `ts`, and nothing is left that what follows could go on with. -/
def Reads (s : String) (ts : List Token) : Prop := scan .blank s.toList = (.blank, ts)

instance (s : String) (ts : List Token) : Decidable (Reads s ts) :=
  inferInstanceAs (Decidable (_ = _))

theorem tokens?_eq {s : String} {ts : List Token} (h : Reads (s ++ "\n") ts) : tokens? s = some ts := by
  have h' : scan .blank (s.toList ++ ['\n']) = (.blank, ts) := by simpa [Reads] using h
  rw [tokens?, h']

theorem Reads.append {a b : String} {ts us : List Token} (ha : Reads a ts) (hb : Reads b us) :
    Reads (a ++ b) (ts ++ us) := by
  unfold Reads at *
  rw [String.toList_append, scan_append, ha, hb]

/-- The text is a name: a letter or an underscore, and then letters, digits and underscores. -/
def isName (s : String) : Bool :=
  match s.toList with
  | [] => false
  | c :: cs => isNameStart c && cs.all isNameChar

/-- Every character goes on with a number. -/
def continuesAll : Char → List Char → Bool
  | _, [] => true
  | last, c :: cs => continuesNumber last c && continuesAll c cs

/-- The text is a number: a digit, and then what goes on with a number. -/
def isNumber (s : String) : Bool :=
  match s.toList with
  | [] => false
  | c :: cs => c.isDigit && continuesAll c cs

/-- The text begins with a character that ends every name and every number. -/
def delimits (s : String) : Bool :=
  s.toList.head?.any fun c => !isNameChar c && c != '.' && c != '+' && c != '-'

/-- The text has the tokens `us` wherever something follows that ends it. -/
def ReadsAs (text : String) (us : List Token) : Prop :=
  ∀ s ts, delimits s = true → Reads s ts → Reads (text ++ s) (us ++ ts)

theorem Reads.readsAs {a b : String} {ts us : List Token} (ha : Reads a ts) (hb : ReadsAs b us) :
    ReadsAs (a ++ b) (ts ++ us) := by
  intro s rest hs h
  rw [String.append_assoc, List.append_assoc]
  exact ha.append (hb s rest hs h)

theorem delimits_append {s : String} (h : delimits s = true) (t : String) :
    delimits (s ++ t) = true := by
  unfold delimits at *
  rw [String.toList_append, List.head?_append]
  cases hs : s.toList.head? with
  | none => simp [hs] at h
  | some c => simpa [hs] using h

theorem scan_name {read cs : List Char} (h : ∀ c ∈ cs, isNameChar c = true) :
    scan (.name read) cs = (.name (cs.reverse ++ read), []) := by
  induction cs generalizing read with
  | nil => rfl
  | cons c cs ih =>
    rw [scan, Mode.step, if_pos (h c (by simp)), ih fun d hd => h d (by simp [hd])]
    simp

theorem scan_number {last : Char} {read cs : List Char} (h : continuesAll last cs = true) :
    ∃ last' read', scan (.number last read) cs = (.number last' read', []) ∧
      last' :: read' = cs.reverse ++ last :: read := by
  induction cs generalizing last read with
  | nil => exact ⟨last, read, rfl, rfl⟩
  | cons c cs ih =>
    rw [continuesAll, Bool.and_eq_true] at h
    obtain ⟨last', read', hscan, heq⟩ := @ih c (last :: read) h.2
    refine ⟨last', read', ?_, by simpa using heq⟩
    rw [scan, Mode.step, if_pos h.1, hscan]
    rfl

/-- Letters do not end a text in quotes. -/
theorem scan_text {read cs : List Char} (h : ∀ c ∈ cs, isNameChar c = true) :
    scan (.text read) cs = (.text (cs.reverse ++ read), []) := by
  induction cs generalizing read with
  | nil => rfl
  | cons c cs ih =>
    rw [List.forall_mem_cons] at h
    have hquote : (c == '\x22') = false := by
      rw [beq_eq_false_iff_ne]
      rintro rfl
      exact absurd h.1 (by decide)
    have hescape : (c == '\\') = false := by
      rw [beq_eq_false_iff_ne]
      rintro rfl
      exact absurd h.1 (by decide)
    rw [scan, Mode.step, hquote, hescape, if_neg Bool.false_ne_true, if_neg Bool.false_ne_true, ih h.2]
    simp

theorem exists_cons_of_isName {q : String} (hq : isName q = true) :
    ∃ c cs, q.toList = c :: cs ∧ isNameStart c = true ∧ ∀ d ∈ cs, isNameChar d = true := by
  unfold isName at hq
  split at hq
  · cases hq
  · next c cs hqs => exact ⟨c, cs, hqs, by simpa using hq⟩

theorem isNameChar_of_mem {q : String} (hq : isName q = true) {c : Char} (hc : c ∈ q.toList) :
    isNameChar c = true := by
  obtain ⟨first, rest, hlist, hfirst, hrest⟩ := exists_cons_of_isName hq
  rw [hlist] at hc
  rcases List.mem_cons.1 hc with rfl | hc
  · grind [isNameStart, isNameChar, Char.isAlphanum]
  · exact hrest c hc

/-- What ends a token begins the next one. -/
theorem scan_close {m : Mode} {t : Token} {c : Char} (cs : List Char) (h : m.step c = close t c) :
    scan m (c :: cs) = ((scan .blank (c :: cs)).1, t :: (scan .blank (c :: cs)).2) := by
  rw [scan, scan, h]
  rfl

theorem isNameStart_of_isDigit {c : Char} (h : c.isDigit = true) : isNameStart c = false := by
  have hne : c ≠ '_' := by
    rintro rfl
    exact absurd h (by decide)
  have hval : 48 ≤ c.val ∧ c.val ≤ 57 := by
    unfold Char.isDigit at h
    simpa using h
  have halpha : c.isAlpha = false := by
    unfold Char.isAlpha Char.isUpper Char.isLower
    grind
  rw [isNameStart, halpha]
  simpa using hne

theorem readsAs_name {q : String} (hq : isName q = true) : ReadsAs q [.ofWord q] := by
  intro s ts hs h
  obtain ⟨c, cs, hqs, hc, hcs⟩ := exists_cons_of_isName hq
  have hfirst : Mode.step .blank c = (.name [c], []) := by simp [Mode.step, start, hc]
  have hread : String.ofList (cs.reverse ++ [c]).reverse = q := by
    rw [List.reverse_append, List.reverse_reverse, List.reverse_singleton, List.singleton_append, ← hqs,
      String.ofList_toList]
  unfold Reads delimits at *
  cases hs' : s.toList with
  | nil => simp [hs'] at hs
  | cons d ds =>
    rw [hs'] at hs h
    have hd : isNameChar d = false := by
      simp only [List.head?_cons, Option.any_some, Bool.and_eq_true, Bool.not_eq_true'] at hs
      exact hs.1.1.1
    rw [String.toList_append, hqs, hs', List.cons_append, scan, hfirst]
    simp only [List.nil_append]
    rw [scan_append, scan_name hcs]
    have hstep : Mode.step (.name (cs.reverse ++ [c])) d = close (.ofWord q) d := by
      rw [Mode.step, hd, if_neg Bool.false_ne_true, hread]
    rw [scan_close ds hstep, h]
    rfl

theorem readsAs_number {w : String} (hw : isNumber w = true) : ReadsAs w [.number w] := by
  intro s ts hs h
  obtain ⟨c, cs, hws, hc, hcs⟩ : ∃ c cs, w.toList = c :: cs ∧ c.isDigit = true ∧
      continuesAll c cs = true := by
    unfold isNumber at hw
    split at hw
    · cases hw
    · next c cs hws => exact ⟨c, cs, hws, by simpa using hw⟩
  have hfirst : Mode.step .blank c = (.number c [], []) := by
    simp [Mode.step, start, isNameStart_of_isDigit hc, hc]
  obtain ⟨last, read, hscan, heq⟩ := @scan_number c [] cs hcs
  have hread : String.ofList (last :: read).reverse = w := by
    rw [heq, List.reverse_append, List.reverse_reverse, List.reverse_singleton, List.singleton_append,
      ← hws, String.ofList_toList]
  unfold Reads delimits at *
  cases hs' : s.toList with
  | nil => simp [hs'] at hs
  | cons d ds =>
    rw [hs'] at hs h
    have hd : continuesNumber last d = false := by
      simp only [List.head?_cons, Option.any_some, Bool.and_eq_true, Bool.not_eq_true', bne_iff_ne]
        at hs
      simp [continuesNumber, hs]
    rw [String.toList_append, hws, hs', List.cons_append, scan, hfirst]
    simp only [List.nil_append]
    rw [scan_append, hscan]
    have hstep : Mode.step (.number last read) d = close (.number w) d := by
      rw [Mode.step, hd, if_neg Bool.false_ne_true, hread]
    rw [scan_close ds hstep, h]
    rfl

/-- A comment goes on to the end of the line. -/
theorem Reads.comment {s : String} (h : '\n' ∉ s.toList) : Reads ("//" ++ s ++ "\n") [] := by
  have hline : ∀ cs : List Char, '\n' ∉ cs → scan .line (cs ++ ['\n']) = (.blank, []) := by
    intro cs hcs
    induction cs with
    | nil => rfl
    | cons c cs ih =>
      rw [List.mem_cons, not_or] at hcs
      have hc : (c == '\n') = false := by simpa using Ne.symm hcs.1
      rw [List.cons_append, scan, Mode.step, hc, if_neg Bool.false_ne_true, ih hcs.2]
      rfl
  have h2 : scan .blank "//".toList = (.line, []) := by decide
  have h3 : "\n".toList = ['\n'] := by decide
  unfold Reads
  rw [String.toList_append, String.toList_append, List.append_assoc, scan_append, h2, h3, hline _ h]
  rfl

end Corrections.Code
