/-
  The code of a content as statements.

  * `Identifier`: a name of the language. `CleanName`: one without a hole. `InputName`: one that an input can
    have.
  * `Emits text b`: the text, with a semicolon and perhaps a comment behind it, has the tokens of the
    block `b`.
  * `statements?_written`: the written code of a content is read as its program. So the code of a content is
    read as the program of its printed form (`statements?_printed`), which is its own if no input has a hole
    (`statements?_compile`).
-/
import Corrections.Proofs.DecisionTree
import Corrections.Proofs.Hygiene
import Corrections.Proofs.Program

namespace Corrections

open Code DecisionTree

/-- A name of the language. -/
structure Identifier (q : String) : Prop where
  isName : isName q = true
  notKeyword : q ∉ keywords

/-- A name without a hole. -/
structure CleanName (q : String) : Prop extends Identifier q where
  clean : Text.Clean q

/-- A name that an input can have. The two arrays of a binning would hide an input of their name. -/
structure InputName (q : String) : Prop where
  isName : isName q = true
  notKeyword : q ∉ keywords
  ne_edges : q ≠ "edges"
  ne_values : q ≠ "values"
  clean : Text.Clean q

theorem InputName.cleanName {q : String} (hq : InputName q) : CleanName q :=
  ⟨⟨hq.isName, hq.notKeyword⟩, hq.clean⟩

theorem inputName_x : InputName "x" :=
  ⟨by decide, by decide, by decide, by decide, Text.clean_of_notMem (by decide)⟩

theorem inputName_y : InputName "y" :=
  ⟨by decide, by decide, by decide, by decide, Text.clean_of_notMem (by decide)⟩

theorem ofWord_of_notMem {q : String} (h : q ∉ keywords) : Token.ofWord q = .name q := by
  have hne : ∀ k ∈ keywords, q ≠ k := fun k hk he => h (he ▸ hk)
  rw [Token.ofWord, if_neg (hne _ (by decide)), if_neg (hne _ (by decide)), if_neg (hne _ (by decide)),
    if_neg (hne _ (by decide)), if_neg h]

variable {q s : String} {ts us : List Token}

/-! ## Pieces of a line -/

theorem Identifier.readsAs (hq : Identifier q) : ReadsAs q [.name q] := by
  have h := readsAs_name hq.isName
  rwa [ofWord_of_notMem hq.notKeyword] at h

theorem readsAs_toString (n : Nat) {suffix : String}
    (hsuffix : suffix.toList.all isNumberChar = true) :
    ReadsAs (toString n ++ suffix) [.number (toString n ++ suffix)] := by
  refine readsAs_number ?_
  have hdigits : ∀ c ∈ Nat.toDigits 10 n, c.isDigit = true := fun c => Binary64.isDigit_toDigits
  have hlist : (toString n ++ suffix).toList = Nat.toDigits 10 n ++ suffix.toList := by
    simp [toString]
  obtain ⟨c, cs, hcs⟩ := List.exists_cons_of_ne_nil (@Nat.toDigits_ne_nil n 10)
  rw [hcs, List.forall_mem_cons] at hdigits
  have hrest : continuesAll c (cs ++ suffix.toList) = true :=
    continuesAll_of_forall (List.forall_mem_append.2
      ⟨fun x hx => isNumberChar_of_isDigit (hdigits.2 x hx), List.all_eq_true.1 hsuffix⟩)
  rw [isNumber, hlist, hcs]
  simpa [hdigits.1] using hrest

theorem readsAs_index (n : Nat) : ReadsAs (toString n) [.number (toString n)] := by
  have h := @readsAs_toString n "" (by decide)
  rwa [String.append_empty] at h

theorem reads_edgeAt (edge : Nat) (h : Reads s ts) :
    Reads (edgeAt edge ++ s) ((Operand.element "edges" edge).tokens ++ ts) := by
  have hfront : Reads "edges[" [.name "edges", .symbol .bracketOpen] := by decide
  have hback : Reads "]" [.symbol .bracketClose] := by decide
  have hindex := readsAs_index edge _ _ (delimits_append (by decide) s) (hback.append h)
  simpa [edgeAt, Operand.tokens, String.append_assoc] using hfront.append hindex

/-- A comparison of the input with an edge, up to the block behind it. -/
theorem reads_comparison (hq : Identifier q) {front relation : String} {r : Relation} (edge : Nat)
    (hfront : Reads front [.keyword .if_, .symbol .parenOpen])
    (hrelation : Reads relation [.symbol r.symbol]) (hdelimits : delimits relation = true) :
    Reads (front ++ q ++ relation ++ edgeAt edge ++ ") \x7b")
      (ifTokens (edgeCondition q r edge) ++ [.symbol .braceOpen]) := by
  have hend : Reads ") \x7b" [.symbol .parenClose, .symbol .braceOpen] := by decide
  have hright := hrelation.append (reads_edgeAt edge hend)
  have hleft := hfront.append (hq.readsAs _ _ (delimits_append hdelimits _) hright)
  simpa [ifTokens, edgeCondition, Condition.tokens, separated, Comparison.tokens,
    String.append_assoc] using hleft

/-! ## Arrays -/

section
variable {α : Type} {text : α → String} {literal : α → Literal}

/-- Items with commas between them. -/
theorem readsAs_list {tokens : α → List Token} (items : List α)
    (hitem : ∀ a ∈ items, ReadsAs (text a) (tokens a)) :
    ReadsAs (", ".intercalate (items.map text)) (separated .comma (items.map tokens)) := by
  intro s ts hs h
  have hcomma : Reads ", " [.symbol .comma] := by decide
  induction items with
  | nil => simpa [separated] using h
  | cons a items ih =>
    rw [List.forall_mem_cons] at hitem
    cases items with
    | nil => simpa [separated] using hitem.1 s ts hs h
    | cons b items =>
      have hrest := hitem.1 _ _ (delimits_append (by decide) _) (hcomma.append (ih hitem.2))
      simpa [separated, String.append_assoc] using hrest

theorem reads_array {front name : String} (hitem : ∀ a, ReadsAs (text a) (literal a).tokens)
    (size : Nat) (items : List α)
    (hfront : Reads front [.keyword .float, .name name, .symbol .bracketOpen]) :
    Reads (front ++ toString size ++ "] = \x7b" ++ ", ".intercalate (items.map text) ++ "\x7d;")
      (Statement.array name size (items.map literal)).tokens := by
  have hend : Reads "\x7d;" [.symbol .braceClose, .symbol .semicolon] := by decide
  have hopen :
      Reads "] = \x7b" [.symbol .bracketClose, .symbol .assign, .symbol .braceOpen] := by decide
  have hitems := hopen.append (readsAs_list items (fun a _ => hitem a) _ _ (by decide) hend)
  have hsize := readsAs_index size _ _ (delimits_append (by decide) _) hitems
  simpa [Statement.tokens, arrayTokens, Function.comp_def, String.append_assoc] using
    hfront.append hsize

end

theorem Edge.readsAs_code (e : Edge) : ReadsAs e.code e.literal.tokens := by
  have hname : ReadsAs "MAX_FLOAT" [.name "MAX_FLOAT"] := readsAs_name (by decide)
  cases e with
  | number x => exact readsAs_ofNumber (.inr rfl) x
  | highest => exact hname
  | lowest =>
    intro s ts hs h
    have hminus : Reads "-" [.symbol .minus] := by decide
    have hcode : Edge.lowest.code = "-" ++ "MAX_FLOAT" := by decide
    rw [hcode, String.append_assoc]
    exact hminus.append (hname s ts hs h)

/-! ## Code with a semicolon behind it -/

/-- What can stand behind the semicolon: nothing, or a comment to the end of the line. -/
def Trail (s : String) : Prop := s = "" ∨ ∃ t, '\n' ∉ t.toList ∧ s = " //" ++ t

/-- The text with a semicolon behind it has the tokens of the block. -/
def Emits (text : String) (b : Block) : Prop :=
  ∀ trail, Trail trail → Reads (text ++ (";" ++ trail ++ "\n")) (blockTokens (closed b))

theorem Trail.reads (h : Trail s) : Reads (";" ++ s ++ "\n") [.symbol .semicolon] := by
  rcases h with rfl | ⟨t, ht, rfl⟩
  · decide
  · have hsemicolon : Reads "; " [.symbol .semicolon] := by decide
    have hcomment := hsemicolon.append (Reads.comment ht)
    have heq : ";" ++ (" //" ++ t) ++ "\n" = "; " ++ ("//" ++ t ++ "\n") := by
      rw [← String.toList_inj]
      simp
    rw [heq]
    exact hcomment

theorem Trail.newline_notMem (h : Trail s) : '\n' ∉ s.toList := by
  rcases h with rfl | ⟨t, ht, rfl⟩
  · decide
  · rw [String.toList_append, List.mem_append, not_or]
    exact ⟨by decide, ht⟩

theorem emits_return {text : String} {l : Literal} (h : ReadsAs text l.tokens) :
    Emits ("return " ++ text) [.return_ l] := by
  intro trail htrail
  have hreturn : Reads "return " [.keyword .return_] := by decide
  have hdelimits : delimits (";" ++ trail ++ "\n") = true :=
    delimits_append (delimits_append (by decide) _) _
  have hread := hreturn.append (h _ _ hdelimits htrail.reads)
  simpa [closed, endsInBranch, blockTokens, Statement.tokens, String.append_assoc] using hread

theorem reads_message (hq : Identifier q) :
    Reads ("fprintf(stderr, \"ERROR: " ++ q ++ " is out of bounds.\\n\");")
      (Statement.call ⟨"fprintf", [.literal ⟨false, .name "stderr"⟩,
        .text ("ERROR: " ++ q ++ " is out of bounds.\\n")]⟩).tokens := by
  have hfront : scan .blank "fprintf(stderr, \"ERROR: ".toList = (.text "ERROR: ".toList.reverse,
      [.name "fprintf", .symbol .parenOpen, .name "stderr", .symbol .comma]) := by decide
  have hname := @scan_text "ERROR: ".toList.reverse q.toList fun c => isNameChar_of_mem hq.isName
  have hback : ∀ read, scan (.text read) " is out of bounds.\\n\");".toList =
      (.blank, [.text (String.ofList (" is out of bounds.\\n".toList.reverse ++ read).reverse),
        .symbol .parenClose, .symbol .semicolon]) := fun read => rfl
  have htext : String.ofList (" is out of bounds.\\n".toList.reverse ++
      (q.toList.reverse ++ "ERROR: ".toList.reverse)).reverse =
      "ERROR: " ++ q ++ " is out of bounds.\\n" := by
    simp only [List.reverse_append, List.reverse_reverse, String.ofList_append, String.ofList_toList]
  unfold Reads
  rw [String.toList_append, String.toList_append, scan_append, scan_append, hfront]
  simp only [hname, hback, htext]
  rfl

theorem Target.reads_failCode (target : Target) : Reads target.failCode target.failCall.tokens := by
  cases target <;> decide

theorem emits_failure (hq : Identifier q) (target : Target) :
    Emits (Binning.outOfBounds q target) (Binning.failure q target) := by
  intro trail htrail
  have hread := (reads_message hq).append (target.reads_failCode.append htrail.reads)
  have hblock : blockTokens (closed (Binning.failure q target)) =
      (Statement.call ⟨"fprintf", [.literal ⟨false, .name "stderr"⟩,
        .text ("ERROR: " ++ q ++ " is out of bounds.\\n")]⟩).tokens ++
        (target.failCall.tokens ++ [.symbol .semicolon]) := by
    simp only [Binning.failure, closed, endsInBranch, List.getLast?_cons_cons, List.getLast?_singleton,
      Bool.false_eq_true, if_false, blockTokens, Statement.tokens, List.append_nil]
  rw [hblock]
  exact (congrArg (Reads · _) String.append_assoc).mpr hread

/-! ## Lines -/

section
variable {lines rest : List String}

theorem reads_cons_lines {line : String} (hline : Reads (line ++ "\n") ts) (hne : rest ≠ [])
    (hrest : Reads ("\n".intercalate rest ++ s) us) :
    Reads ("\n".intercalate (line :: rest) ++ s) (ts ++ us) := by
  rw [String.intercalate_cons_of_ne_nil hne, String.append_assoc]
  exact hline.append hrest

theorem reads_append_lines (hlines : Reads ("\n".intercalate lines ++ "\n") ts) (hne : lines ≠ [])
    (hne' : rest ≠ []) (hrest : Reads ("\n".intercalate rest ++ s) us) :
    Reads ("\n".intercalate (lines ++ rest) ++ s) (ts ++ us) := by
  rw [String.intercalate_append_of_ne_nil hne hne', String.append_assoc]
  exact hlines.append hrest

end

/-- Two blocks of lines with a comparison around them. `p` is what they are set in by. -/
theorem reads_branch (hq : Identifier q) {p : String} (hp : Reads p []) (edge : Nat)
    {below above : List String} {yes no : Block} (hbelow : below ≠ []) (habove : above ≠ [])
    (hyes : Reads ("\n".intercalate below ++ "\n") (blockTokens yes))
    (hno : Reads ("\n".intercalate above ++ "\n") (blockTokens no)) (hs : Reads s us) :
    Reads ("\n".intercalate
      ((p ++ ifLine q edge) :: below ++ (p ++ elseLine) :: above ++ [p ++ "\x7d"]) ++ s)
      (blockTokens [.ifElse (edgeCondition q .less edge) yes no] ++ us) := by
  have hline : Reads "\n" [] := by decide
  have hcomparison :
      Reads (ifLine q edge) (ifTokens (edgeCondition q .less edge) ++ [.symbol .braceOpen]) :=
    reads_comparison hq edge (by decide : Reads "if (" _) (by decide : Reads " < " _) (by decide)
  have hif : Reads (p ++ ifLine q edge ++ "\n")
      (ifTokens (edgeCondition q .less edge) ++ [.symbol .braceOpen]) := by
    have h := (hp.append hcomparison).append hline
    rwa [List.nil_append, List.append_nil] at h
  have hline' : Reads elseLine [.symbol .braceClose, .keyword .else_, .symbol .braceOpen] := by decide
  have helse :
      Reads (p ++ elseLine ++ "\n") [.symbol .braceClose, .keyword .else_, .symbol .braceOpen] :=
    (hp.append hline').append hline
  have hend : Reads ("\n".intercalate [p ++ "\x7d"] ++ s) (.symbol .braceClose :: us) := by
    rw [String.intercalate_singleton]
    exact (hp.append (by decide : Reads "\x7d" [.symbol .braceClose])).append hs
  have hlast := reads_append_lines hno habove (List.cons_ne_nil _ _) hend
  have helse' := reads_cons_lines helse (by simp) hlast
  have hyes' := reads_append_lines hyes hbelow (List.cons_ne_nil _ _) helse'
  have hall := reads_cons_lines hif (by simp [hbelow]) hyes'
  simp only [blockTokens, Statement.tokens, List.append_assoc, List.cons_append, List.nil_append,
    List.append_nil] at hall ⊢
  exact hall

/-! ## The decision between bins -/

theorem newline_notMem_edgeAt (edge : Nat) : '\n' ∉ (edgeAt edge).toList := by
  have hdigits : '\n' ∉ (toString edge).toList := by
    intro h
    have h' : '\n' ∈ Nat.toDigits 10 edge := by simpa [toString] using h
    exact absurd (Binary64.isDigit_toDigits h') (by decide)
  simp only [edgeAt, String.toList_append, List.mem_append, not_or]
  exact ⟨⟨by decide, hdigits⟩, by decide⟩

theorem Identifier.newline_notMem (hq : Identifier q) : '\n' ∉ q.toList :=
  fun h => absurd (isNameChar_of_mem hq.isName h) (by decide)

variable {code : Nat → String} {block : Nat → Block}

/-- The line of a bin, with more of the comment behind it. -/
theorem reads_binLine (hq : Identifier q) {bin : Nat} (h : Emits (code bin) (block bin)) {more : String}
    (hmore : '\n' ∉ more.toList) :
    Reads (binLine q code bin ++ more ++ "\n") (blockTokens (closed (block bin))) := by
  have htrail :
      Trail (" //" ++ (" " ++ edgeAt bin ++ " <= " ++ q ++ " < " ++ edgeAt (bin + 1) ++ more)) := by
    refine .inr ⟨_, ?_, rfl⟩
    simp only [String.toList_append, List.mem_append, not_or]
    exact ⟨⟨⟨⟨⟨⟨by decide, newline_notMem_edgeAt _⟩, by decide⟩, hq.newline_notMem⟩, by decide⟩,
      newline_notMem_edgeAt _⟩, hmore⟩
  have htext : binLine q code bin ++ more ++ "\n" = code bin ++ (";" ++
      (" //" ++ (" " ++ edgeAt bin ++ " <= " ++ q ++ " < " ++ edgeAt (bin + 1) ++ more)) ++ "\n") := by
    have hcut : "; // " = ";" ++ (" //" ++ " ") := by decide
    simp only [binLine, hcut, String.append_assoc]
  rw [htext]
  exact h _ htrail

theorem reads_blanks (n : Nat) : Reads (blanks n) [] := by
  induction n with
  | zero => decide
  | succ n ih =>
    have hblank : Reads " " [] := by decide
    have hsucc : blanks (n + 1) = " " ++ blanks n := by
      simp [blanks, List.replicate_succ, String.ofList_cons]
    rw [hsucc]
    exact hblank.append ih

theorem entries_ne_nil (depth : Nat) (t : DecisionTree) : t.entries q code depth ≠ [] := by
  fun_cases entries q code depth t <;> simp

/-- What can stand behind the entries of a tree, and its tokens. A leaf ends in a comment, which goes on
to the end of the line. -/
def Follows : DecisionTree → String → List Token → Prop
  | .leaf _, s, us => us = [] ∧ ∃ more, '\n' ∉ more.toList ∧ s = more ++ "\n"
  | .node _ _ _, s, us => Reads s us

theorem follows_newline (t : DecisionTree) : Follows t "\n" [] := by
  cases t with
  | leaf bin => exact ⟨rfl, "", by decide, by decide⟩
  | node edge below above => exact (by decide : Reads "\n" [])

theorem reads_leaf (hq : Identifier q) {p : String} (hp : Reads p []) {bin : Nat}
    (h : Emits (code bin) (block bin)) (hs : Follows (.leaf bin) s us) :
    Reads ("\n".intercalate [p ++ binLine q code bin] ++ s)
      (blockTokens (closed (block bin)) ++ us) := by
  obtain ⟨rfl, more, hmore, rfl⟩ := hs
  have hline := hp.append (reads_binLine hq h hmore)
  rw [String.intercalate_singleton, List.append_nil]
  simpa only [List.nil_append, String.append_assoc] using hline

/-- The entries of a tree are its statements. `p` is what they are set in by. -/
theorem reads_entries (hq : Identifier q) {p : String} (hp : Reads p []) (depth : Nat) (t : DecisionTree)
    (hcode : ∀ bin ∈ t.leaves, Emits (code bin) (block bin)) (hs : Follows t s us) :
    Reads ("\n".intercalate ((t.entries q code depth).map (p ++ ·)) ++ s)
      (blockTokens (t.statements q block) ++ us) := by
  have hindent : ∀ n, Reads (p ++ blanks n) [] := fun n => hp.append (reads_blanks n)
  have hindent' : ∀ n, Reads (p ++ (blanks n ++ " ")) [] := fun n =>
    hp.append ((reads_blanks n).append (by decide : Reads " " []))
  fun_induction entries q code depth t generalizing s us with
  | case1 depth bin =>
    have h := reads_leaf hq (hindent' (4 * depth)) (hcode bin (by simp [leaves])) hs
    simpa only [List.map_cons, List.map_nil, String.append_assoc, statements] using h
  | case2 depth edge first second =>
    have hfirst := reads_leaf hq (hindent (4 * (depth + 1))) (hcode first (by simp [leaves]))
      (follows_newline _)
    have hsecond := reads_leaf hq (hindent' (4 * (depth + 1))) (hcode second (by simp [leaves]))
      (follows_newline _)
    rw [List.append_nil] at hfirst hsecond
    have h := reads_branch hq (hindent (4 * depth)) edge (by simp) (by simp) hfirst hsecond hs
    simpa only [List.map_cons, List.map_nil, String.append_assoc, statements, List.cons_append,
      List.nil_append] using h
  | case3 depth edge below above hleaves ihbelow ihabove =>
    have hbelow := ihbelow (fun bin hbin => hcode bin (by simp [leaves, hbin])) (follows_newline _)
    have habove := ihabove (fun bin hbin => hcode bin (by simp [leaves, hbin])) (follows_newline _)
    rw [List.append_nil] at hbelow habove
    have h := reads_branch hq (hindent (4 * depth)) edge (by simp [entries_ne_nil])
      (by simp [entries_ne_nil]) hbelow habove hs
    simpa only [List.map_cons, List.map_nil, List.map_append, String.append_assoc, statements,
      List.cons_append, List.append_assoc, List.nil_append] using h

/-! ## A binning -/

namespace Binning
variable {edges : List Edge} {g : Guards} {codes : List String} {below above : Block}
  {bins : List Block}

/-- A line of its own, with the tokens `ts`. -/
theorem reads_line {line : String} (h : Reads line ts) : Reads (line ++ "\n") ts := by
  have hline := h.append (by decide : Reads "\n" [])
  rwa [List.append_nil] at hline

theorem reads_arrayLines (edges : List Edge) :
    Reads ("\n".intercalate (arrayLines edges) ++ "\n") (blockTokens (arrays edges)) := by
  have hcomment : Reads ("    // Embedded edges and values arrays" ++ "\n") [] := by decide
  have hedges := reads_line (reads_array Edge.readsAs_code edges.length edges
    (by decide : Reads "    float edges[" [.keyword .float, .name "edges", .symbol .bracketOpen]))
  have hbin : ∀ bin : Nat, ReadsAs (toString bin ++ ".0f") (binLiteral bin).tokens :=
    fun bin => readsAs_toString bin (by decide)
  have hvalues := reads_line (reads_array hbin (edges.length - 1) (List.range (edges.length - 1))
    (by decide : Reads "    float values[" [.keyword .float, .name "values", .symbol .bracketOpen]))
  have hlast : Reads ("\n".intercalate [""] ++ "\n") [] := by decide
  have h := reads_cons_lines hcomment (by simp) (reads_cons_lines hedges (by simp)
    (reads_cons_lines hvalues (List.cons_ne_nil _ _) hlast))
  simpa only [arrayLines, List.nil_append, List.append_nil, arrays, blockTokens] using h

/-- A branch of the guards. -/
theorem reads_guard (hq : Identifier q) {relation text : String} {r : Relation} {b : Block} (edge : Nat)
    (hrelation : Reads relation [.symbol r.symbol]) (hdelimits : delimits relation = true)
    (hb : Emits text b) :
    Reads ("\n".intercalate ["    if (" ++ q ++ relation ++ edgeAt edge ++ ") \x7b",
        "        " ++ text ++ ";", "    \x7d"] ++ "\n")
      (Statement.ifThen (edgeCondition q r edge) (closed b)).tokens := by
  have hif := reads_line (reads_comparison hq edge
    (by decide : Reads "    if (" [.keyword .if_, .symbol .parenOpen]) hrelation hdelimits)
  have htext : Reads ("        " ++ text ++ ";" ++ "\n") (blockTokens (closed b)) := by
    have h := (by decide : Reads "        " []).append (hb "" (.inl rfl))
    simpa only [List.nil_append, String.append_assoc, String.empty_append] using h
  have hend : Reads ("\n".intercalate ["    \x7d"] ++ "\n") [.symbol .braceClose] := by decide
  have h := reads_cons_lines hif (by simp) (reads_cons_lines htext (List.cons_ne_nil _ _) hend)
  simpa only [Statement.tokens, List.append_assoc, List.cons_append, List.nil_append] using h

theorem reads_guardLines (hq : Identifier q) (n : Nat) (hbelow : Emits g.below below)
    (habove : Emits g.above above) :
    Reads ("\n".intercalate (guardLines q n g) ++ "\n")
      (blockTokens (guardBranches q n below above)) := by
  have hcomment : Reads ("    // Handle edge cases" ++ "\n") [] := by decide
  have hless :=
    reads_guard hq 0 (by decide : Reads " < " [.symbol Relation.less.symbol]) (by decide) hbelow
  have hatLeast := reads_guard hq (n - 1) (by decide : Reads " >= " [.symbol Relation.atLeast.symbol])
    (by decide) habove
  have h := reads_cons_lines hcomment (by simp)
    (reads_append_lines hless (by simp) (List.cons_ne_nil _ _) hatLeast)
  simpa only [guardLines, List.cons_append, List.nil_append, guardBranches, blockTokens,
    List.append_nil] using h

theorem reads_searchLines (hq : Identifier q) (hlen : bins.length = codes.length) (hne : codes ≠ [])
    (hcodes : ∀ i < codes.length, Emits (codes.getD i "") (bins.getD i []))
    (hs : Follows (build 0 codes.length) s us) :
    Reads ("\n".intercalate (searchLines q codes) ++ s) (blockTokens (search q bins) ++ us) := by
  have hempty : Reads ("" ++ "\n") [] := by decide
  have hcomment :
      Reads ("    // Binary search implemented as a balanced decision tree with if/else statements"
      ++ "\n") [] := by decide +kernel
  have hleaves : ∀ i ∈ (build 0 codes.length).leaves, Emits (codes.getD i "") (bins.getD i []) := by
    rw [leaves_build (List.length_pos_iff.2 hne)]
    intro i hi
    exact hcodes i (by simpa using hi)
  have hentries := reads_entries hq (by decide : Reads "    " []) 0 _ hleaves hs
  have h := reads_cons_lines hempty (by simp)
    (reads_cons_lines hcomment (by simp [entries_ne_nil]) hentries)
  simpa only [searchLines, List.cons_append, List.nil_append, search, hlen] using h

/-- **The lines of a binning are its statements.** -/
theorem reads_listing (hq : Identifier q) (hlen : bins.length = codes.length) (hne : codes ≠ [])
    (hbelow : Emits g.below below) (habove : Emits g.above above)
    (hcodes : ∀ i < codes.length, Emits (codes.getD i "") (bins.getD i []))
    (hs : Follows (build 0 codes.length) s us) :
    Reads ("\n".intercalate (listing q edges g codes) ++ s)
      (blockTokens (program q edges below above bins) ++ us) := by
  have hsearch := reads_searchLines hq hlen hne hcodes hs
  have hfront := reads_append_lines (reads_arrayLines edges) (by simp [arrayLines])
    (by simp [guardLines]) (reads_guardLines hq edges.length hbelow habove)
  have h := reads_append_lines hfront (by simp [arrayLines]) (by simp [searchLines]) hsearch
  simpa only [listing, program, blockTokens_append, List.append_assoc] using h

theorem closed_program_of_lt (q : String) (edges : List Edge) (below above : Block)
    (h : 1 < bins.length) :
    closed (program q edges below above bins) = program q edges below above bins ++ [.empty] := by
  refine closed_of_endsInBranch ?_
  rw [program, search, build_of_lt h, statements, endsInBranch_append _ (by simp)]
  rfl

theorem closed_program_of_eq (q : String) (edges : List Edge) (below above : Block)
    (h : bins.length = 1) :
    closed (program q edges below above bins) = program q edges below above bins := by
  have hends : endsInBranch (program q edges below above bins) = false := by
    rw [program, search, h, build_of_le (Nat.le_refl 1), statements]
    by_cases hnil : closed (bins.getD 0 []) = []
    · rw [hnil, List.append_nil]
      rfl
    · rw [endsInBranch_append _ hnil]
      exact endsInBranch_closed _
  rw [closed, hends, if_neg Bool.false_ne_true]

/-- With a semicolon behind them the lines of a binning are its statements too. A single bin ends in a
comment, which the semicolon becomes a part of. -/
theorem emits_listing (hq : Identifier q) (hlen : bins.length = codes.length) (hne : codes ≠ [])
    (hbelow : Emits g.below below) (habove : Emits g.above above)
    (hcodes : ∀ i < codes.length, Emits (codes.getD i "") (bins.getD i [])) :
    Emits ("\n".intercalate (listing q edges g codes)) (program q edges below above bins) := by
  intro trail htrail
  have hpos : 0 < codes.length := List.length_pos_iff.2 hne
  rcases Nat.eq_or_lt_of_le hpos with hone | hmany
  · have hfollows : Follows (build 0 codes.length) (";" ++ trail ++ "\n") [] := by
      rw [build_of_le (Nat.le_of_eq hone.symm)]
      refine ⟨rfl, ";" ++ trail, ?_, rfl⟩
      rw [String.toList_append, List.mem_append, not_or]
      exact ⟨by decide, htrail.newline_notMem⟩
    have h := @reads_listing _ _ _ edges _ _ _ _ _ hq hlen hne hbelow habove hcodes hfollows
    rwa [closed_program_of_eq _ _ _ _ (by omega), ← List.append_nil (blockTokens _)]
  · have hfollows : Follows (build 0 codes.length) (";" ++ trail ++ "\n") [.symbol .semicolon] := by
      rw [build_of_lt hmany]
      exact htrail.reads
    have h := @reads_listing _ _ _ edges _ _ _ _ _ hq hlen hne hbelow habove hcodes hfollows
    rwa [closed_program_of_lt _ _ _ _ (by omega), blockTokens_append]

end Binning

/-! ## Contents -/

/-- Every input of a binning in the content has the property `P`. -/
inductive Content.AllInputs (P : String → Prop) : Content → Prop
  | datum (d : Datum) : AllInputs P (.datum d)
  | binning {input : String} {edges : Edges} {bins : List Content} {flow : Flow Content} :
    P input → (∀ c ∈ bins, AllInputs P c) → (∀ c, flow = .value c → AllInputs P c) →
      AllInputs P (.binning input edges bins flow)
  | category {input : String} {items : List (CategoryItem Content)} {fallback : Option Content} :
    AllInputs P (.category input items fallback)
  | unsupported (kind : UnsupportedKind) : AllInputs P (.unsupported kind)

theorem Content.AllInputs.of_binning {P : String → Prop} {input : String} {edges : Edges}
    {bins : List Content} {flow : Flow Content}
    (h : (Content.binning input edges bins flow).AllInputs P) :
    P input ∧ (∀ c ∈ bins, c.AllInputs P) ∧ ∀ c, flow = .value c → c.AllInputs P := by
  rcases h with _ | ⟨hinput, hbins, hflow⟩
  exact ⟨hinput, hbins, hflow⟩

theorem Content.AllInputs.mono {P Q : String → Prop} (hPQ : ∀ q, P q → Q q) {c : Content}
    (h : c.AllInputs P) : c.AllInputs Q := by
  induction h with
  | datum d => exact .datum d
  | binning hinput _ _ ihbins ihflow => exact .binning (hPQ _ hinput) ihbins ihflow
  | category => exact .category
  | unsupported kind => exact .unsupported kind

theorem Content.AllInputs.usedInputs {P : String → Prop} {c : Content} (h : c.AllInputs P) :
    c.UsedInputs P := by
  induction h with
  | datum d => exact .datum d
  | binning hinput _ _ ihbins ihflow =>
    exact .binning hinput (fun c hc => ihbins c (List.mem_of_mem_take hc)) ihflow
  | category => exact .category
  | unsupported kind => exact .unsupported kind

theorem Content.UsedInputs.of_binning {P : String → Prop} {input : String} {edges : Edges}
    {bins : List Content} {flow : Flow Content}
    (h : (Content.binning input edges bins flow).UsedInputs P) :
    P input ∧ (∀ c ∈ bins.take (edges.size - 1), c.UsedInputs P) ∧
      ∀ c, flow = .value c → c.UsedInputs P := by
  rcases h with _ | ⟨hinput, hbins, hflow⟩
  exact ⟨hinput, hbins, hflow⟩

variable {target : Target}

/-- Written code that is no binning is one `return`. -/
theorem Content.written_cases {c : Content} {text : String} (h : c.written target = .ok text) :
    (∃ w l, text = "return " ++ w ∧ ReadsAs w l.tokens ∧ c.program target = [.return_ l]) ∨
      ∃ input edges bins flow, c = .binning input edges bins flow := by
  cases c with
  | datum d =>
    by_cases hd : ∃ x, d = .scalar (.real x)
    · obtain ⟨x, rfl⟩ := hd
      cases h
      have hx := readsAs_ofNumber (.inl rfl) x
      rw [String.append_empty] at hx
      exact .inl ⟨x.text, _, rfl, hx, rfl⟩
    · rw [Content.written_datum target fun x hx => hd ⟨x, hx⟩] at h
      cases h
  | binning input edges bins flow => exact .inr ⟨input, edges, bins, flow, rfl⟩
  | category input items fallback =>
    cases h
    have hcode : categoryCode = "return " ++ "42.f" := by decide
    exact .inl ⟨"42.f", categoryLiteral, hcode, readsAs_number (by decide), rfl⟩
  | unsupported kind => cases h

section
variable {write : Content → Compiled} {bins : List Content} {n : Nat}

theorem emits_binAt
    (hbins : ∀ c ∈ bins.take n, ∀ {text}, write c = .ok text → Emits text (c.program target))
    {i : Nat} (hi : i < n) {code : String} (h : Binning.binAt (bins.map write) i = .ok code) :
    Emits code ((Content.programs target bins).getD i []) := by
  rw [Binning.binAt_eq_ok_iff, List.getElem?_map, Option.map_eq_some_iff] at h
  obtain ⟨c, hc, hcode⟩ := h
  rw [getD_programs hc]
  refine hbins c (List.mem_of_getElem? (i := i) ?_) hcode
  rw [List.getElem?_take_of_lt hi, hc]

theorem emits_firstBins
    (hbins : ∀ c ∈ bins.take n, ∀ {text}, write c = .ok text → Emits text (c.program target))
    {codes : List String} (h : Binning.firstBins (bins.map write) n = .ok codes) :
    codes.length = n ∧ ((Content.programs target bins).take n).length = codes.length ∧
      ∀ i < codes.length,
        Emits (codes.getD i "") (((Content.programs target bins).take n).getD i []) := by
  obtain ⟨htake, rfl⟩ := Binning.firstBins_eq_ok_iff.1 h
  refine ⟨rfl, ?_, fun i hi => ?_⟩
  · have hlen := congrArg List.length htake
    simpa [Content.programs_eq_map] using hlen
  · have hbin : Binning.binAt (bins.map write) i = .ok (codes.getD i "") := by
      have hcode := congrArg (·[i]?) htake
      simp only [List.getElem?_take, if_pos hi, List.getElem?_map, List.getElem?_eq_getElem hi,
        Option.map_some] at hcode
      rw [Binning.binAt_eq_ok_iff, List.getElem?_map, hcode, List.getD_eq_getElem?_getD,
        List.getElem?_eq_getElem hi]
      rfl
    have hget : ((Content.programs target bins).take codes.length).getD i [] =
        (Content.programs target bins).getD i [] := by
      simp [List.getD_eq_getElem?_getD, hi]
    rw [hget]
    exact emits_binAt hbins hi hbin

theorem emits_guards (hq : Identifier q) {flow : Flow Content}
    (hbins : ∀ c ∈ bins.take (n - 1), ∀ {text}, write c = .ok text → Emits text (c.program target))
    (hflow : ∀ c, flow = .value c → ∀ {text}, write c = .ok text → Emits text (c.program target))
    (hn : 2 ≤ n) {g : Binning.Guards}
    (h : Binning.guards q target n (bins.map write) (flow.map write) = .ok g) :
    Emits g.below (Binning.belowBlock q target (Content.programs target bins)
        (Content.flowProgram target flow)) ∧
      Emits g.above (Binning.aboveBlock n (Content.programs target bins)
        (Content.flowProgram target flow)) := by
  cases flow with
  | clamp =>
    obtain ⟨below, hbelow, h'⟩ := bind_eq_ok_iff.1 h
    obtain ⟨above, habove, ⟨⟩⟩ := bind_eq_ok_iff.1 h'
    rw [Binning.lastBin_eq hn] at habove
    exact ⟨emits_binAt hbins (by omega) hbelow, emits_binAt hbins (by omega) habove⟩
  | error =>
    obtain ⟨above, habove, ⟨⟩⟩ := bind_eq_ok_iff.1 h
    rw [Binning.lastBin_eq hn] at habove
    exact ⟨emits_failure hq target, emits_binAt hbins (by omega) habove⟩
  | value c =>
    obtain ⟨code, hcode, ⟨⟩⟩ := bind_eq_ok_iff.1 h
    exact ⟨hflow c rfl hcode, hflow c rfl hcode⟩

end

/-- The step of the induction over contents: the code of a binning, from the codes of its parts. -/
theorem emits_binning {input : String} {edges : Edges} {bins : List Content} {flow : Flow Content}
    (hinput : Identifier input)
    (hbins : ∀ c ∈ bins.take (edges.size - 1), ∀ {text}, c.written target = .ok text →
      Emits text (c.program target))
    (hflow : ∀ c, flow = .value c → ∀ {text}, c.written target = .ok text →
      Emits text (c.program target))
    {text : String} (h : (Content.binning input edges bins flow).written target = .ok text) :
    Emits text ((Content.binning input edges bins flow).program target) ∧
      Reads (text ++ "\n") (blockTokens ((Content.binning input edges bins flow).program target)) := by
  rw [Content.written_binning_eq] at h
  obtain ⟨es, g, codes, hread, hlen, -, hg, hcodes, rfl⟩ := Binning.template_eq_ok_iff.1 h
  rw [Edges.size_of_read hread] at hbins
  obtain ⟨hbelow, habove⟩ := emits_guards hinput hbins hflow hlen hg
  obtain ⟨hcount, hblocks, hemits⟩ := emits_firstBins hbins hcodes
  have hne : codes ≠ [] := List.length_pos_iff.1 (by omega)
  rw [Content.program_binning hread]
  refine ⟨Binning.emits_listing hinput hblocks hne hbelow habove hemits, ?_⟩
  have h := @Binning.reads_listing _ _ _ es _ _ _ _ _ hinput hblocks hne hbelow habove hemits
    (follows_newline _)
  rwa [List.append_nil] at h

theorem emits_written {c : Content} (hc : c.UsedInputs Identifier) {text : String}
    (h : c.written target = .ok text) : Emits text (c.program target) := by
  induction hc generalizing text with
  | binning hinput _ _ ihbins ihflow => exact (emits_binning hinput ihbins ihflow h).1
  | _ =>
    obtain ⟨w, l, rfl, hw, hprogram⟩ | ⟨input, edges, bins, flow, hbinning⟩ :=
      Content.written_cases h
    · rw [hprogram]
      exact emits_return hw
    · cases hbinning

theorem reads_written_binning {input : String} {edges : Edges} {bins : List Content} {flow : Flow Content}
    (hc : (Content.binning input edges bins flow).UsedInputs Identifier) {text : String}
    (h : (Content.binning input edges bins flow).written target = .ok text) :
    Reads (text ++ "\n") (blockTokens ((Content.binning input edges bins flow).program target)) := by
  obtain ⟨hinput, hbins, hflow⟩ := hc.of_binning
  exact (emits_binning hinput (fun c hmem => emits_written (hbins c hmem))
    (fun c hvalue => emits_written (hflow c hvalue)) h).2

/-- **The written code of a content is read as its program.** -/
theorem statements?_written {c : Content} (hc : c.UsedInputs Identifier) {text : String}
    (h : c.written target = .ok text) : statements? text = some (c.program target) := by
  obtain ⟨w, l, rfl, hw, hprogram⟩ | ⟨input, edges, bins, flow, rfl⟩ := Content.written_cases h
  · rw [hprogram]
    refine statements?_return (tokens?_eq ?_)
    have hread := (by decide : Reads "return " [.keyword .return_]).append
      (hw "\n" [] (by decide) (by decide))
    simpa only [List.append_nil, List.cons_append, List.nil_append, String.append_assoc] using hread
  · exact statements?_eq (tokens?_eq (reads_written_binning hc h))

theorem statements?_printed {c : Content} (hc : c.printed.UsedInputs Identifier) {text : String}
    (h : c.compile target = .ok text) : statements? text = some (c.printed.program target) :=
  statements?_written hc ((c.compile_eq_written target).symm.trans h)

/-! ## Inputs without holes -/

theorem Content.AllInputs.renamed_eq {f : String → String} {c : Content}
    (h : c.AllInputs fun q => f q = q) : c.renamed f = c := by
  induction h with
  | datum d => rfl
  | binning hinput _ _ ihbins ihflow =>
    rw [renamed_binning_eq, hinput, map_eq_self ihbins, Flow.map_eq_self ihflow]
  | category => rfl
  | unsupported kind => rfl

/-- Inputs without holes are printed as they are. -/
theorem Content.AllInputs.printed_eq {c : Content} (h : c.AllInputs Text.Clean) : c.printed = c := by
  induction h with
  | datum d => rfl
  | @binning input edges bins flow _ hbins hflow ihbins ihflow =>
    have hpart : ∀ c : Content, c.AllInputs Text.Clean → c.printed = c →
        c.printed.renamed (Text.fill query input) = c := by
      intro c hc hprinted
      rw [hprinted]
      exact (hc.mono fun q hq => Text.fill_of_clean hq input).renamed_eq
    rw [printed_binning_eq, map_eq_self fun c hc => hpart c (hbins c hc) (ihbins c hc),
      Flow.map_eq_self fun c hc => hpart c (hflow c hc) (ihflow c hc)]
  | category => rfl
  | unsupported kind => rfl

theorem Content.AllInputs.printed_cleanName {c : Content} (h : c.AllInputs CleanName) :
    c.printed = c ∧ c.printed.UsedInputs Identifier := by
  have hprinted := (h.mono fun _ => CleanName.clean).printed_eq
  rw [hprinted]
  exact ⟨rfl, (h.mono fun _ => CleanName.toIdentifier).usedInputs⟩

section
variable {c : Content} (hc : c.AllInputs CleanName) {text : String} (h : c.compile target = .ok text)

include hc h

theorem written_of_compile : c.UsedInputs Identifier ∧ c.written target = .ok text := by
  obtain ⟨hprinted, hused⟩ := hc.printed_cleanName
  rw [c.compile_eq_written, hprinted] at h
  exact ⟨hprinted ▸ hused, h⟩

theorem emits_compile : Emits text (c.program target) := by
  obtain ⟨hused, hwritten⟩ := written_of_compile hc h
  exact emits_written hused hwritten

/-- **The code of a content is read as its program.** -/
theorem statements?_compile : statements? text = some (c.program target) := by
  obtain ⟨hused, hwritten⟩ := written_of_compile hc h
  exact statements?_written hused hwritten

end

theorem reads_compile_binning {input : String} {edges : Edges} {bins : List Content} {flow : Flow Content}
    (hc : (Content.binning input edges bins flow).AllInputs CleanName) {text : String}
    (h : (Content.binning input edges bins flow).compile target = .ok text) :
    Reads (text ++ "\n") (blockTokens ((Content.binning input edges bins flow).program target)) := by
  obtain ⟨hused, hwritten⟩ := written_of_compile hc h
  exact reads_written_binning hused hwritten

end Corrections
