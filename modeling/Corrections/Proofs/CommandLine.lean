/-
  Command lines that select corrections.

  * `PlainWord` is a word without a dash in front, and `OptionWord` a spelling of the option that
    selects corrections, whole or cut short. A `Selection` is such an option with the names behind
    it.
  * `ofWords_written`: the layout of a line keeps its selections apart, however many names each has.
  * `groups_selections`: of several selections the last one is left, and it takes no free word.
  * `parse_selections`: the file stands in front of the selections or behind a separator. Without
    either there is none, since the last selection takes all words up to the end.
-/
import Corrections.Proofs.Run

namespace Corrections.CommandLine

/-! ## Words -/

/-- A word without a dash in front. It may be empty. -/
structure PlainWord where
  text : String
  no_dash : text.toList.head? ≠ some '-'

/-- A spelling of the option that selects corrections. The first letter is needed to tell it from
the option that asks for help. -/
structure OptionWord where
  text : String
  long_enough : "--c".toList <+: text.toList
  cut_short : text.toList <+: correctionsOption.toList

namespace PlainWord

theorem read (w : PlainWord) : Word.read w.text = .ok (.plain w.text) := by
  unfold Word.read
  split
  next h => exact absurd (congrArg List.head? h) w.no_dash
  next => rfl

theorem ne_separator (w : PlainWord) : w.text ≠ separator :=
  fun h => w.no_dash (by rw [h]; rfl)

end PlainWord

/-- A word without an equals sign gives no value. -/
theorem splitValue_of_notMem {s : List Char} (h : '=' ∉ s) : splitValue s = (s, none) := by
  induction s with
  | nil => rfl
  | cons c s ih =>
    rw [List.mem_cons, not_or] at h
    rw [splitValue, if_neg (Ne.symm h.1), ih h.2]

namespace OptionWord

variable (w : OptionWord)

theorem exists_toList : ∃ rest, w.text.toList = '-' :: '-' :: 'c' :: rest := by
  obtain ⟨rest, hrest⟩ := w.long_enough
  exact ⟨rest, hrest.symm⟩

theorem ne_of_toList_ne {s : String} (h : ∀ rest, s.toList ≠ '-' :: '-' :: 'c' :: rest) :
    w.text ≠ s := by
  rintro rfl
  obtain ⟨rest, hrest⟩ := w.exists_toList
  exact h rest hrest

theorem ne_separator : w.text ≠ separator := w.ne_of_toList_ne (by simp [separator])

/-- Only one of the two long options begins so. -/
theorem longFlag?_text (value : Option String) :
    longFlag? w.text w.text value = .ok (some (.corrections value)) := by
  obtain ⟨rest, hrest⟩ := w.exists_toList
  have hhelp : w.text.toList.isPrefixOf helpOption.toList = false := by
    rw [hrest]
    rfl
  have hcorrections : w.text.toList.isPrefixOf correctionsOption.toList = true :=
    List.isPrefixOf_iff_prefix.2 w.cut_short
  simp [longFlag?, hhelp, hcorrections]

theorem knownFlag?_text : knownFlag? w.text = .ok (some (.corrections none)) := by
  have hvalue : splitValue w.text.toList = (w.text.toList, none) :=
    splitValue_of_notMem fun h => absurd (w.cut_short.subset h) (by decide)
  have hshort : w.text ≠ "-h" := w.ne_of_toList_ne (by simp)
  have hhelp : w.text ≠ helpOption := w.ne_of_toList_ne (by simp [helpOption])
  obtain ⟨rest, hrest⟩ := w.exists_toList
  -- The whole option is found at once, a part of it among the long options.
  by_cases hwhole : w.text = correctionsOption
  · rw [hwhole]
    rfl
  · have hlong := w.longFlag?_text none
    simp only [knownFlag?, hvalue, exactFlag?, String.ofList_toList, if_neg hshort, if_neg hhelp,
      if_neg hwhole, Option.map_none]
    rw [hrest]
    exact hlong

theorem read : Word.read w.text = .ok (.flag (.corrections none)) := by
  obtain ⟨rest, hrest⟩ := w.exists_toList
  unfold Word.read
  rw [hrest, w.knownFlag?_text]
  rfl

end OptionWord

/-! ## Layout -/

/-- An option that selects corrections, with the names behind it. -/
structure Selection where
  option : OptionWord
  names : List PlainWord
  names_ne_nil : names ≠ []

namespace Selection

/-- The selected names. -/
def texts (s : Selection) : List String := s.names.map PlainWord.text

/-- The words of a selection. -/
def line (s : Selection) : List String := s.option.text :: s.texts

/-- The words of several selections, one after the other. -/
def written (ss : List Selection) : List String := ss.flatMap line

/-- A selection as a part of a layout. -/
def group (s : Selection) : Flag × List String := (.corrections none, s.texts)

end Selection

/-- The words from the separator on, if there is one. -/
def behind : Option (List String) → List String
  | none => []
  | some words => separator :: words

namespace Layout

theorem ofWords_behind (tail : Option (List String)) : ofWords (behind tail) = .ok ⟨[], [], tail⟩ := by
  cases tail with
  | none => rfl
  | some words => rw [behind, ofWords, if_pos rfl]

/-- Plain words are put in front of those that lead already. -/
theorem ofWords_plain (ws : List PlainWord) {rest : List String} {l : Layout}
    (h : ofWords rest = .ok l) :
    ofWords (ws.map PlainWord.text ++ rest) =
      .ok { l with lead := ws.map PlainWord.text ++ l.lead } := by
  induction ws with
  | nil => exact h
  | cons w ws ih =>
    rw [List.map_cons, List.cons_append, ofWords, if_neg w.ne_separator, w.read, ih]
    rfl

/-- A selection takes all words that lead behind it. -/
theorem ofWords_line (s : Selection) {rest : List String} {l : Layout} (h : ofWords rest = .ok l) :
    ofWords (s.line ++ rest) = .ok ⟨[], (.corrections none, s.texts ++ l.lead) :: l.groups, l.tail⟩ := by
  rw [Selection.line, List.cons_append, ofWords, if_neg s.option.ne_separator, s.option.read,
    Selection.texts, ofWords_plain s.names h]

/-- **The layout keeps the selections apart**, if no word leads behind them. -/
theorem ofWords_written (ss : List Selection) {rest : List String}
    {groups : List (Flag × List String)} {tail : Option (List String)}
    (h : ofWords rest = .ok ⟨[], groups, tail⟩) :
    ofWords (Selection.written ss ++ rest) = .ok ⟨[], ss.map Selection.group ++ groups, tail⟩ := by
  induction ss with
  | nil => exact h
  | cons s ss ih =>
    rw [Selection.written, List.flatMap_cons, List.append_assoc, ← Selection.written,
      ofWords_line s ih, List.append_nil]
    rfl

end Layout

/-! ## Reading -/

namespace Reading

/-- One selection replaces the one before it. -/
theorem group_selection (r : Reading) (s : Selection) :
    r.group s.group.1 s.group.2 =
      .ok { r with corrections := some s.texts, fileLast := false } := by
  have hne : s.texts.isEmpty = false := by simp [Selection.texts, s.names_ne_nil]
  simp [Selection.group, group, hne]

/-- **Of several selections the last one is left.** The file and the surplus are as before. -/
theorem groups_selections (r : Reading) (before : List Selection) (last : Selection) :
    r.groups ((before ++ [last]).map Selection.group) =
      .ok { r with corrections := some last.texts, fileLast := false } := by
  induction before generalizing r with
  | nil =>
    rw [List.nil_append, List.map_singleton, groups, r.group_selection]
    rfl
  | cons s before ih =>
    rw [List.cons_append, List.map_cons, groups, r.group_selection]
    exact ih _

end Reading

/-- A line with selections comes down to the words in front of them and behind the separator. -/
theorem parse_written (lead : List PlainWord) (before : List Selection) (last : Selection)
    (tail : Option (List String)) :
    parse (lead.map PlainWord.text ++ (Selection.written (before ++ [last]) ++ behind tail)) =
      ({ Reading.start.words (lead.map PlainWord.text) with
          corrections := some last.texts, fileLast := false }.tail tail).finish := by
  rw [parse, Layout.ofWords_plain lead (Layout.ofWords_written _ (Layout.ofWords_behind tail)),
    List.append_nil, List.append_nil]
  simp only [Reading.groups_selections]

/-- How a run without a file ends. -/
theorem ending_missingFile :
    (Failure.commandLine (.usage .missingFile)).ending = .exits 2 "" (usageText ++
      "corrcc: error: the following arguments are required: input_json_file\n") := by
  have hmessage : "corrcc: error: " ++ (UsageError.missingFile.message ++ "\n") =
      "corrcc: error: the following arguments are required: input_json_file\n" := by decide +kernel
  rw [Failure.ending, Stop.ending, UsageError.report, String.append_assoc, String.append_assoc,
    hmessage]

/-- **Where the file stands.** For any number of selections, each with any number of names and its
option spelled in any way, a file in front of them is found and the last selection counts. The same
holds of a word behind a separator, which may even look like an option. With neither of them the
file is missing: the last selection takes every word, and the program exits with code 2 before it
does anything. -/
theorem parse_selections (file : PlainWord) (word : String) (before : List Selection)
    (last : Selection) :
    let line := Selection.written (before ++ [last])
    parse (file.text :: line) = .ok ⟨file.text, some last.texts⟩ ∧
      parse (line ++ [separator, word]) = .ok ⟨word, some last.texts⟩ ∧
      parse line = .error (.usage .missingFile) ∧
      (∀ corrections w, run line corrections w = .error (.commandLine (.usage .missingFile)) w) ∧
      (Failure.commandLine (.usage .missingFile)).ending = .exits 2 "" (usageText ++
        "corrcc: error: the following arguments are required: input_json_file\n") := by
  intro line
  have hfront := parse_written [file] before last none
  have hbehind := parse_written [] before last (some [word])
  have hmissing := parse_written [] before last none
  rw [behind, List.append_nil] at hfront hmissing
  exact ⟨hfront, hbehind, hmissing, run_eq_error hmissing, ending_missingFile⟩

/-- Two selections with different spellings of the option, one of them with an empty name. -/
theorem two_selections_parsed :
    parse ["in.json", "--c", "a", "", "--corr", "b"] = .ok ⟨"in.json", some ["b"]⟩ ∧
      parse ["--c", "a", "", "--corr", "b", "--", "in.json"] = .ok ⟨"in.json", some ["b"]⟩ ∧
      parse ["--c", "a", "", "--corr", "b"] = .error (.usage .missingFile) := by
  let first : Selection :=
    ⟨⟨"--c", by decide, by decide⟩, [⟨"a", by decide⟩, ⟨"", by decide⟩], by simp⟩
  let last : Selection := ⟨⟨"--corr", by decide, by decide⟩, [⟨"b", by decide⟩], by simp⟩
  obtain ⟨hfront, hbehind, hmissing, -⟩ :=
    parse_selections ⟨"in.json", by decide⟩ "in.json" [first] last
  exact ⟨hfront, hbehind, hmissing⟩

example : parse ["--c", "a", "in.json"] = .error (.usage .missingFile) := by decide

end Corrections.CommandLine
