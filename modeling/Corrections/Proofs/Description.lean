/-
  The description of a correction in its header.

  * `stripComments` removes the comments of a text: those between stars up to the first closing mark, and
    those behind two slashes up to the end of the line.
  * `Builder.comment d` is the comment that a description stands in.
  * `exists_stripComments_dump`: what is left of a header is what is left of that comment, between texts in
    which the description has no part.
  * `stripComments_dump_eq_iff`: so two descriptions make no difference to the code exactly when the same
    is left of their comments. A description without a closing mark leaves nothing.
-/
import Corrections.Proofs.Builder.Behaviour

namespace Corrections

namespace Text

/-- Where a character stands: in code, behind a slash that may begin a comment, in a comment to the end of
the line, in a comment between stars, or behind a star that may end it. -/
inductive Region where
  | code
  | slash
  | line
  | block
  | star
  deriving DecidableEq

/-- One character more, and what is kept of the text with it. -/
def Region.step : Region → Char → Region × List Char
  | .code, c => if c = '/' then (.slash, []) else (.code, [c])
  | .slash, c =>
    if c = '/' then (.line, []) else if c = '*' then (.block, []) else (.code, ['/', c])
  | .line, c => if c = '\n' then (.code, [c]) else (.line, [])
  | .block, c => if c = '*' then (.star, []) else (.block, [])
  | .star, c => if c = '/' then (.code, []) else if c = '*' then (.star, []) else (.block, [])

/-- What is kept of characters, and where the next one stands. -/
def keep : Region → List Char → Region × List Char
  | r, [] => (r, [])
  | r, c :: cs =>
    let first := r.step c
    let rest := keep first.1 cs
    (rest.1, first.2 ++ rest.2)

/-- A slash at the end begins no comment. -/
def Region.rest : Region → List Char
  | .slash => ['/']
  | _ => []

/-- The text without its comments. -/
def stripComments (s : String) : String :=
  let kept := keep .code s.toList
  String.ofList (kept.2 ++ kept.1.rest)

-- The first closing mark ends a comment, and a slash between stars ends none.
example : stripComments "a/*/ b */c // d\ne/" = "ac \ne/" := by decide +kernel

theorem keep_append (r : Region) (a b : List Char) :
    keep r (a ++ b) = ((keep (keep r a).1 b).1, (keep r a).2 ++ (keep (keep r a).1 b).2) := by
  induction a generalizing r with
  | nil => simp [keep]
  | cons c a ih => simp [keep, ih]

/-- Nothing is kept of a comment as long as it is not closed. -/
theorem keep_block {cs : List Char} (h : ¬['*', '/'] <:+: cs) :
    ∃ r, keep .block cs = (r, []) ∧ (r = .block ∨ r = .star) := by
  -- Behind a star the comment goes on if no slash follows.
  have hcomment : ∀ r : Region, r = .block ∨ r = .star ∧ cs.head? ≠ some '/' →
      ∃ r', keep r cs = (r', []) ∧ (r' = .block ∨ r' = .star) := by
    induction cs with
    | nil =>
      rintro r (rfl | ⟨rfl, -⟩)
      · exact ⟨_, rfl, .inl rfl⟩
      · exact ⟨_, rfl, .inr rfl⟩
    | cons c cs ih =>
      intro r hr
      have hstep : r.step c = (if c = '*' then .star else .block, []) := by
        rcases hr with rfl | ⟨rfl, hslash⟩
        · by_cases hc : c = '*' <;> simp [Region.step, hc]
        · have hc : c ≠ '/' := by simpa using hslash
          by_cases hstar : c = '*' <;> simp [Region.step, hc, hstar]
      have hnext : (if c = '*' then Region.star else .block) = .block ∨
          (if c = '*' then Region.star else .block) = .star ∧ cs.head? ≠ some '/' := by
        by_cases hc : c = '*'
        · refine .inr ⟨if_pos hc, fun hslash => h ?_⟩
          obtain ⟨rest, rfl⟩ := List.head?_eq_some_iff.1 hslash
          exact ⟨[], rest, by rw [hc]; rfl⟩
        · exact .inl (if_neg hc)
      obtain ⟨r', hkeep, hr'⟩ := ih (fun hin => h (List.infix_cons hin)) _ hnext
      exact ⟨r', by rw [keep, hstep, hkeep]; rfl, hr'⟩
  exact hcomment .block (.inl rfl)

end Text

open Text (keep keep_append keep_block stripComments)

namespace Builder

/-- The comment that a description stands in. -/
def comment (d : String) : String := "/*\n" ++ d ++ "\n*/\n"

/-- A comment that is not closed by what stands in it leaves a line break. -/
theorem stripComments_comment {d : String} (h : ¬['*', '/'] <:+: d.toList) :
    stripComments (comment d) = "\n" := by
  obtain ⟨r, hkeep, hr⟩ := keep_block h
  have hopen : keep .code "/*\n".toList = (.block, []) := by decide
  have hclose : keep r "\n*/\n".toList = (.code, ['\n']) := by
    rcases hr with rfl | rfl
    · decide
    · decide
  simp only [stripComments, comment, String.toList_append, keep_append, hopen, hkeep, hclose]
  rfl

/-- **What is left of a text with a comment in it** is what is left of the comment, between texts that do
not depend on it. The comment may itself stand in a comment, but not in one to the end of the line. -/
theorem exists_stripComments (front back : String) :
    ∃ before, ∀ d, stripComments (front ++ "\n        " ++ comment d ++ back) =
      before ++ stripComments (comment d) ++ stripComments back := by
  have hblank : ∀ r : Text.Region, (keep r "\n        ".toList).1 = .code ∨
      (keep r "\n        ".toList).1 = .block := by
    rintro (_ | _ | _ | _ | _) <;> decide
  have hopen : ∀ r : Text.Region, r = .code ∨ r = .block → keep r "/*\n".toList = (.block, []) := by
    rintro r (rfl | rfl) <;> decide
  have hclose : ∀ r : Text.Region, (keep r "\n*/\n".toList).1 = .code := by
    rintro (_ | _ | _ | _ | _) <;> decide
  refine ⟨String.ofList (keep .code (front ++ "\n        ").toList).2, fun d => ?_⟩
  rw [← String.toList_inj]
  simp only [stripComments, comment, String.toList_append, keep_append, hopen _ (hblank _), hclose,
    hopen _ (.inl rfl), String.toList_ofList, List.append_assoc, List.nil_append]
  simp [Text.Region.rest]

/-- A description that is not empty replaces the one before. -/
theorem setDescription_of_ne {d : String} (b : Builder) (hd : d ≠ "") :
    b.setDescription (some d) = { b with description := d } := by
  have hempty : d.isEmpty = false := by simpa using hd
  rw [setDescription, hempty, if_neg Bool.false_ne_true]

/-- A header is the comment of its description, between texts in which the description has no part. -/
theorem exists_headerText (b : Builder) (code : String) :
    ∃ front back, ∀ d, { b with description := d }.headerText code =
      front ++ "\n        " ++ comment d ++ back := by
  have hcut : "        /*\n" = "        " ++ "/*\n" := by decide
  have hcut' : "\n        " = "\n" ++ "        " := by decide
  refine ⟨"\n" ++ "        #include <stdlib.h>\n" ++ "        #include <stdio.h>\n" ++
    "        #include <float.h>\n" ++ "\n" ++ "        " ++ b.enums,
    "        float " ++ b.name ++ "(" ++ b.parameterList ++ ")\x7b\n" ++ b.statementText code ++ closing,
    fun d => ?_⟩
  unfold headerText opening comment
  rw [hcut, hcut']
  simp only [String.append_assoc]
  rfl

/-- **What is left of a header without its comments.** Only the comment of the description depends on the
description. -/
theorem exists_stripComments_dump {b : Builder} {text : String} (h : b.dump = .ok text) :
    ∃ before after, ∀ d, d ≠ "" → ∃ text', (b.setDescription (some d)).dump = .ok text' ∧
      stripComments text' = before ++ stripComments (comment d) ++ after := by
  obtain ⟨hparams, hblank, code, hcode, -⟩ := dump_eq_ok_iff.1 h
  obtain ⟨front, back, hheader⟩ := exists_headerText b code
  obtain ⟨before, hstrip⟩ := exists_stripComments front back
  refine ⟨before, stripComments back, fun d hd => ?_⟩
  rw [setDescription_of_ne b hd]
  exact ⟨_, dump_eq_ok_iff.2 ⟨hparams, hblank, code, hcode, rfl⟩, by rw [hheader, hstrip]⟩

end Builder

open Builder (comment)

/-- **What a description does to the code.** A header that can be generated can be generated with every
description. Without their comments, the headers for two descriptions are equal exactly when the same is left
of the two comments that the descriptions stand in. So they are equal if neither description holds the mark
that closes a comment. -/
theorem stripComments_dump_eq_iff {b : Builder} {text d₁ d₂ : String} (h : b.dump = .ok text)
    (hd₁ : d₁ ≠ "") (hd₂ : d₂ ≠ "") :
    ∃ text₁ text₂, (b.setDescription (some d₁)).dump = .ok text₁ ∧
      (b.setDescription (some d₂)).dump = .ok text₂ ∧
      (stripComments text₁ = stripComments text₂ ↔
        stripComments (comment d₁) = stripComments (comment d₂)) ∧
      (¬['*', '/'] <:+: d₁.toList → ¬['*', '/'] <:+: d₂.toList →
        stripComments text₁ = stripComments text₂) := by
  obtain ⟨before, after, hstrip⟩ := Builder.exists_stripComments_dump h
  obtain ⟨text₁, hdump₁, htext₁⟩ := hstrip d₁ hd₁
  obtain ⟨text₂, hdump₂, htext₂⟩ := hstrip d₂ hd₂
  have hiff : stripComments text₁ = stripComments text₂ ↔
      stripComments (comment d₁) = stripComments (comment d₂) := by
    rw [htext₁, htext₂, String.append_left_inj, String.append_right_inj]
  refine ⟨text₁, text₂, hdump₁, hdump₂, hiff, fun h₁ h₂ => hiff.2 ?_⟩
  rw [Builder.stripComments_comment h₁, Builder.stripComments_comment h₂]

theorem Builder.exists_dump_constantBin : ∃ text, (Builder.sample .constantBin).dump = .ok text :=
  Builder.exists_dump (by decide +kernel)

/-- Stars, slashes and marks that open comments may all stand in a description. -/
theorem stripComments_dump_marks :
    ∃ text text₁ text₂, (Builder.sample .constantBin).dump = .ok text ∧
      ((Builder.sample .constantBin).setDescription (some "// run C * / v4 /")).dump = .ok text₁ ∧
      ((Builder.sample .constantBin).setDescription (some "/* 2023 *")).dump = .ok text₂ ∧
      stripComments text₁ = stripComments text₂ := by
  obtain ⟨text, htext⟩ := Builder.exists_dump_constantBin
  obtain ⟨text₁, text₂, hdump₁, hdump₂, -, heq⟩ :=
    @stripComments_dump_eq_iff _ _ "// run C * / v4 /" "/* 2023 *" htext (by decide) (by decide)
  exact ⟨text, text₁, text₂, htext, hdump₁, hdump₂, heq (by decide) (by decide)⟩

/-- **A description can reach the code.** A closing mark in it ends the comment, and what stands behind the
mark is code. -/
theorem description_reaches_code :
    ∃ one x, Binary64.read? "1.0" = some one ∧ Binary64.read? "1.5" = some x ∧
      let steps : List Step :=
        [.addVariable ⟨"real", "x", .scalar (.real (.zero false)), .scalar (.real one), []⟩,
          .setContent (.binning "x" (.listed [.scalar (.real (.zero false)), .scalar (.real one)])
            [.constant x] .clamp)]
      let b := (Builder.performAll steps (Builder.new "sf" .c) (.start .absent [])).1
      b.description = "" ∧ ∃ text text₁ text₂, b.dump = .ok text ∧
        (b.setDescription (some "a")).dump = .ok text₁ ∧
        (b.setDescription (some "*/ int y; /*")).dump = .ok text₂ ∧
        stripComments text₁ ≠ stripComments text₂ := by
  refine ⟨.ofRank false (1023 * 2 ^ 52), .ofRank false (1023 * 2 ^ 52 + 2 ^ 51), by decide +kernel,
    by decide +kernel, ?_⟩
  intro steps b
  have hb : b = .sample .constantBin := by
    rw [show b = steps.foldl Builder.after _ from Builder.performAll_builder _ _ _]
    rfl
  clear_value b
  subst hb
  obtain ⟨text, htext⟩ := Builder.exists_dump_constantBin
  obtain ⟨before, after, hstrip⟩ := Builder.exists_stripComments_dump htext
  obtain ⟨text₁, hdump₁, htext₁⟩ := hstrip "a" (by decide)
  obtain ⟨text₂, hdump₂, htext₂⟩ := hstrip "*/ int y; /*" (by decide)
  refine ⟨rfl, text, text₁, text₂, htext, hdump₁, hdump₂, ?_⟩
  rw [htext₁, htext₂, ne_eq, String.append_left_inj, String.append_right_inj]
  decide

end Corrections
