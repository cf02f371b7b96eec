/-
  Which files a run leaves.

  * `Workspace.LeadsTo ws d`: the directories of `ws` are those on the way to `d`. In a run `d` is the
    directory of the headers, and it stays so, since a run makes no other directory.
  * `climb d here names` is where names lead then: they stay, go up, or come back down on the way to `d`.
  * `HeaderIn home name here`: a run can put down the header of a correction with that name, and `here` is
    the directory it stands in.
  * `run_files_iff`: a run leaves the files that the corrections it comes to put down, and they are all in the
    directory of the headers exactly when none of these corrections has a name that leads out of it.
-/
import Corrections.Proofs.Isolation

namespace Corrections

namespace Workspace
variable {ws : Workspace} {d here there : Place} {name : String} {route : List String}

/-! ## Names of headers -/

theorem parts_append {tail : List Char} (h : '/' ∉ tail) (cs : List Char) :
    parts (cs ++ tail) = (parts cs).dropLast ++ [(parts cs).getLastD [] ++ tail] := by
  induction cs with
  | nil =>
    rw [List.nil_append, parts_eq, Text.splitOn_of_notMem h]
    rfl
  | cons c cs ih =>
    obtain ⟨part, rest, hparts⟩ := List.exists_cons_of_ne_nil
      (show parts cs ≠ [] by rw [parts_eq]; exact List.splitOn_ne_nil _ _)
    rw [List.cons_append, parts, ih, parts, hparts]
    by_cases hc : c = '/'
    · simp [hc]
    · cases rest with
      | nil => simp [hc]
      | cons part' rest => simp [hc]

/-- What stands behind the last slash of a path belongs to its last name. -/
theorem names_append_of_notMem {back : String} (h : '/' ∉ back.toList) (front : String) :
    names (front ++ back) = (names front).dropLast ++ [(names front).getLastD "" ++ back] := by
  have hlast : ∀ parts : List (List Char),
      String.ofList (parts.getLastD []) = (parts.map String.ofList).getLastD "" := by
    intro parts
    cases parts using List.reverseRecOn with
    | nil => rfl
    | append_singleton parts part => simp
  rw [names, String.toList_append, parts_append h, List.map_append, List.map_dropLast, names, ← hlast]
  simp [String.ofList_append]

/-! ## Directories on the way to one of them -/

/-- The directories are those on the way to `d`. -/
def LeadsTo (ws : Workspace) (d : Place) : Prop := ∀ p, ws.node? p = some .directory ↔ p <+: d

/-- Where names lead from `here`, if the directories are those on the way to `d`. -/
def climb (d : Place) : Place → List String → Option Place
  | here, [] => some here
  | here, name :: rest =>
    if name = "" ∨ name = "." then climb d here rest
    else if name = ".." then climb d here.dropLast rest
    else if ¬nameLimit < name.utf8ByteSize ∧ here ++ [name] <+: d then climb d (here ++ [name]) rest
    else none

theorem leadsTo_empty (home : Place) : (empty home).LeadsTo home := by
  intro p
  unfold node?
  rw [← List.isPrefixOf_iff_prefix]
  split_ifs with hp
  · exact iff_of_true rfl hp
  · exact iff_of_false (by rintro ⟨⟩) hp

namespace LeadsTo

/-- A directory that is put down at the end of the way prolongs it. -/
theorem set_directory (h : ws.LeadsTo ws.home) :
    (ws.set (ws.home ++ [name]) .directory).LeadsTo (ws.home ++ [name]) := by
  intro p
  rw [node?_set, List.prefix_concat_iff, ← h p]
  split_ifs with hp hself
  · exact iff_of_true rfl (.inr (by rw [node?, if_pos hp]))
  · exact iff_of_true rfl (.inl hself.symm)
  · exact (or_iff_right (Ne.symm hself)).symm

/-- Files change no directory. -/
theorem set_file (h : ws.LeadsTo d) {p : Place} (hp : ws.node? p ≠ some .directory) (text : String) :
    (ws.set p (.file text)).LeadsTo d := by
  intro q
  rw [node?_set_file hp, ← h q]
  split_ifs with hq
  · rw [← hq]
    exact iff_of_false (by simp) hp
  · rfl

/-- From what is no directory no walk leads to one. -/
theorem not_walk (hhere : ws.node? here ≠ some .directory) (hwalk : ws.walk here route = .ok there) :
    ws.node? there ≠ some .directory := by
  cases route with
  | nil =>
    cases hwalk
    exact hhere
  | cons name rest =>
    rw [walk, step, if_pos hhere] at hwalk
    cases hwalk

/-- **A walk leads to a directory exactly when one can climb there.** -/
theorem walk_iff (h : ws.LeadsTo d) (hhere : here <+: d) :
    ws.walk here route = .ok there ∧ ws.node? there = some .directory ↔
      climb d here route = some there := by
  induction route generalizing here with
  | nil =>
    rw [walk, climb, Except.ok.injEq, Option.some.injEq]
    refine and_iff_left_of_imp ?_
    rintro rfl
    exact (h _).2 hhere
  | cons name rest ih =>
    have hdirectory := (h here).2 hhere
    rw [walk, climb]
    by_cases hstay : name = "" ∨ name = "."
    · have hstep : ws.step here name = .ok here := by simp [step, hdirectory, hstay]
      rw [hstep, if_pos hstay]
      exact ih hhere
    rw [if_neg hstay]
    by_cases hup : name = ".."
    · have hstep : ws.step here name = .ok here.dropLast := by simp [step, hdirectory, hup]
      rw [hstep, if_pos hup]
      exact ih ((List.dropLast_prefix here).trans hhere)
    rw [if_neg hup]
    by_cases hdown : ¬nameLimit < name.utf8ByteSize ∧ here ++ [name] <+: d
    · have hstep : ws.step here name = .ok (here ++ [name]) := by
        simp [step, hdirectory, hstay, hup, hdown.1, (h (here ++ [name])).2 hdown.2]
      rw [hstep, if_pos hdown]
      exact ih hdown.2
    -- The name is too long, or what has it is a file or nothing at all.
    rw [if_neg hdown]
    refine iff_of_false ?_ (by simp)
    rintro ⟨hwalk, hthere⟩
    cases hstep : ws.step here name with
    | error fault =>
      rw [hstep] at hwalk
      cases hwalk
    | ok next =>
      rw [hstep] at hwalk
      unfold step at hstep
      split_ifs at hstep with hnode hlong hsome
      cases hstep
      exact not_walk (fun hnext => hdown ⟨hlong, (h _).1 hnext⟩) hwalk hthere

end LeadsTo

/-- One never climbs beside the way. -/
theorem climb_prefix (hhere : here <+: d) (h : climb d here route = some there) : there <+: d := by
  induction route generalizing here with
  | nil =>
    cases h
    exact hhere
  | cons name rest ih =>
    rw [climb] at h
    split_ifs at h with hstay hup hdown
    · exact ih hhere h
    · exact ih ((List.dropLast_prefix here).trans hhere) h
    · exact ih hdown.2 h

/-- From the end of the way one leaves it only upwards. -/
theorem climb_of_notMem (hup : ".." ∉ route) (h : climb d d route = some there) : there = d := by
  induction route with
  | nil =>
    cases h
    rfl
  | cons name rest ih =>
    rw [List.mem_cons, not_or] at hup
    rw [climb, if_neg (Ne.symm hup.1)] at h
    split_ifs at h with hstay hdown
    · exact ih hup.2 h
    · have hlength := hdown.2.length_le
      rw [List.length_append, List.length_singleton] at hlength
      omega

end Workspace

open Workspace

/-! ## Where a header goes -/

/-- The directory that the headers of a run belong in. -/
def headerDirectory (home : Place) : Place := home ++ [Builder.defaultDirectory]

/-- The name of the file that the header of a correction is in. -/
def headerEntry (name : String) : String := (names name).getLastD "" ++ ".h"

/-- The header of a correction with the given name can be put down in a run, in the directory `here`. -/
structure HeaderIn (home : Place) (name : String) (here : Place) : Prop where
  noNull : hasNull (headerFile name) = false
  sound : pathFault? (headerFile name) = none
  climbs : climb (headerDirectory home) (headerDirectory home) (names name).dropLast = some here
  short : ¬nameLimit < (headerEntry name).utf8ByteSize
  free : ¬here ++ [headerEntry name] <+: headerDirectory home

/-- The directory of the headers holds a header exactly when it stands right in it. -/
theorem HeaderIn.inside_iff {home here : Place} {name : String} (h : HeaderIn home name here) :
    headerDirectory home <+: here ++ [headerEntry name] ↔ here = headerDirectory home := by
  have hhere : here <+: headerDirectory home := climb_prefix (List.prefix_refl _) h.climbs
  constructor
  · intro hinside
    rcases List.prefix_concat_iff.1 hinside with heq | hprefix
    · exact absurd (heq ▸ List.prefix_refl _) h.free
    · exact hhere.eq_of_length_le hprefix.length_le
  · rintro rfl
    exact List.prefix_append _ _

/-- The header of a correction with the given name can be put down in a run, at the place `p`. -/
def HeaderAt (home : Place) (name : String) (p : Place) : Prop :=
  ∃ here, HeaderIn home name here ∧ p = here ++ [headerEntry name]

theorem HeaderAt.unique {home p q : Place} {name : String} (hp : HeaderAt home name p)
    (hq : HeaderAt home name q) : p = q := by
  obtain ⟨here, hin, rfl⟩ := hp
  obtain ⟨here', hin', rfl⟩ := hq
  rw [Option.some.inj (hin.climbs.symm.trans hin'.climbs)]

theorem names_headerFile_eq (name : String) :
    names (headerFile name) =
      Builder.defaultDirectory :: (names name).dropLast ++ [headerEntry name] := by
  have hdirectory : names Builder.defaultDirectory = [Builder.defaultDirectory] :=
    names_of_notMem (by decide)
  rw [headerFile, String.append_assoc, names_append, hdirectory, names_append_of_notMem (by decide)]
  rfl

variable {home here p : Place} {ws ws' : Workspace} {name : String}

theorem opens_header_iff (hhome : ws.home = home) (hws : ws.LeadsTo (headerDirectory home))
    (last : String) :
    ws.Opens (headerFile name) here last ∧ hasNull (headerFile name) = false ↔
      HeaderIn home name here ∧ last = headerEntry name := by
  have hdown : ¬nameLimit < Builder.defaultDirectory.utf8ByteSize ∧
      home ++ [Builder.defaultDirectory] <+: headerDirectory home :=
    ⟨by decide, List.prefix_refl _⟩
  have hclimb : ws.walk (ws.start (headerFile name)) (names (headerFile name)).dropLast = .ok here ∧
        ws.node? here = some .directory ↔
      climb (headerDirectory home) (headerDirectory home) (names name).dropLast = some here := by
    rw [start_headerFile, names_headerFile_eq, List.dropLast_concat, hhome,
      hws.walk_iff (List.prefix_append _ _), climb, if_neg (by decide), if_neg (by decide),
      if_pos hdown]
    rfl
  have hlast : (names (headerFile name)).getLastD "" = headerEntry name := by
    rw [names_headerFile_eq, List.getLastD_concat]
  have hfree : ws.node? (here ++ [headerEntry name]) ≠ some .directory ↔
      ¬here ++ [headerEntry name] <+: headerDirectory home := not_congr (hws _)
  constructor
  · rintro ⟨h, hnull⟩
    have hname : last = headerEntry name := h.last.symm.trans hlast
    refine ⟨⟨hnull, h.sound, hclimb.1 ⟨h.walk, h.directory⟩, ?_, hfree.1 ?_⟩, hname⟩
    · exact hname ▸ h.short
    · exact hname ▸ h.free
  · rintro ⟨h, rfl⟩
    obtain ⟨hwalk, hdirectory⟩ := hclimb.2 h.climbs
    exact ⟨⟨h.sound, hwalk, hdirectory, hlast, isDots_header _, h.short, hfree.2 h.free⟩, h.noNull⟩

/-- **Whether and where a header is opened** does not depend on the files that are there. -/
theorem openFile_header_iff (hhome : ws.home = home) (hws : ws.LeadsTo (headerDirectory home)) :
    ws.openFile (headerFile name) = .ok (p, ws') ↔
      HeaderAt home name p ∧ ws' = ws.set p (.file "") := by
  rw [openFile_eq_ok_iff, newFile_eq_ok_iff]
  constructor
  · rintro ⟨hnull, here, last, hopens, rfl, rfl⟩
    obtain ⟨hin, rfl⟩ := (opens_header_iff hhome hws last).1 ⟨hopens, hnull⟩
    exact ⟨⟨here, hin, rfl⟩, rfl⟩
  · rintro ⟨⟨here, hin, rfl⟩, rfl⟩
    obtain ⟨hopens, hnull⟩ := (opens_header_iff hhome hws _).2 ⟨hin, rfl⟩
    exact ⟨hnull, here, _, hopens, rfl, rfl⟩

/-! ## What a correction puts down -/

/-- The workspace of a run: the directories are those on the way to the directory of the headers, which may
still be missing. -/
structure Aligned (home : Place) (ws : Workspace) : Prop where
  home_eq : ws.home = home
  directories : ws.LeadsTo (headerDirectory home) ∨
    ws.LeadsTo home ∧ ws.node? (headerDirectory home) = none

theorem aligned_empty (home : Place) : Aligned home (.empty home) :=
  ⟨rfl, .inr ⟨leadsTo_empty home, node?_empty (by simp [headerDirectory])⟩⟩

theorem Aligned.makeDirectories (h : Aligned home ws) :
    ∃ ws₁, ws.makeDirectories Builder.defaultDirectory = (.ok (), ws₁) ∧ ws₁.home = home ∧
      ws₁.LeadsTo (headerDirectory home) := by
  obtain ⟨rfl, hmade | ⟨hhome, hnone⟩⟩ := h
  · exact ⟨ws, makeDirectories_of_directory ((hmade _).2 (List.prefix_refl _)), rfl, hmade⟩
  · exact ⟨_, makeDirectories_of_none hnone, rfl, hhome.set_directory⟩

/-- In the workspace of a run there are the files of `ws`, and new ones in the places `P`. -/
structure Gains (home : Place) (ws ws' : Workspace) (P : Place → Prop) : Prop where
  aligned : Aligned home ws'
  files : ∀ q, (ws'.text? q).isSome = true ↔ (ws.text? q).isSome = true ∨ P q

namespace Gains
variable {P Q : Place → Prop}

theorem congr (h : Gains home ws ws' P) (hPQ : ∀ q, P q ↔ Q q) : Gains home ws ws' Q :=
  ⟨h.aligned, fun q => by rw [h.files q, hPQ q]⟩

theorem refl (h : Aligned home ws) : Gains home ws ws fun _ => False :=
  ⟨h, fun q => by rw [or_false]⟩

theorem trans {ws₁ : Workspace} (h : Gains home ws ws₁ P) (h' : Gains home ws₁ ws' Q) :
    Gains home ws ws' fun q => P q ∨ Q q :=
  ⟨h'.aligned, fun q => by rw [h'.files q, h.files q, or_assoc]⟩

/-- A header that is opened is there afterwards. -/
theorem set_file (hhome : ws.home = home) (hws : ws.LeadsTo (headerDirectory home))
    (hopen : ws.openFile (headerFile name) = .ok (p, ws')) (text : String) :
    Gains home ws (ws.set p (.file text)) (HeaderAt home name) := by
  have hfree := (opened hopen).free
  have hp := ((openFile_header_iff hhome hws).1 hopen).1
  refine ⟨⟨hhome, .inl (hws.set_file hfree text)⟩, fun q => ?_⟩
  rw [text?_set_file hfree]
  split_ifs with hq
  · exact iff_of_true rfl (.inr (hq ▸ hp))
  · exact (or_iff_left fun hat => hq (hp.unique hat)).symm

end Gains

namespace Builder

/-- The header of a builder is put down where a file can have its place: without a formatter always, and
otherwise if it can be generated and the formatter ends with 0 for it. -/
def PutsDown (b : Builder) (formatter : Formatter) : Prop :=
  formatter = .absent ∨ ∃ text output, b.dump = .ok text ∧ formatter.output? text = some output

variable {b : Builder} {w : World}

section
variable {ws₁ : Workspace} (hmake : ws.makeDirectories defaultDirectory = (.ok (), ws₁))
  (hhome : ws₁.home = home) (hws : ws₁.LeadsTo (headerDirectory home)) {formatter : Formatter}
include hmake hhome hws

theorem gains_makeDirectories : Gains home ws ws₁ fun _ => False :=
  ⟨⟨hhome, .inl hws⟩, fun q => by rw [(grows_makeDirectories hmake).keeps q, or_false]⟩

theorem gains_of_not_putsDown (h : ¬b.PutsDown formatter) :
    Gains home ws ws₁ fun q => b.PutsDown formatter ∧ HeaderAt home b.name q :=
  (gains_makeDirectories hmake hhome hws).congr fun _ => iff_of_false id fun hq => h hq.1

theorem gains_of_not_opened {e : FileError} (hopen : ws₁.openFile (headerFile b.name) = .error e) :
    Gains home ws ws₁ fun q => b.PutsDown formatter ∧ HeaderAt home b.name q := by
  refine (gains_makeDirectories hmake hhome hws).congr fun q => iff_of_false id fun hq => ?_
  cases hopen.symm.trans ((openFile_header_iff hhome hws).2 ⟨hq.2, rfl⟩)

theorem gains_of_opened (h : b.PutsDown formatter)
    (hopen : ws₁.openFile (headerFile b.name) = .ok (p, ws')) (text : String) :
    Gains home ws (ws₁.set p (.file text))
      fun q => b.PutsDown formatter ∧ HeaderAt home b.name q := by
  refine ((gains_makeDirectories hmake hhome hws).trans (.set_file hhome hws hopen text)).congr
    fun q => ?_
  rw [false_or, and_iff_right h]

end

/-- **The files after a save.** The directory is made in any case; then the header is not to be put down, or
it has no place, or it is there. -/
theorem gains_save (haligned : Aligned home w.workspace) :
    Gains home w.workspace ((b.save defaultDirectory true).after w).workspace
      fun q => b.PutsDown w.formatter ∧ HeaderAt home b.name q := by
  obtain ⟨ws₁, hmake₁, hhome, hws⟩ := haligned.makeDirectories
  have hsaves := saves_save b defaultDirectory true w
  unfold Session.after
  generalize b.save defaultDirectory true w = r at hsaves
  cases hsaves with
  | noDirectory hmake => cases hmake₁.symm.trans hmake
  | notOpened hformats hmake hopen =>
    cases hmake₁.symm.trans hmake
    exact gains_of_not_opened hmake hhome hws hopen
  | @emptied e ws ws' p hformats hmake hopen hdump =>
    cases hmake₁.symm.trans hmake
    have habsent : w.formatter = .absent := by simpa [World.formats] using hformats
    show Gains home w.workspace ws' _
    rw [(opened hopen).workspace]
    exact gains_of_opened hmake hhome hws (.inl habsent) hopen ""
  | @written ws ws' p text hformats hmake hopen hdump =>
    cases hmake₁.symm.trans hmake
    have habsent : w.formatter = .absent := by simpa [World.formats] using hformats
    show Gains home w.workspace (ws'.write p text) _
    rw [(opened hopen).write_eq]
    exact gains_of_opened hmake hhome hws (.inl habsent) hopen text
  | notGenerated hformats hmake hdump =>
    cases hmake₁.symm.trans hmake
    refine gains_of_not_putsDown hmake hhome hws ?_
    rintro (habsent | ⟨text, output, htext, -⟩)
    · exact hformats.2 habsent
    · cases hdump.symm.trans htext
  | refused hformats hmake hdump hnone =>
    cases hmake₁.symm.trans hmake
    refine gains_of_not_putsDown hmake hhome hws ?_
    rintro (habsent | ⟨text, output, htext, hsome⟩)
    · exact hformats.2 habsent
    · cases hdump.symm.trans htext
      cases hnone.symm.trans hsome
  | formattedNotOpened hformats hmake hdump houtput hopen =>
    cases hmake₁.symm.trans hmake
    exact gains_of_not_opened hmake hhome hws hopen
  | @formattedWritten ws ws' p text output hformats hmake hdump houtput hopen =>
    cases hmake₁.symm.trans hmake
    have hputs : b.PutsDown w.formatter := .inr ⟨text, output, hdump, houtput⟩
    show Gains home w.workspace (ws'.write p output) _
    rw [(opened hopen).write_eq]
    exact gains_of_opened hmake hhome hws hputs hopen _

end Builder

/-! ## What a run leaves -/

namespace Correction
variable {c : Correction} {cs : List Correction} {w : World}

/-- The correction can be built, and its header is put down where a file can have its place. -/
def PutsDown (c : Correction) (formatter : Formatter) : Prop :=
  ∃ b, c.builder? = .ok b ∧ b.PutsDown formatter

theorem gains_process (haligned : Aligned home w.workspace) :
    Gains home w.workspace (c.process.after w).workspace
      fun q => c.PutsDown w.formatter ∧ HeaderAt home c.name q := by
  unfold Session.after
  rw [process_eq]
  cases hb : c.builder? with
  | error e =>
    refine (Gains.refl haligned).congr fun q => iff_of_false id ?_
    rintro ⟨⟨b, hb', -⟩, -⟩
    cases hb.symm.trans hb'
  | ok b =>
    have hsave := Builder.gains_save (b := b) (w := c.announced w) haligned
    refine hsave.congr fun q => ?_
    rw [name_of_builder? hb]
    refine and_congr_left fun _ => ⟨fun hputs => ⟨b, hb, hputs⟩, ?_⟩
    rintro ⟨b', hb', hputs⟩
    cases hb.symm.trans hb'
    exact hputs

/-- Processing `cs` from the world `w` on comes to `c`, whether or not it gets past it. -/
inductive ComesTo : List Correction → World → Correction → Prop
  | here {c : Correction} {rest : List Correction} {w : World} : ComesTo (c :: rest) w c
  | later {c c' : Correction} {rest : List Correction} {w w' : World} (h : c'.process w = .ok () w')
    (hrest : ComesTo rest w' c) : ComesTo (c' :: rest) w c

theorem ComesTo.mem (h : ComesTo cs w c) : c ∈ cs := by
  induction h with
  | here => exact List.mem_cons_self
  | later _ _ ih => exact List.mem_cons_of_mem _ ih

/-- **The files after corrections were processed,** up to the first one that fails. -/
theorem gains_processAll (haligned : Aligned home w.workspace) :
    Gains home w.workspace ((processAll cs).after w).workspace
      fun q => ∃ c, ComesTo cs w c ∧ c.PutsDown w.formatter ∧ HeaderAt home c.name q := by
  induction cs generalizing w with
  | nil =>
    refine (Gains.refl haligned).congr fun q => iff_of_false id ?_
    rintro ⟨c, ⟨⟩, -⟩
  | cons c rest ih =>
    have hfirst := gains_process (c := c) haligned
    cases hprocess : c.process w with
    | error e w₁ =>
      have hafter : (processAll (c :: rest)).after w = c.process.after w := by
        rw [Session.after_of_error hprocess, processAll, Session.after_of_error (Session.bind_of_error hprocess)]
      rw [hafter]
      refine hfirst.congr fun q => ⟨fun hq => ⟨c, .here, hq⟩, ?_⟩
      rintro ⟨c', _ | ⟨hprocess', -⟩, hq⟩
      · exact hq
      · cases hprocess.symm.trans hprocess'
    | ok _ w₁ =>
      have hafter : (processAll (c :: rest)).after w = (processAll rest).after w₁ := by
        rw [processAll, Session.after, Session.bind_of_ok hprocess, ← Session.after]
      rw [Session.after_of_ok hprocess] at hfirst
      have hrest := ih hfirst.aligned
      rw [((keepsSetting_process c).of_ok hprocess).1] at hrest
      rw [hafter]
      refine (hfirst.trans hrest).congr fun q => ⟨?_, ?_⟩
      · rintro (hq | ⟨c', hc', hq⟩)
        · exact ⟨c, .here, hq⟩
        · exact ⟨c', .later hprocess hc', hq⟩
      · rintro ⟨c', _ | ⟨hprocess', hc'⟩, hq⟩
        · exact .inl hq
        · cases hprocess.symm.trans hprocess'
          exact .inr ⟨c', hc', hq⟩

end Correction

/-- The run of a command line comes to `c`, whether or not it gets past it. -/
def Reaches (line : List String) (corrections : List Correction) (w : World) (c : Correction) : Prop :=
  ∃ options w₀, CommandLine.parse line = .ok options ∧ Session.openInput options.file w = .ok () w₀ ∧
    Correction.ComesTo (corrections.filter (options.selects ·.name)) w₀ c

section
variable {line : List String} {corrections : List Correction} {formatter : Formatter}

theorem Reaches.mem {w : World} {c : Correction} (h : Reaches line corrections w c) :
    c ∈ corrections := by
  obtain ⟨options, w₀, -, -, hcomes⟩ := h
  exact List.mem_of_mem_filter hcomes.mem

/-- A run leaves the headers that the corrections it comes to put down. -/
theorem isSome_text?_run_iff :
    (((run line corrections).after (.start formatter home)).workspace.text? p).isSome = true ↔
      ∃ c, Reaches line corrections (.start formatter home) c ∧ c.PutsDown formatter ∧
        HeaderAt home c.name p := by
  cases hline : CommandLine.parse line with
  | error stop =>
    rw [Session.after_of_error (run_eq_error hline _ _), text?_start]
    refine iff_of_false (by simp) ?_
    rintro ⟨c, ⟨options, w₀, hoptions, -⟩, -⟩
    cases hline.symm.trans hoptions
  | ok options =>
    obtain ⟨w₀, hopen, hws, hformatter, hrun⟩ : ∃ w₀,
        Session.openInput options.file (.start formatter home) = .ok () w₀ ∧
        w₀.workspace = .empty home ∧ w₀.formatter = formatter ∧
        run line corrections (.start formatter home) =
          Correction.processAll (corrections.filter (options.selects ·.name)) w₀ :=
      ⟨_, rfl, rfl, rfl, run_eq hline _ _⟩
    have hfiles := (@Correction.gains_processAll home (corrections.filter (options.selects ·.name)) w₀
      (hws ▸ aligned_empty home)).files p
    have hnone : w₀.workspace.text? p = none := hws ▸ text?_start formatter home p
    rw [Session.after, hrun, ← Session.after, hfiles, hnone, hformatter]
    refine (or_iff_right (by simp)).trans ⟨?_, ?_⟩
    · rintro ⟨c, hcomes, hc⟩
      exact ⟨c, ⟨options, w₀, hline, hopen, hcomes⟩, hc⟩
    · rintro ⟨c, ⟨options', w₁, hoptions, hopen', hcomes⟩, hc⟩
      cases hline.symm.trans hoptions
      cases hopen.symm.trans hopen'
      exact ⟨c, hcomes, hc⟩

end

/-- **The files that a run leaves.** Starting in an empty working directory and whether or not it succeeds, a
run leaves the headers that the corrections it comes to put down, and no other file. They all are in the
directory of the headers exactly when no such correction has a name that leads out of it, and certainly when
no name has two dots between its slashes. -/
theorem run_files_iff (line : List String) (corrections : List Correction) (formatter : Formatter)
    (home : Place) :
    let start := World.start formatter home
    let ws := ((run line corrections).after start).workspace
    (∀ p, (ws.text? p).isSome = true ↔
      ∃ c, Reaches line corrections start c ∧ c.PutsDown formatter ∧ HeaderAt home c.name p) ∧
    ((∀ p, (ws.text? p).isSome = true → headerDirectory home <+: p) ↔
      ∀ c here, Reaches line corrections start c → c.PutsDown formatter → HeaderIn home c.name here →
        here = headerDirectory home) ∧
    ((∀ c ∈ corrections, ".." ∉ names c.name) →
      ∀ p, (ws.text? p).isSome = true → headerDirectory home <+: p) := by
  intro start ws
  have hfiles : ∀ p, (ws.text? p).isSome = true ↔ ∃ c, Reaches line corrections start c ∧
      c.PutsDown formatter ∧ HeaderAt home c.name p := fun p => isSome_text?_run_iff
  have hinside : (∀ p, (ws.text? p).isSome = true → headerDirectory home <+: p) ↔
      ∀ c here, Reaches line corrections start c → c.PutsDown formatter → HeaderIn home c.name here →
        here = headerDirectory home := by
    constructor
    · intro hall c here hreaches hputs hin
      exact hin.inside_iff.1 (hall _ ((hfiles _).2 ⟨c, hreaches, hputs, here, hin, rfl⟩))
    · intro hall p hp
      obtain ⟨c, hreaches, hputs, here, hin, rfl⟩ := (hfiles p).1 hp
      exact hin.inside_iff.2 (hall c here hreaches hputs hin)
  refine ⟨hfiles, hinside, fun hnames => hinside.2 fun c here hreaches _ hin => ?_⟩
  exact climb_of_notMem (fun hmem => hnames c hreaches.mem (List.dropLast_subset _ hmem)) hin.climbs

/-- **A header can leave its directory.** Two dots in the name of a correction lead to the working
directory. -/
theorem header_leaves_directory :
    let c : Correction := ⟨"../sf", none, [⟨"n", "int"⟩],
      ⟨[("n", ⟨.scalar (.int 0), .scalar (.int 1), []⟩)]⟩, .category "n" [] none⟩
    let ws := ((run ["in.json"] [c]).after (.start .absent ["home"])).workspace
    (ws.text? ["home", "sf.h"]).isSome = true ∧ ¬headerDirectory ["home"] <+: ["home", "sf.h"] := by
  decide +kernel

end Corrections
