/-
  The corrections of a run do not disturb each other.

  * `Workspace.Ready`: a workspace in which nothing is in the way of a header, neither of its directory nor
    of its file. An empty workspace is ready, and a run keeps it so.
  * `Correction.HasHeader c text`: the header of `c` is `text`, and a file can have its name. In a ready
    workspace this alone decides whether `c` can be processed (`process_succeeds`, `process_eq_ok_ready`).
  * `lastNamed? name cs` is the last of the corrections `cs` with the given name.
  * `run_isolated`: a run leaves one file for each name, with the header of the last correction of that name;
    and if no two names are equal, the order of the corrections does not matter.
-/
import Corrections.Proofs.HeaderPlace
import Corrections.Proofs.Run
import Mathlib.Data.List.Induction
import Mathlib.Data.List.Nodup

namespace Corrections

/-! ## Workspaces that are ready for headers -/

namespace Workspace
variable {ws ws₁ : Workspace} {p : Place} {name text : String}

/-- The directory of the headers is there, and no directory has the place of a header. -/
structure Prepared (ws : Workspace) : Prop where
  directory : ws.node? (ws.home ++ [Builder.defaultDirectory]) = some .directory
  files : ∀ name, ws.node? (headerPlace ws.home name) ≠ some .directory

/-- The directory of the headers is there or can be made, and no directory has the place of a header. -/
structure Ready (ws : Workspace) : Prop where
  directory : ws.node? (ws.home ++ [Builder.defaultDirectory]) = none ∨
    ws.node? (ws.home ++ [Builder.defaultDirectory]) = some .directory
  files : ∀ name, ws.node? (headerPlace ws.home name) ≠ some .directory

theorem Prepared.ready (h : ws.Prepared) : ws.Ready := ⟨.inr h.directory, h.files⟩

theorem node?_empty {home : Place} {p : Place} (h : home.length < p.length) :
    (empty home).node? p = none := by
  have hprefix : p.isPrefixOf home = false := by
    rw [Bool.eq_false_iff]
    intro hp
    exact absurd (List.isPrefixOf_iff_prefix.1 hp).length_le (by omega)
  simp only [node?, empty, hprefix]
  rfl

theorem ready_empty (home : Place) : (empty home).Ready := by
  refine ⟨.inl (node?_empty ?_), fun name => ?_⟩
  · simp [empty]
  · rw [node?_empty (by simp [headerPlace, empty])]
    simp

theorem node?_set_of_ne {q : Place} (h : p ≠ q) (n : Node) : (ws.set p n).node? q = ws.node? q := by
  rw [node?_set, if_neg h]
  by_cases hq : q.isPrefixOf ws.home
  · rw [if_pos hq, node?, if_pos hq]
  · rw [if_neg hq]

theorem start_defaultDirectory (ws : Workspace) : ws.start Builder.defaultDirectory = ws.home := by
  simp [start, Builder.defaultDirectory]

theorem pathFault?_defaultDirectory : pathFault? Builder.defaultDirectory = none := by
  decide +kernel

theorem hasNull_defaultDirectory : hasNull Builder.defaultDirectory = false := by
  decide +kernel

theorem newDirectory_default (ws : Workspace) :
    ws.newDirectory Builder.defaultDirectory =
      if (ws.node? (ws.home ++ [Builder.defaultDirectory])).isSome then .error .occupied
      else .ok (ws.set (ws.home ++ [Builder.defaultDirectory]) .directory) := by
  have hnames : trimmedNames Builder.defaultDirectory = [Builder.defaultDirectory] := by
    decide +kernel
  have hshort : ¬nameLimit < Builder.defaultDirectory.utf8ByteSize := by
    decide
  have htarget : ws.target Builder.defaultDirectory [Builder.defaultDirectory] =
      .ok (ws.home, Builder.defaultDirectory) := by
    rw [target, pathFault?_defaultDirectory, start_defaultDirectory]
    simp [walk, node?_home]
  unfold newDirectory
  rw [hnames, htarget]
  simp only [isDots_defaultDirectory, hshort, Bool.false_eq_true, if_false]

theorem reachesDirectory_default
    (h : ws.node? (ws.home ++ [Builder.defaultDirectory]) = some .directory) :
    ws.reachesDirectory Builder.defaultDirectory = true := by
  have hstep := step_eq_ok (node?_home ws) isDots_defaultDirectory (by decide) (by rw [h]; rfl)
  have hnames : names Builder.defaultDirectory = [Builder.defaultDirectory] :=
    names_of_notMem (by decide)
  have hresolve : ws.resolve? Builder.defaultDirectory =
      some (ws.home ++ [Builder.defaultDirectory]) := by
    rw [resolve?, hasNull_defaultDirectory, pathFault?_defaultDirectory, start_defaultDirectory, hnames]
    simp [walk, hstep, Except.toOption]
  rw [reachesDirectory, hresolve]
  simp [h]

theorem makeDirectories_default (ws : Workspace) :
    ws.makeDirectories Builder.defaultDirectory = ws.ensureDirectory Builder.defaultDirectory := by
  have hlevels : levels Builder.defaultDirectory =
      [⟨Builder.defaultDirectory, Builder.defaultDirectory⟩] := by
    decide +kernel
  rw [makeDirectories, hlevels]
  rfl

theorem makeDirectory_default (ws : Workspace) :
    ws.makeDirectory Builder.defaultDirectory =
      (ws.newDirectory Builder.defaultDirectory).mapError (.fault · Builder.defaultDirectory) := by
  rw [makeDirectory, guarded, hasNull_defaultDirectory]
  rfl

theorem makeDirectories_of_none (h : ws.node? (ws.home ++ [Builder.defaultDirectory]) = none) :
    ws.makeDirectories Builder.defaultDirectory =
      (.ok (), ws.set (ws.home ++ [Builder.defaultDirectory]) .directory) := by
  rw [makeDirectories_default, ensureDirectory, makeDirectory_default, newDirectory_default]
  simp [h, Except.mapError]

theorem makeDirectories_of_directory
    (h : ws.node? (ws.home ++ [Builder.defaultDirectory]) = some .directory) :
    ws.makeDirectories Builder.defaultDirectory = (.ok (), ws) := by
  rw [makeDirectories_default, ensureDirectory, makeDirectory_default, newDirectory_default]
  simp [h, Except.mapError, reachesDirectory_default]

/-- The directory of the headers can be made in a workspace that is ready. -/
theorem Ready.makeDirectories (h : ws.Ready) :
    ∃ ws₁, ws.makeDirectories Builder.defaultDirectory = (.ok (), ws₁) ∧ ws₁.Prepared := by
  rcases h.directory with hnone | hdirectory
  · refine ⟨_, makeDirectories_of_none hnone, ?_, fun name => ?_⟩
    · show (ws.set _ _).node? (ws.home ++ _) = _
      rw [node?_set, if_pos rfl, ite_self]
    · show (ws.set _ _).node? (headerPlace ws.home name) ≠ _
      rw [node?_set_of_ne (by simp [headerPlace])]
      exact h.files name
  · exact ⟨ws, makeDirectories_of_directory hdirectory, hdirectory, h.files⟩

namespace Prepared

theorem set_file (h : ws.Prepared) (hfree : ws.node? p ≠ some .directory) (text : String) :
    (ws.set p (.file text)).Prepared := by
  have hhome : (ws.set p (.file text)).home = ws.home := rfl
  refine ⟨?_, fun name => ?_⟩
  · have hne : p ≠ ws.home ++ [Builder.defaultDirectory] := by
      rintro rfl
      exact hfree h.directory
    rw [hhome, node?_set_of_ne hne, h.directory]
  · rw [hhome, node?_set_file hfree]
    split_ifs
    · simp
    · exact h.files name

/-- Writing a file keeps a workspace prepared. -/
theorem write {path : String} {ws' : Workspace} (h : ws.Prepared)
    (hopen : ws.openFile path = .ok (p, ws')) (text : String) : (ws'.write p text).Prepared := by
  rw [(opened hopen).write_eq]
  exact h.set_file (opened hopen).free text

end Prepared

end Workspace

open Workspace (opened)

/-! ## One correction -/

namespace Builder
variable {b : Builder} {w w' : World} {rewrite : String → String} {text : String}

/-- In a workspace that is ready, a header can be saved if it can be generated and a file can have its
name. -/
theorem save_succeeds (hready : w.workspace.Ready) (hname : '/' ∉ b.name.toList)
    (hheader : HeaderName b.name) (hdump : b.dump = .ok text) :
    ∃ w', b.save defaultDirectory true w = .ok () w' := by
  obtain ⟨ws₁, hmake₁, hprepared⟩ := hready.makeDirectories
  obtain ⟨ws₂, hopen₁⟩ := openFile_header hname hheader hprepared.directory (hprepared.files b.name)
  have hsaves := saves_save b defaultDirectory true w
  cases hsave : b.save defaultDirectory true w with
  | ok _ w' => exact ⟨w', rfl⟩
  | error e w' =>
    -- Each way to fail is at odds with the directory, the file or the header that there is.
    rw [hsave] at hsaves
    cases hsaves with
    | noDirectory hmake => cases hmake₁.symm.trans hmake
    | notOpened _ hmake hopen =>
      cases hmake₁.symm.trans hmake
      cases hopen₁.symm.trans hopen
    | emptied _ _ _ hdump' => cases hdump.symm.trans hdump'
    | notGenerated _ _ hdump' => cases hdump.symm.trans hdump'
    | formattedNotOpened _ hmake _ _ hopen =>
      cases hmake₁.symm.trans hmake
      cases hopen₁.symm.trans hopen

/-- A header that was saved has a name that a file can have, and the workspace is ready for the next. -/
theorem ready_of_save (hready : w.workspace.Ready)
    (hrewrite : ∀ text, w.formatter.output? text = some (rewrite text))
    (hname : '/' ∉ b.name.toList) (h : b.save defaultDirectory true w = .ok () w') :
    HeaderName b.name ∧ w'.workspace.Ready := by
  obtain ⟨ws₁, hmake₁, hprepared⟩ := hready.makeDirectories
  have hsaves := saves_save b defaultDirectory true w
  rw [h] at hsaves
  cases hsaves with
  | written _ hmake hopen =>
    cases hmake₁.symm.trans hmake
    exact ⟨headerName_of_openFile hname hopen, (hprepared.write hopen _).ready⟩
  | refused _ _ _ hnone => cases (hrewrite _).symm.trans hnone
  | formattedWritten _ hmake _ _ hopen =>
    cases hmake₁.symm.trans hmake
    exact ⟨headerName_of_openFile hname hopen, (hprepared.write hopen _).ready⟩

end Builder

namespace Correction

/-- The header of a correction is `text`, and a file can have its name. -/
def HasHeader (c : Correction) (text : String) : Prop :=
  HeaderName c.name ∧ ∃ b, c.builder? = .ok b ∧ b.dump = .ok text

/-- The last of the corrections with the given name. -/
def lastNamed? (name : String) (cs : List Correction) : Option Correction :=
  cs.reverse.find? (·.name = name)

variable {c : Correction} {cs : List Correction} {w w' : World} {rewrite : String → String} {text : String}

theorem HasHeader.unique {text' : String} (h : c.HasHeader text) (h' : c.HasHeader text') :
    text = text' := by
  obtain ⟨-, b, hb, hdump⟩ := h
  obtain ⟨-, b', hb', hdump'⟩ := h'
  cases hb.symm.trans hb'
  cases hdump.symm.trans hdump'
  rfl

theorem process_succeeds (hready : w.workspace.Ready) (hname : '/' ∉ c.name.toList)
    (h : c.HasHeader text) : ∃ w', c.process w = .ok () w' := by
  obtain ⟨hheader, b, hb, hdump⟩ := h
  rw [process_eq, hb]
  rw [← name_of_builder? hb] at hname hheader
  exact Builder.save_succeeds (w := c.announced w) hready hname hheader hdump

/-- A correction that is processed in a ready workspace leaves its header there and nothing else. -/
theorem process_eq_ok_ready (hready : w.workspace.Ready)
    (hrewrite : ∀ text, w.formatter.output? text = some (rewrite text))
    (hname : '/' ∉ c.name.toList) (h : c.process w = .ok () w') :
    w'.workspace.Ready ∧ ∃ text, c.HasHeader text ∧ ∀ q, w'.workspace.text? q =
      if headerPlace w.workspace.home c.name = q then some (rewrite text)
      else w.workspace.text? q := by
  have hhome := ((keepsSetting_process c).of_ok h).2
  rw [process_eq] at h
  cases hb : c.builder? with
  | error e =>
    rw [hb] at h
    cases h
  | ok b =>
    rw [hb] at h
    rw [← name_of_builder? hb] at hname ⊢
    obtain ⟨hheader, hready'⟩ := Builder.ready_of_save (w := c.announced w) hready hrewrite hname h
    obtain ⟨text, hdump, hputs⟩ := Builder.save_eq_ok h
    obtain ⟨p, hp, htext⟩ := hputs _ (hrewrite text)
    have hplace : p = headerPlace w.workspace.home b.name := by
      rw [resolve?_headerFile hname hp, hhome]
    rw [hplace] at htext
    exact ⟨hready', text, ⟨name_of_builder? hb ▸ hheader, b, hb, hdump⟩, htext⟩

/-! ## All corrections -/

theorem lastNamed?_concat (name : String) (cs : List Correction) (c : Correction) :
    lastNamed? name (cs ++ [c]) = if c.name = name then some c else lastNamed? name cs := by
  simp only [lastNamed?, List.reverse_append, List.reverse_singleton, List.singleton_append,
    List.find?_cons]
  by_cases h : c.name = name <;> simp [h]

theorem mem_of_lastNamed? {name : String} (h : lastNamed? name cs = some c) : c ∈ cs :=
  List.mem_reverse.1 (List.mem_of_find?_eq_some h)

theorem exists_lastNamed? (hc : c ∈ cs) : ∃ c', lastNamed? c.name cs = some c' ∧ c'.name = c.name := by
  obtain ⟨c', hc'⟩ : ∃ c', lastNamed? c.name cs = some c' := by
    rw [← Option.isSome_iff_exists, lastNamed?, List.find?_isSome]
    exact ⟨c, List.mem_reverse.2 hc, by simp⟩
  exact ⟨c', hc', by simpa using List.find?_some hc'⟩

theorem lastNamed?_of_nodup (hnodup : (cs.map (·.name)).Nodup) (hc : c ∈ cs) :
    lastNamed? c.name cs = some c := by
  obtain ⟨c', hc', hname⟩ := exists_lastNamed? hc
  rw [hc', List.inj_on_of_nodup_map hnodup (mem_of_lastNamed? hc') hc hname]

/-- What processing corrections leaves: the last correction of each name has its header in its place, and
all other files are as before. -/
structure Leaves (cs : List Correction) (rewrite : String → String) (w w' : World) : Prop where
  ready : w'.workspace.Ready
  headers : ∀ c, lastNamed? c.name cs = some c → ∃ text, c.HasHeader text ∧
    w'.workspace.text? (headerPlace w.workspace.home c.name) = some (rewrite text)
  others : ∀ p, (∀ c ∈ cs, p ≠ headerPlace w.workspace.home c.name) →
    w'.workspace.text? p = w.workspace.text? p

/-- One correction more: it replaces the header of an earlier one with the same name. -/
theorem Leaves.concat {w₁ : World} (h : Leaves cs rewrite w w₁)
    (hhome : w₁.workspace.home = w.workspace.home)
    (hrewrite : ∀ text, w₁.formatter.output? text = some (rewrite text)) (hname : '/' ∉ c.name.toList)
    (hprocess : c.process w₁ = .ok () w') : Leaves (cs ++ [c]) rewrite w w' := by
  obtain ⟨hready, text, hheader, htext⟩ := process_eq_ok_ready h.ready hrewrite hname hprocess
  rw [hhome] at htext
  refine ⟨hready, fun c' hc' => ?_, fun p hp => ?_⟩
  · rw [lastNamed?_concat] at hc'
    by_cases hsame : c.name = c'.name
    · rw [if_pos hsame] at hc'
      cases hc'
      exact ⟨text, hheader, by rw [htext, if_pos rfl]⟩
    · rw [if_neg hsame] at hc'
      obtain ⟨text', hheader', htext'⟩ := h.headers c' hc'
      refine ⟨text', hheader', ?_⟩
      rw [htext, if_neg (by rwa [headerPlace_inj]), htext']
  · have hne : headerPlace w.workspace.home c.name ≠ p := (hp c (by simp)).symm
    rw [htext, if_neg hne]
    exact h.others p fun c' hc' => hp c' (List.mem_append_left _ hc')

theorem leaves_processAll (hready : w.workspace.Ready)
    (hrewrite : ∀ text, w.formatter.output? text = some (rewrite text))
    (hnames : ∀ c ∈ cs, '/' ∉ c.name.toList) (h : processAll cs w = .ok () w') :
    Leaves cs rewrite w w' := by
  -- Over the last correction and not the first: it is the last of a name whose header stays.
  induction cs using List.reverseRecOn generalizing w' with
  | nil =>
    cases h
    exact ⟨hready, by rintro c ⟨⟩, fun _ _ => rfl⟩
  | append_singleton cs c ih =>
    rw [processAll_concat] at h
    obtain ⟨_, w₁, hcs, hprocess⟩ := Session.bind_eq_ok_iff.1 h
    obtain ⟨hformatter, hhome⟩ := (keepsSetting_processAll cs).of_ok hcs
    rw [← hformatter] at hrewrite
    exact (ih (fun c' hc' => hnames c' (List.mem_append_left _ hc')) hcs).concat hhome hrewrite
      (hnames c (by simp)) hprocess

/-- If no two corrections have the same name, their order makes no difference to what they leave. -/
theorem Leaves.text?_eq_of_perm {cs' : List Correction} {w₁ w₂ : World} (h₁ : Leaves cs rewrite w w₁)
    (h₂ : Leaves cs' rewrite w w₂) (hnodup : (cs.map (·.name)).Nodup) (hperm : cs'.Perm cs) (p : Place) :
    w₂.workspace.text? p = w₁.workspace.text? p := by
  have hnodup' : (cs'.map (·.name)).Nodup := (hperm.map _).nodup_iff.2 hnodup
  by_cases hp : ∃ c ∈ cs, p = headerPlace w.workspace.home c.name
  · obtain ⟨c, hc, rfl⟩ := hp
    obtain ⟨text₁, hheader₁, htext₁⟩ := h₁.headers c (lastNamed?_of_nodup hnodup hc)
    obtain ⟨text₂, hheader₂, htext₂⟩ :=
      h₂.headers c (lastNamed?_of_nodup hnodup' (hperm.mem_iff.2 hc))
    rw [htext₁, htext₂, hheader₁.unique hheader₂]
  · push Not at hp
    rw [h₁.others p hp, h₂.others p fun c hc => hp c (hperm.mem_iff.1 hc)]

/-- **Corrections can be processed exactly when each of them has a header,** in whatever order they come. -/
theorem processAll_succeeds_iff (hready : w.workspace.Ready)
    (hrewrite : ∀ text, w.formatter.output? text = some (rewrite text))
    (hnames : ∀ c ∈ cs, '/' ∉ c.name.toList) :
    (∃ w', processAll cs w = .ok () w') ↔ ∀ c ∈ cs, ∃ text, c.HasHeader text := by
  induction cs generalizing w with
  | nil => exact iff_of_true ⟨w, rfl⟩ (by simp)
  | cons c rest ih =>
    have hname : '/' ∉ c.name.toList := hnames c List.mem_cons_self
    have hrest : ∀ c' ∈ rest, '/' ∉ c'.name.toList := fun c' hc' => hnames c' (List.mem_cons_of_mem _ hc')
    have hrewrite₁ : ∀ w₁, c.process w = .ok () w₁ →
        ∀ text, w₁.formatter.output? text = some (rewrite text) := by
      intro w₁ hprocess
      rwa [((keepsSetting_process c).of_ok hprocess).1]
    constructor
    · rintro ⟨w', h⟩
      obtain ⟨_, w₁, hprocess, hall⟩ := Session.bind_eq_ok_iff.1 h
      obtain ⟨hready₁, text, hheader, -⟩ := process_eq_ok_ready hready hrewrite hname hprocess
      have hheaders := (ih hready₁ (hrewrite₁ w₁ hprocess) hrest).1 ⟨w', hall⟩
      exact List.forall_mem_cons.2 ⟨⟨text, hheader⟩, hheaders⟩
    · intro hheaders
      obtain ⟨⟨text, hheader⟩, hheaders⟩ := List.forall_mem_cons.1 hheaders
      obtain ⟨w₁, hprocess⟩ := process_succeeds hready hname hheader
      obtain ⟨hready₁, -⟩ := process_eq_ok_ready hready hrewrite hname hprocess
      obtain ⟨w', hall⟩ := (ih hready₁ (hrewrite₁ w₁ hprocess) hrest).2 hheaders
      exact ⟨w', by rw [processAll, Session.bind_of_ok hprocess, hall]⟩

end Correction

/-! ## The run -/

section
variable {formatter : Formatter} {rewrite : String → String} {home : Place} {line : List String}
  {corrections : List Correction} {w w' : World} {options : CommandLine.Options}

theorem exists_parse_of_run (h : run line corrections w = .ok () w') :
    ∃ options, CommandLine.parse line = .ok options := by
  cases hline : CommandLine.parse line with
  | ok options => exact ⟨options, rfl⟩
  | error stop =>
    rw [run_eq_error hline] at h
    cases h

theorem text?_start (formatter : Formatter) (home p : Place) :
    (World.start formatter home).workspace.text? p = none := by
  show (Workspace.empty home).text? p = none
  unfold Workspace.text? Workspace.node?
  split_ifs <;> rfl

variable (hrewrite : ∀ text, formatter.output? text = some (rewrite text))
  (hnames : ∀ c ∈ corrections, '/' ∉ c.name.toList)
include hrewrite hnames

/-- Whether a run succeeds depends on each of the selected corrections alone. -/
theorem run_succeeds_iff :
    (∃ w', run line corrections (.start formatter home) = .ok () w') ↔
      ∃ options, CommandLine.parse line = .ok options ∧
        ∀ c ∈ corrections.filter (options.selects ·.name), ∃ text, c.HasHeader text := by
  have hall : ∀ options : CommandLine.Options, ∀ c ∈ corrections.filter (options.selects ·.name),
      '/' ∉ c.name.toList :=
    fun options c hc => hnames c (List.mem_of_mem_filter hc)
  constructor
  · rintro ⟨w', h⟩
    obtain ⟨options, hline⟩ := exists_parse_of_run h
    rw [run_eq hline] at h
    exact ⟨options, hline, (Correction.processAll_succeeds_iff (Workspace.ready_empty home) hrewrite
      (hall options)).1 ⟨w', h⟩⟩
  · rintro ⟨options, hline, hheaders⟩
    rw [run_eq hline]
    exact (Correction.processAll_succeeds_iff (Workspace.ready_empty home) hrewrite (hall options)).2 hheaders

theorem leaves_run (hline : CommandLine.parse line = .ok options)
    (h : run line corrections (.start formatter home) = .ok () w') :
    Correction.Leaves (corrections.filter (options.selects ·.name)) rewrite (.start formatter home) w' := by
  rw [run_eq hline] at h
  have hleaves := Correction.leaves_processAll (Workspace.ready_empty home) hrewrite
    (fun c hc => hnames c (List.mem_of_mem_filter hc)) h
  exact ⟨hleaves.ready, hleaves.headers, hleaves.others⟩

end

/-- **Corrections do not disturb each other.** A run in an empty working directory leaves exactly the headers
of the selected corrections, each holding what the formatter makes of the header that the last selected
correction of its name has, for every formatter that lets all headers through. If no two corrections have the
same name, then in any other order the run succeeds as well or fails as well, and leaves the same files. -/
theorem run_isolated {formatter : Formatter} {rewrite : String → String} {line : List String}
    {corrections : List Correction} (home : Place)
    (hrewrite : ∀ text, formatter.output? text = some (rewrite text))
    (hnames : ∀ c ∈ corrections, '/' ∉ c.name.toList) :
    (∀ w', run line corrections (.start formatter home) = .ok () w' →
      ∃ options, CommandLine.parse line = .ok options ∧
        let selected := corrections.filter (options.selects ·.name)
        (∀ c, Correction.lastNamed? c.name selected = some c → ∃ b text, c.builder? = .ok b ∧
          b.dump = .ok text ∧
          w'.workspace.text? (headerPlace home c.name) = some (rewrite text)) ∧
        ∀ p, (w'.workspace.text? p).isSome = true ↔ ∃ c ∈ selected, p = headerPlace home c.name) ∧
    ((corrections.map (·.name)).Nodup → ∀ other : List Correction, other.Perm corrections →
      ((∃ w', run line other (.start formatter home) = .ok () w') ↔
        ∃ w', run line corrections (.start formatter home) = .ok () w') ∧
      ∀ w₁ w₂, run line corrections (.start formatter home) = .ok () w₁ →
        run line other (.start formatter home) = .ok () w₂ →
        ∀ p, w₂.workspace.text? p = w₁.workspace.text? p) := by
  refine ⟨fun w' hrun => ?_, fun hnodup other hperm => ?_⟩
  · obtain ⟨options, hline⟩ := exists_parse_of_run hrun
    have hleaves := leaves_run hrewrite hnames hline hrun
    refine ⟨options, hline, fun c hc => ?_, fun p => ⟨fun hp => ?_, ?_⟩⟩
    · obtain ⟨text, ⟨-, b, hb, hdump⟩, htext⟩ := hleaves.headers c hc
      exact ⟨b, text, hb, hdump, htext⟩
    · by_contra hnone
      push Not at hnone
      rw [hleaves.others p hnone, text?_start] at hp
      cases hp
    · rintro ⟨c, hc, rfl⟩
      obtain ⟨c', hc', hname⟩ := Correction.exists_lastNamed? hc
      obtain ⟨text, -, htext⟩ := hleaves.headers c' (hname ▸ hc')
      rw [← hname]
      exact Option.isSome_iff_exists.2 ⟨_, htext⟩
  · have hnames' : ∀ c ∈ other, '/' ∉ c.name.toList := fun c hc => hnames c (hperm.mem_iff.1 hc)
    refine ⟨?_, fun w₁ w₂ hrun₁ hrun₂ => ?_⟩
    · rw [run_succeeds_iff hrewrite hnames', run_succeeds_iff hrewrite hnames]
      simp only [(hperm.filter _).mem_iff]
    · obtain ⟨options, hline⟩ := exists_parse_of_run hrun₁
      have hfiltered : ((corrections.filter (options.selects ·.name)).map (·.name)).Nodup :=
        hnodup.sublist (List.filter_sublist.map _)
      exact (leaves_run hrewrite hnames hline hrun₁).text?_eq_of_perm
        (leaves_run hrewrite hnames' hline hrun₂) hfiltered (hperm.filter _)

/-- Two corrections in both orders, and a third in front of them that has the name of one of them. -/
theorem run_both_orders :
    let correction := fun name description => (⟨name, some description, [⟨"n", "int"⟩],
      ⟨[("n", ⟨.scalar (.int 0), .scalar (.int 1), []⟩)]⟩, .category "n" [] none⟩ : Correction)
    let sf := correction "sf" "new"
    let id := correction "id" ""
    let w := World.start (.runs fun text => .ended 0 ("// formatted\n" ++ text)) ["home"]
    ∃ w₁ w₂ w₃, run ["in.json"] [id, sf] w = .ok () w₁ ∧ run ["in.json"] [sf, id] w = .ok () w₂ ∧
      run ["in.json"] [correction "sf" "old", id, sf] w = .ok () w₃ ∧
      (∀ p, w₂.workspace.text? p = w₁.workspace.text? p) ∧
      ∃ b text, sf.builder? = .ok b ∧ b.dump = .ok text ∧
        w₃.workspace.text? ["home", "corrections", "sf.h"] = some ("// formatted\n" ++ text) := by
  intro correction sf id w
  have hrewrite : ∀ text, w.formatter.output? text = some ("// formatted\n" ++ text) := fun _ => rfl
  obtain ⟨w₁, hrun₁⟩ := Session.succeeds_iff.1
    (show (run ["in.json"] [id, sf]).succeeds w = true by decide +kernel)
  obtain ⟨w₃, hrun₃⟩ := Session.succeeds_iff.1
    (show (run ["in.json"] [correction "sf" "old", id, sf]).succeeds w = true by decide +kernel)
  obtain ⟨hsucceeds, hfiles⟩ := (run_isolated ["home"] hrewrite (by simp [sf, id, correction])).2
    (by simp [sf, id, correction]) [sf, id] (List.Perm.swap id sf [])
  obtain ⟨w₂, hrun₂⟩ := hsucceeds.2 ⟨w₁, hrun₁⟩
  obtain ⟨options, hline, hheaders, -⟩ :=
    (run_isolated ["home"] hrewrite (by simp [sf, id, correction])).1 w₃ hrun₃
  cases hline
  exact ⟨w₁, w₂, w₃, hrun₁, hrun₂, hrun₃, hfiles w₁ w₂ hrun₁ hrun₂, hheaders sf (by rfl)⟩

end Corrections
