/-
  The enumerations of a header.

  * `Enumeration` is an enumeration type as it is printed, and `Builder.enumerations` are those of a builder.
    Their texts make up all that is printed of them (`Builder.enums_eq`).
  * `Builder.Records.enumerations_eq`: after any steps there is one for each string parameter that has values
    in its last declaration, in the order of the parameters.
  * `enumerators_nodup_iff`: all enumerators of a header are different exactly if no two values, of one
    parameter or of two, have the same upper case.
  * `parameter_types_declared_iff`: all types of parameters are declared exactly if every string parameter has
    values. None is declared twice.
-/
import Corrections.Proofs.Builder.Behaviour
import Corrections.Proofs.Builder.Bounds

namespace Corrections

open Code

/-! ## Printed enumerations -/

/-- An enumeration type as it is printed. -/
structure Enumeration where
  type : String
  enumerators : List String
  deriving DecidableEq

def Enumeration.text (e : Enumeration) : String :=
  "\n" ++
  "                            typedef enum \x7b\n" ++
  "                                " ++ ", ".intercalate e.enumerators ++ "\n" ++
  "                            \x7d " ++ e.type ++ ";\n" ++
  "                            "

namespace Builder

/-- The enumeration of a parameter. A string parameter without values has none. -/
def enumeration? (b : Builder) (v : Variable) : Option Enumeration :=
  match v.isString, v.values with
  | true, some (value :: values) =>
    some ⟨v.type.code, (value :: values).map b.enumerator⟩
  | _, _ => none

def enumerations (b : Builder) : List Enumeration := b.params.values.filterMap b.enumeration?

theorem enumText_eq (b : Builder) (v : Variable) :
    b.enumText v = ((b.enumeration? v).map Enumeration.text).getD "" := by
  rcases hstring : v.isString with _ | _
  · simp [enumText, enumeration?, hstring]
  · rcases hvalues : v.values with _ | _ | ⟨value, values⟩
    · simp [enumText, enumeration?, hvalues]
    · simp [enumText, enumeration?, hvalues]
    · simp only [enumText, enumeration?, hstring, hvalues]
      rfl

/-- What is printed of enumerations is made up of their texts. -/
theorem enums_eq (b : Builder) : b.enums = String.join (b.enumerations.map Enumeration.text) := by
  unfold enums enumerations
  induction b.params.values with
  | nil => rfl
  | cons v vs ih =>
    rw [List.map_cons, String.join_cons, ih, enumText_eq]
    cases h : b.enumeration? v with
    | none => simp [h]
    | some e => simp [h, String.join_cons]

end Builder

/-! ## The enumerations after a sequence of steps -/

/-- The name of a value in the enumerations of a correction. -/
def Datum.enumerator (correction : String) (d : Datum) : String :=
  Text.upperCase d.text ++ "_" ++ correction

theorem Builder.enumerator_eq (b : Builder) : b.enumerator = Datum.enumerator b.name := rfl

/-- The enumeration that a declaration asks for. -/
def Declaration.enumeration? (correction : String) (d : Declaration) : Option Enumeration :=
  if d.type = "string" ∧ d.values ≠ [] then
    some ⟨d.name ++ "_" ++ correction, d.values.map (Datum.enumerator correction)⟩
  else none

theorem Declaration.enumeration?_eq_some_iff {correction : String} {d : Declaration} {e : Enumeration} :
    d.enumeration? correction = some e ↔ (d.type = "string" ∧ d.values ≠ []) ∧
      e = ⟨d.name ++ "_" ++ correction, d.values.map (Datum.enumerator correction)⟩ := by
  unfold Declaration.enumeration?
  split_ifs with h
  · simp [h, eq_comm]
  · simp [h]

theorem Builder.enumeration?_of_declare {b : Builder} {d : Declaration} {v : Variable}
    (h : Variable.declare b.name d = .ok v) : b.enumeration? v = d.enumeration? b.name := by
  unfold Declaration.enumeration?
  rcases Variable.declare_eq_ok_iff.1 h with ⟨htype, rfl⟩ | ⟨htype, rfl⟩ | ⟨htype, rfl⟩
  · simp [Builder.enumeration?, Variable.isString, htype]
  · cases hvalues : d.values with
    | nil => simp [Builder.enumeration?, Variable.givenValues, htype]
    | cons value values =>
      simp [Builder.enumeration?, Builder.enumerator_eq, Variable.isString, Variable.givenValues,
        VariableType.code, htype]
  · simp [Builder.enumeration?, Variable.isString, htype]

theorem name_of_lastDeclaration? {steps : List Step} {key : String} {d : Declaration}
    (h : lastDeclaration? steps key = some d) : d.name = key := by
  simpa using (List.mem_filter.1 (List.mem_of_getLast? h)).2

theorem types_of_declaration? {steps : List Step} {d : Declaration}
    (h : d ∈ steps.filterMap Step.declaration?) : d.type ∈ Declaration.types := by
  obtain ⟨s, -, hs⟩ := List.mem_filterMap.1 h
  cases s with
  | addVariable d' =>
    obtain ⟨htype, rfl⟩ : d'.type ∈ Declaration.types ∧ d' = d := by simpa [Step.declaration?] using hs
    exact htype
  | _ => cases hs

namespace Builder.Records
variable {correction : String} {target : Target} {steps : List Step} {b : Builder}
  (h : Records correction target steps b)

include h

theorem nodup_keys : b.params.keys.Nodup := h.keys ▸ nodup_eraseDups _

/-- A parameter is the one that its last declaration asks for. -/
theorem mem_entries_iff {key : String} {v : Variable} : (key, v) ∈ b.params.entries ↔
    ∃ d, lastDeclaration? steps key = some d ∧ Variable.declare correction d = .ok v :=
  (Table.get?_eq_some_iff h.nodup_keys).symm.trans (h.params key v)

/-- **Each string parameter with values has an enumeration.** -/
theorem enumerations_eq : b.enumerations =
    b.params.keys.filterMap fun key =>
      (lastDeclaration? steps key).bind (Declaration.enumeration? correction) := by
  rw [enumerations, Table.values, Table.keys, List.filterMap_map, List.filterMap_map]
  refine List.filterMap_congr fun e he => ?_
  obtain ⟨d, hd, hdeclare⟩ := h.mem_entries_iff.1 he
  rw [← h.name] at hdeclare ⊢
  simp only [Function.comp_apply, hd, Option.bind_some, enumeration?_of_declare hdeclare]

theorem exists_mem_entries {key : String} {d : Declaration} (hd : lastDeclaration? steps key = some d) :
    ∃ v, Variable.declare correction d = .ok v ∧ (key, v) ∈ b.params.entries := by
  have hmem := (List.mem_filter.1 (List.mem_of_getLast? hd)).1
  obtain ⟨v, hv⟩ := Variable.exists_declare_iff.2 (types_of_declaration? hmem)
  exact ⟨v, hv, h.mem_entries_iff.2 ⟨d, hd, hv⟩⟩

end Builder.Records

/-! ## Enumerators -/

/-- The values that a string parameter has in its last declaration. Other parameters have none. -/
def lastValues (steps : List Step) (key : String) : List Datum :=
  match lastDeclaration? steps key with
  | some d => if d.type = "string" then d.values else []
  | none => []

theorem mem_lastValues {steps : List Step} {key : String} {value : Datum} :
    value ∈ lastValues steps key ↔
      ∃ d, lastDeclaration? steps key = some d ∧ d.type = "string" ∧ value ∈ d.values := by
  unfold lastValues
  cases lastDeclaration? steps key with
  | none => simp
  | some d => by_cases htype : d.type = "string" <;> simp [htype]

/-- The values are strings, and no two of them are the same. -/
structure DifferentStrings (values : List Datum) : Prop where
  nodup : values.Nodup
  string : ∀ value ∈ values, ∃ s, value = .scalar (.str s)

theorem enumerator_eq_iff (correction : String) (d d' : Datum) :
    d.enumerator correction = d'.enumerator correction ↔
      Text.upperCase d.text = Text.upperCase d'.text := by
  rw [Datum.enumerator, Datum.enumerator, String.append_left_inj, String.append_left_inj]

namespace Builder.Records
variable {correction : String} {target : Target} {steps : List Step} {b : Builder}
  (h : Records correction target steps b)

include h

/-- The enumerators are the names of all values of string parameters, each value with its parameter. -/
theorem enumerators_eq : b.enumerations.flatMap Enumeration.enumerators =
    (b.params.keys.flatMap fun key => (lastValues steps key).map (Prod.mk key)).map
      fun e => e.2.enumerator correction := by
  rw [h.enumerations_eq, List.filterMap_eq_flatMap_toList, List.flatMap_assoc, List.map_flatMap]
  congr 1
  funext key
  rw [List.map_map, lastValues]
  cases lastDeclaration? steps key with
  | none => rfl
  | some d =>
    by_cases htype : d.type = "string"
    · cases hvalues : d.values with
      | nil => simp [Declaration.enumeration?, htype, hvalues]
      | cons value values =>
        simp [Declaration.enumeration?, htype, hvalues, Function.comp_def]
    · simp [Declaration.enumeration?, htype]

/-- No value stands twice under one parameter, and no parameter stands twice. -/
theorem nodup_values (hvalues : ∀ key, (lastValues steps key).Nodup) :
    (b.params.keys.flatMap fun key => (lastValues steps key).map (Prod.mk key)).Nodup := by
  refine List.nodup_flatMap.2 ⟨fun key _ => (hvalues key).map fun _ _ heq => (Prod.mk.inj heq).2, ?_⟩
  refine h.nodup_keys.pairwise_of_forall_ne fun key _ key' _ hne => ?_
  intro e he he'
  obtain ⟨value, -, rfl⟩ := List.mem_map.1 he
  obtain ⟨value', -, heq⟩ := List.mem_map.1 he'
  exact hne (Prod.mk.inj heq).1.symm

theorem mem_values_iff {key : String} {value : Datum} :
    (key, value) ∈ (b.params.keys.flatMap fun key => (lastValues steps key).map (Prod.mk key)) ↔
      value ∈ lastValues steps key := by
  constructor
  · intro hmem
    obtain ⟨key', -, he⟩ := List.mem_flatMap.1 hmem
    obtain ⟨value', hvalue, heq⟩ := List.mem_map.1 he
    cases heq
    exact hvalue
  · intro hvalue
    obtain ⟨d, hd, -⟩ := mem_lastValues.1 hvalue
    obtain ⟨v, -, hmem⟩ := h.exists_mem_entries hd
    exact List.mem_flatMap.2 ⟨key, List.mem_map_of_mem hmem, List.mem_map_of_mem hvalue⟩

end Builder.Records

/-- **When all enumerators of a header are different.** After any steps that leave each string parameter with
different strings as its values, the enumerators of all enumerations together are different exactly if no two
of these values have the same upper case, be they values of one parameter or of two. -/
theorem enumerators_nodup_iff (correction : String) (target : Target) (steps : List Step) (w : World)
    (hvalues : ∀ key, DifferentStrings (lastValues steps key)) :
    let b := (Builder.performAll steps (Builder.new correction target) w).1
    b.enums = String.join (b.enumerations.map Enumeration.text) ∧
      ((b.enumerations.flatMap Enumeration.enumerators).Nodup ↔
        ∀ key key' s s', .scalar (.str s) ∈ lastValues steps key →
          .scalar (.str s') ∈ lastValues steps key' → Text.upperCase s = Text.upperCase s' →
          key = key' ∧ s = s') := by
  intro b
  have hrecords := Builder.records_performAll correction target steps w
  refine ⟨b.enums_eq, ?_⟩
  rw [hrecords.enumerators_eq,
    List.nodup_map_iff_inj_on (hrecords.nodup_values fun key => (hvalues key).nodup)]
  constructor
  · intro hinj key key' s s' hs hs' hupper
    have heq := hinj _ (hrecords.mem_values_iff.2 hs) _ (hrecords.mem_values_iff.2 hs')
      ((enumerator_eq_iff _ _ _).2 hupper)
    cases heq
    exact ⟨rfl, rfl⟩
  · rintro hinj ⟨key, value⟩ hvalue ⟨key', value'⟩ hvalue' heq
    rw [hrecords.mem_values_iff] at hvalue hvalue'
    obtain ⟨s, rfl⟩ := (hvalues key).string value hvalue
    obtain ⟨s', rfl⟩ := (hvalues key').string value' hvalue'
    have hupper := (enumerator_eq_iff correction (.scalar (.str s)) (.scalar (.str s'))).1 heq
    obtain ⟨rfl, rfl⟩ := hinj key key' s s' hvalue hvalue' hupper
    rfl

/-- What holds of the values in all declarations holds of those in the last ones. -/
theorem lastValues_of_forall {P : List Datum → Prop} {steps : List Step} (hnil : P [])
    (h : ∀ d, .addVariable d ∈ steps → P d.values) (key : String) : P (lastValues steps key) := by
  unfold lastValues
  cases hd : lastDeclaration? steps key with
  | none => exact hnil
  | some d =>
    by_cases htype : d.type = "string"
    · simpa [htype] using h d (mem_of_lastDeclaration? hd)
    · simpa [htype] using hnil

/-- The last of three string parameters is declared again, at first with a value of the second one. -/
theorem enumerators_redeclared_nodup :
    let value (s : String) : Datum := .scalar (.str s)
    let null : Datum := .scalar .null
    let steps : List Step :=
      [.addVariable ⟨"string", "k", null, null, [value "up", value "down"]⟩,
        .addVariable ⟨"string", "l", null, null, [value "Straße"]⟩,
        .addVariable ⟨"string", "m", null, null, [value "STRASSE"]⟩,
        .addVariable ⟨"string", "m", null, null, [value "nominal"]⟩]
    let b := (Builder.performAll steps (Builder.new "sf" .c) (.start .absent [])).1
    (∀ key, DifferentStrings (lastValues steps key)) ∧
    b.enumerations = [⟨"k_sf", ["UP_sf", "DOWN_sf"]⟩, ⟨"l_sf", ["STRASSE_sf"]⟩,
      ⟨"m_sf", ["NOMINAL_sf"]⟩] ∧
    ∀ key key' s s', value s ∈ lastValues steps key → value s' ∈ lastValues steps key' →
      Text.upperCase s = Text.upperCase s' → key = key' ∧ s = s' := by
  intro value null steps b
  have hvalues : ∀ key, DifferentStrings (lastValues steps key) := by
    refine lastValues_of_forall ⟨List.nodup_nil, by simp⟩ fun d hd => ?_
    simp only [steps, List.mem_cons, Step.addVariable.injEq, List.not_mem_nil, or_false] at hd
    rcases hd with rfl | rfl | rfl | rfl
    all_goals exact ⟨by decide, by simp [value]⟩
  have hb : b.enumerations = [⟨"k_sf", ["UP_sf", "DOWN_sf"]⟩, ⟨"l_sf", ["STRASSE_sf"]⟩,
      ⟨"m_sf", ["NOMINAL_sf"]⟩] := by
    rw [show b = steps.foldl Builder.after _ from Builder.performAll_builder _ _ _]
    decide +kernel
  refine ⟨hvalues, hb, (enumerators_nodup_iff "sf" .c steps (.start .absent []) hvalues).2.1 ?_⟩
  rw [show (Builder.performAll steps (Builder.new "sf" .c) (.start .absent [])).1.enumerations = _ from hb]
  decide

/-- **Two parameters with a common value have a common enumerator.** -/
theorem common_value_repeats_enumerator :
    let value (s : String) : Datum := .scalar (.str s)
    let null : Datum := .scalar .null
    let steps : List Step :=
      [.addVariable ⟨"string", "k", null, null, [value "a", value "b"]⟩,
        .addVariable ⟨"string", "l", null, null, [value "a"]⟩]
    let b := (Builder.performAll steps (Builder.new "sf" .c) (.start .absent [])).1
    (∀ key, DifferentStrings (lastValues steps key)) ∧
    b.enums = Enumeration.text ⟨"k_sf", ["A_sf", "B_sf"]⟩ ++ Enumeration.text ⟨"l_sf", ["A_sf"]⟩ ∧
    ¬(b.enumerations.flatMap Enumeration.enumerators).Nodup := by
  intro value null steps b
  have hb : b.enumerations = [⟨"k_sf", ["A_sf", "B_sf"]⟩, ⟨"l_sf", ["A_sf"]⟩] := by
    rw [show b = steps.foldl Builder.after _ from Builder.performAll_builder _ _ _]
    decide +kernel
  refine ⟨lastValues_of_forall ⟨List.nodup_nil, by simp⟩ fun d hd => ?_, ?_, ?_⟩
  · simp only [steps, List.mem_cons, Step.addVariable.injEq, List.not_mem_nil, or_false] at hd
    rcases hd with rfl | rfl
    all_goals exact ⟨by decide, by simp [value]⟩
  · rw [b.enums_eq, hb]
    simp [String.join_cons]
  · rw [hb]
    decide

/-! ## The types of parameters -/

/-- A parameter as it is printed. -/
def Code.Parameter.text (p : Parameter) : String := "const " ++ p.type.code ++ " " ++ p.name

/-- The type is one of the language, or exactly one of the enumerations declares it. -/
def Declared (es : List Enumeration) (type : VariableType) : Prop :=
  type.code = "float" ∨ type.code = "int" ∨ (es.map Enumeration.type).count type.code = 1

theorem Variable.enumeration_ne_int (name correction : String) : name ++ "_" ++ correction ≠ "int" := by
  intro h
  have hmem : '_' ∈ (name ++ "_" ++ correction).toList := by simp
  rw [h] at hmem
  simp at hmem

namespace Builder

theorem parameterList_eq (b : Builder) :
    b.parameterList = ", ".intercalate (b.parameters.map Parameter.text) := by
  rw [parameterList, parameters, List.map_map]
  rfl

/-- The enumerations stand before the function. -/
theorem exists_dump_eq {b : Builder} {text : String} (h : b.dump = .ok text) :
    ∃ before between rest, text = before ++ b.enums ++ between ++ "float " ++ b.name ++ "(" ++
      ", ".intercalate (b.parameters.map Parameter.text) ++ ")" ++ rest := by
  obtain ⟨-, -, code, -, rfl⟩ := dump_eq_ok_iff.1 h
  have hcut : "        float " = "        " ++ "float " := by decide
  have hcut' : ")\x7b\n" = ")" ++ "\x7b\n" := by decide
  refine ⟨"\n" ++ "        #include <stdlib.h>\n" ++ "        #include <stdio.h>\n" ++
      "        #include <float.h>\n" ++ "\n" ++ "        ",
    "\n" ++ "        /*\n" ++ b.description ++ "\n*/\n" ++ "        ",
    "\x7b\n" ++ (b.statementText code ++ closing), ?_⟩
  unfold headerText opening
  rw [hcut, hcut', parameterList_eq]
  simp only [String.append_assoc]

namespace Records
variable {correction : String} {target : Target} {steps : List Step} {b : Builder}
  (h : Records correction target steps b)

include h

theorem mem_types_iff {type : String} : type ∈ b.enumerations.map Enumeration.type ↔
    ∃ key d, lastDeclaration? steps key = some d ∧ d.type = "string" ∧ d.values ≠ [] ∧
      type = key ++ "_" ++ correction := by
  rw [h.enumerations_eq]
  simp only [List.mem_map, List.mem_filterMap, Option.bind_eq_some_iff,
    Declaration.enumeration?_eq_some_iff]
  constructor
  · rintro ⟨e, ⟨key, -, d, hd, ⟨htype, hvalues⟩, rfl⟩, rfl⟩
    exact ⟨key, d, hd, htype, hvalues, by rw [name_of_lastDeclaration? hd]⟩
  · rintro ⟨key, d, hd, htype, hvalues, rfl⟩
    obtain ⟨v, -, hmem⟩ := h.exists_mem_entries hd
    exact ⟨_, ⟨key, List.mem_map_of_mem hmem, d, hd, ⟨htype, hvalues⟩, rfl⟩,
      by rw [name_of_lastDeclaration? hd]⟩

/-- **No type is declared twice.** The type of a parameter has the name of the parameter in it. -/
theorem nodup_types : (b.enumerations.map Enumeration.type).Nodup := by
  rw [h.enumerations_eq, List.map_filterMap]
  refine h.nodup_keys.filterMap fun key key' type htype htype' => ?_
  have htype_eq : ∀ {key}, type ∈ ((lastDeclaration? steps key).bind
      (Declaration.enumeration? correction)).map Enumeration.type → type = key ++ "_" ++ correction := by
    intro key hmem
    obtain ⟨e, he, rfl⟩ := Option.map_eq_some_iff.1 hmem
    obtain ⟨d, hd, he⟩ := Option.bind_eq_some_iff.1 he
    rw [(Declaration.enumeration?_eq_some_iff.1 he).2, name_of_lastDeclaration? hd]
  have heq := (htype_eq htype).symm.trans (htype_eq htype')
  rwa [String.append_left_inj, String.append_left_inj] at heq

/-- Only the type of a string parameter without values is not declared. -/
theorem declared_iff {key : String} {d : Declaration} {v : Variable}
    (hd : lastDeclaration? steps key = some d) (hv : Variable.declare correction d = .ok v) :
    Declared b.enumerations v.type ↔ (d.type = "string" → d.values ≠ []) := by
  rcases Variable.declare_eq_ok_iff.1 hv with ⟨htype, rfl⟩ | ⟨htype, rfl⟩ | ⟨htype, rfl⟩
  · exact iff_of_true (.inl rfl) (by simp [htype])
  · have hmem : (d.name ++ "_" ++ correction) ∈ b.enumerations.map Enumeration.type ↔ d.values ≠ [] := by
      rw [h.mem_types_iff, name_of_lastDeclaration? hd]
      constructor
      · rintro ⟨key', d', hd', -, hvalues, heq⟩
        rw [String.append_left_inj, String.append_left_inj] at heq
        subst heq
        cases hd.symm.trans hd'
        exact hvalues
      · intro hvalues
        exact ⟨key, d, hd, htype, hvalues, rfl⟩
    have hcount : (b.enumerations.map Enumeration.type).count (d.name ++ "_" ++ correction) = 1 ↔
        (d.name ++ "_" ++ correction) ∈ b.enumerations.map Enumeration.type :=
      ⟨fun hone => List.count_pos_iff.1 (by omega), List.count_eq_one_of_mem h.nodup_types⟩
    simp only [Declared, VariableType.code, Variable.enumeration_ne_float, Variable.enumeration_ne_int,
      false_or, hcount, hmem, htype, forall_true_left]
  · exact iff_of_true (.inr (.inl rfl)) (by simp [htype])

end Records

end Builder

/-- **When the types of all parameters are declared.** After any steps the header has its enumerations before the
function, and no type is declared twice. All types in the parameter list are declared exactly if every parameter
that was declared as a string at last has values in that declaration. -/
theorem parameter_types_declared_iff {correction : String} {target : Target} {steps : List Step} {w : World}
    {text : String} (htext : (Builder.performAll steps (Builder.new correction target) w).1.dump = .ok text) :
    let b := (Builder.performAll steps (Builder.new correction target) w).1
    (∃ before between rest, text = before ++ b.enums ++ between ++ "float " ++ b.name ++ "(" ++
      ", ".intercalate (b.parameters.map Parameter.text) ++ ")" ++ rest) ∧
    b.enums = String.join (b.enumerations.map Enumeration.text) ∧
    (b.enumerations.map Enumeration.type).Nodup ∧
    ((∀ p ∈ b.parameters, Declared b.enumerations p.type) ↔
      ∀ key d, lastDeclaration? steps key = some d → d.type = "string" → d.values ≠ []) := by
  intro b
  have hrecords := Builder.records_performAll correction target steps w
  refine ⟨Builder.exists_dump_eq htext, b.enums_eq, hrecords.nodup_types, ?_, ?_⟩
  · intro hdeclared key d hd
    obtain ⟨v, hv, hmem⟩ := hrecords.exists_mem_entries hd
    exact (hrecords.declared_iff hd hv).1
      (hdeclared ⟨v.type, v.name⟩ (List.mem_map_of_mem (List.mem_map_of_mem hmem)))
  · intro hvalues p hp
    obtain ⟨v, hv, rfl⟩ := List.mem_map.1 hp
    obtain ⟨⟨key, v⟩, hmem, rfl⟩ := List.mem_map.1 hv
    obtain ⟨d, hd, hdeclare⟩ := hrecords.mem_entries_iff.1 hmem
    exact (hrecords.declared_iff hd hdeclare).2 (hvalues key d hd)

/-- Two parameters that change their types. The first one has no values when it becomes a string. -/
theorem retyped_parameters_declared :
    let bound : Datum := .scalar (.int 0)
    let steps : List Step :=
      [.addVariable ⟨"real", "k", bound, bound, []⟩, .addVariable ⟨"string", "x", bound, bound, []⟩,
        .addVariable ⟨"string", "k", bound, bound, []⟩, .addVariable ⟨"real", "x", bound, bound, []⟩,
        .addVariable ⟨"string", "k", bound, bound, [.scalar (.str "a")]⟩, .setContent .constantBin]
    let b := (Builder.performAll steps (Builder.new "sf" .c) (.start .absent [])).1
    (∃ text, b.dump = .ok text) ∧ b.parameters = [⟨.enumeration "k_sf", "k"⟩, ⟨.float, "x"⟩] ∧
      ∀ p ∈ b.parameters, Declared b.enumerations p.type := by
  intro bound steps b
  have hb : b = ⟨"sf", .c, "",
      ⟨[("k", ⟨"k", .enumeration "k_sf", bound, bound, some [.scalar (.str "a")]⟩),
        ("x", ⟨"x", .float, bound, bound, none⟩)]⟩, .constantBin⟩ := by
    rw [show b = steps.foldl Builder.after _ from Builder.performAll_builder _ _ _]
    rfl
  have hdump : ∃ text, b.dump = .ok text := by
    rw [hb]
    exact Builder.exists_dump (by decide +kernel)
  have hvalues : ∀ key d, lastDeclaration? steps key = some d → d.type = "string" → d.values ≠ [] := by
    intro key d hd htype
    have hname := name_of_lastDeclaration? hd
    have hmem := mem_of_lastDeclaration? hd
    have hk : lastDeclaration? steps "k" = some ⟨"string", "k", bound, bound, [.scalar (.str "a")]⟩ := rfl
    have hx : lastDeclaration? steps "x" = some ⟨"real", "x", bound, bound, []⟩ := rfl
    simp only [steps, List.mem_cons, Step.addVariable.injEq, reduceCtorEq, List.not_mem_nil, or_false]
      at hmem
    rcases hmem with rfl | rfl | rfl | rfl | rfl
    · simp at htype
    · subst hname
      simp [hx] at hd
    · subst hname
      simp [hk] at hd
    · simp at htype
    · simp
  exact ⟨hdump, by rw [hb]; rfl, (parameter_types_declared_iff hdump.choose_spec).2.2.2.2 hvalues⟩

/-- **The type of a string parameter without values is not declared.** -/
theorem undeclared_parameter_type :
    ∃ one x, Binary64.read? "1.0" = some one ∧ Binary64.read? "1.5" = some x ∧
      let steps : List Step :=
        [.addVariable ⟨"string", "k", .scalar .null, .scalar .null, []⟩,
          .addVariable ⟨"real", "x", .scalar (.real (.zero false)), .scalar (.real one), []⟩,
          .setContent (.binning "x" (.listed [.scalar (.real (.zero false)), .scalar (.real one)])
            [.constant x] .clamp)]
      let b := (Builder.performAll steps (Builder.new "sf" .c) (.start .absent [])).1
      (∃ text, b.dump = .ok text) ∧ b.parameterList = "const k_sf k, const float x" ∧ b.enums = "" ∧
        ⟨.enumeration "k_sf", "k"⟩ ∈ b.parameters ∧
        ¬Declared b.enumerations (.enumeration "k_sf") := by
  refine ⟨.ofRank false (1023 * 2 ^ 52), .ofRank false (1023 * 2 ^ 52 + 2 ^ 51), by decide +kernel,
    by decide +kernel, ?_⟩
  intro steps b
  have hb : b = ⟨"sf", .c, "", ⟨[("k", ⟨"k", .enumeration "k_sf", .scalar .null, .scalar .null, none⟩),
      ("x", ⟨"x", .float, .scalar (.real (.zero false)),
        .scalar (.real (.ofRank false (1023 * 2 ^ 52))), none⟩)]⟩, .constantBin⟩ := by
    rw [show b = steps.foldl Builder.after _ from Builder.performAll_builder _ _ _]
    rfl
  have hnone : b.enumerations = [] := by
    rw [hb]
    rfl
  refine ⟨?_, ?_, ?_, ?_, ?_⟩
  · rw [hb]
    exact Builder.exists_dump (by decide +kernel)
  · rw [hb]
    decide +kernel
  · rw [b.enums_eq, hnone]
    rfl
  · rw [hb]
    exact List.mem_cons_self
  · rw [hnone]
    simp [Declared, VariableType.code]

end Corrections
