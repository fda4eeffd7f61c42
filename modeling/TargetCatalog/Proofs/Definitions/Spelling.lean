import Mathlib.Data.List.Forall2
import TargetCatalog.Proofs.Definitions.Record

/-!
# Spellings of a declaration

A declaration is written in one way but may be spelled in many. The members of a record come in any
order and may stand among members of other names; a field that has its default is left out or
spelled out; and the list of the values of all fields, in the order in which they are declared,
takes the place of the record. Each record inside another one has these choices of its own. All
spellings are read as the declaration that they spell.
-/

namespace TargetCatalog

/-- How a field is spelled: as a member of its name with one of its values, or not at all. -/
structure FieldSpelling where
  name : String
  Value : Datum → Prop
  Omissible : Prop

namespace FieldSpelling

def required (name : String) (Value : Datum → Prop) : FieldSpelling :=
  ⟨name, Value, False⟩

/-- A field whose content is `x`. -/
def defaulted {α : Type} (name : String) (Value : Datum → Prop) (x default : α) : FieldSpelling :=
  ⟨name, Value, x = default⟩

end FieldSpelling

/-- The members that spell the fields, in the order of the fields. -/
inductive FieldMembers : List FieldSpelling → List (String × Datum) → Prop
  | nil : FieldMembers [] []
  | spelled {field : FieldSpelling} {fields : List FieldSpelling} {value : Datum}
      {members : List (String × Datum)} (hValue : field.Value value)
      (hMembers : FieldMembers fields members) :
      FieldMembers (field :: fields) ((field.name, value) :: members)
  | omitted {field : FieldSpelling} {fields : List FieldSpelling}
      {members : List (String × Datum)} (hOmissible : field.Omissible)
      (hMembers : FieldMembers fields members) : FieldMembers (field :: fields) members

/-- The spellings of a record: the members of its fields and members of other names, in any order,
or the list of the values of all fields. -/
inductive RecordSpelling (fields : List FieldSpelling) : Datum → Prop
  | members {known others members : List (String × Datum)} (hKnown : FieldMembers fields known)
      (hOthers : ∀ m ∈ others, m.1 ∉ fields.map FieldSpelling.name)
      (hOrder : members.Perm (known ++ others)) : RecordSpelling fields (.record members)
  | values {values : List Datum} (hValues : List.Forall₂ FieldSpelling.Value fields values) :
      RecordSpelling fields (.list values)

/-- The spellings of a list, item by item. -/
inductive ListSpelling {α : Type} (Spelling : α → Datum → Prop) (xs : List α) : Datum → Prop
  | list {items : List Datum} (hItems : List.Forall₂ Spelling xs items) :
      ListSpelling Spelling xs (.list items)

/-- The spellings of a flag table: its entries in any order. -/
inductive FlagTable.Spelling (t : FlagTable) : Datum → Prop
  | record {entries : List (String × List String)} (hOrder : entries.Perm t.entries) :
      FlagTable.Spelling t (.record (entries.map fun (key, flags) => (key, .ofTexts flags)))

def Check.Spelling (c : Check) : Datum → Prop :=
  RecordSpelling [
    .required "name" (· = .text c.name),
    .defaulted "params" (· = .ofTexts c.params) c.params []]

def ArchDef.Spelling (d : ArchDef) : Datum → Prop :=
  RecordSpelling [
    .defaulted "name" (· = .text d.name) d.name "",
    .defaulted "environment" (· = ofOptionalText d.environment) d.environment none,
    .defaulted "include" (· = ofOptionalText d.header) d.header none,
    .defaulted "alignment" (· = .int d.alignment.toNat) d.alignment 1,
    .defaulted "check" (ListSpelling Check.Spelling d.checks) d.checks [],
    .defaulted "flags" d.flags.Spelling d.flags .empty]

def MachineDef.Spelling (d : MachineDef) : Datum → Prop :=
  RecordSpelling [
    .required "name" (· = .text d.name),
    .defaulted "archs" (· = d.archs.toDatum) d.archs (.list [])]

def Definitions.Spelling (d : Definitions) : Datum → Prop :=
  RecordSpelling [
    .defaulted "arch" (ListSpelling ArchDef.Spelling d.archs) d.archs [],
    .defaulted "machine" (ListSpelling MachineDef.Spelling d.machines) d.machines []]

section Fields

variable {members : List (String × Datum)} {name : String}

theorem fieldValue?_eq_none_iff :
    fieldValue? members name = none ↔ ∀ m ∈ members, m.1 ≠ name := by
  simp [fieldValue?]

/-- The value of a member that is the only one of its name. -/
theorem fieldValue?_eq_some {value : Datum}
    (h : ∀ other, (name, other) ∈ members ↔ other = value) :
    fieldValue? members name = some value := by
  cases hFound : fieldValue? members name with
  | none =>
    exact absurd rfl (fieldValue?_eq_none_iff.mp hFound (name, value) ((h value).mpr rfl))
  | some found =>
    obtain ⟨⟨key, other⟩, hMember, hOther⟩ := Option.map_eq_some_iff.mp hFound
    have hKey : key = name := by simpa using List.find?_some hMember
    have hMem : (key, other) ∈ members := by simpa using List.mem_of_find?_eq_some hMember
    rw [hKey, h] at hMem
    rw [← hOther, hMem]

namespace FieldSpelling

/-- The members have the field once, with one of its values, or need not have it and do not. -/
def FoundIn (field : FieldSpelling) (members : List (String × Datum)) : Prop :=
  (∃ value, field.Value value ∧ ∀ other, (field.name, other) ∈ members ↔ other = value) ∨
    (field.Omissible ∧ ∀ m ∈ members, m.1 ≠ field.name)

variable {field : FieldSpelling}

theorem FoundIn.of_mem_iff {others : List (String × Datum)} (h : field.FoundIn others)
    (hSame : ∀ m : String × Datum, m.1 = field.name → (m ∈ members ↔ m ∈ others)) :
    field.FoundIn members := by
  obtain ⟨value, hValue, hOnly⟩ | ⟨hOmissible, hNone⟩ := h
  · exact .inl ⟨value, hValue, fun other => (hSame _ rfl).trans (hOnly other)⟩
  · exact .inr ⟨hOmissible, fun m hm hName => hNone m ((hSame m hName).mp hm) hName⟩

section Decoding

variable {α : Type} {decode : Datum → Option α} {x default : α} {Value : Datum → Prop}

theorem FoundIn.decodeField_required (h : (required name Value).FoundIn members)
    (hValue : ∀ value, Value value → decode value = some x) :
    decodeField members name decode none = some x := by
  obtain ⟨value, hSpelled, hOnly⟩ | ⟨⟨⟩, -⟩ := h
  exact (decodeField_of_some (fieldValue?_eq_some hOnly)).trans (hValue value hSpelled)

theorem FoundIn.decodeField_defaulted (h : (defaulted name Value x default).FoundIn members)
    (hValue : ∀ value, Value value → decode value = some x) :
    decodeField members name decode (some default) = some x := by
  obtain ⟨value, hSpelled, hOnly⟩ | ⟨hDefault, hNone⟩ := h
  · exact (decodeField_of_some (fieldValue?_eq_some hOnly)).trans (hValue value hSpelled)
  · have hAbsent : fieldValue? members name = none := fieldValue?_eq_none_iff.mpr hNone
    rw [decodeField, hAbsent]
    exact congrArg some hDefault.symm

end Decoding

end FieldSpelling

end Fields

namespace FieldMembers

variable {field : FieldSpelling} {fields : List FieldSpelling} {members : List (String × Datum)}

theorem name_mem (h : FieldMembers fields members) {m : String × Datum} (hm : m ∈ members) :
    m.1 ∈ fields.map FieldSpelling.name := by
  induction h with
  | nil => cases hm
  | spelled _ _ ih =>
    rcases List.mem_cons.mp hm with rfl | hm
    · exact List.mem_cons_self
    · exact List.mem_cons_of_mem _ (ih hm)
  | omitted _ _ ih => exact List.mem_cons_of_mem _ (ih hm)

theorem foundIn (h : FieldMembers fields members) (hNames : (fields.map FieldSpelling.name).Nodup)
    (hField : field ∈ fields) : field.FoundIn members := by
  induction h with
  | nil => cases hField
  | @spelled first rest value members hValue hMembers ih =>
    obtain ⟨hFirst, hRest⟩ := List.nodup_cons.mp hNames
    rcases List.mem_cons.mp hField with rfl | hField
    · refine .inl ⟨value, hValue, fun other => ?_⟩
      have hElse : (field.name, other) ∉ members := fun hm => hFirst (hMembers.name_mem hm)
      simp [hElse]
    · refine (ih hRest hField).of_mem_iff fun m hName => ?_
      have hOther : field.name ≠ first.name := fun hSame =>
        hFirst (hSame ▸ List.mem_map_of_mem hField)
      have hNe : m ≠ (first.name, value) := fun hm => hOther (hName ▸ congrArg Prod.fst hm)
      simp [hNe]
  | @omitted first rest members hOmissible hMembers ih =>
    obtain ⟨hFirst, hRest⟩ := List.nodup_cons.mp hNames
    rcases List.mem_cons.mp hField with rfl | hField
    · exact .inr ⟨hOmissible, fun m hm hName => hFirst (hName ▸ hMembers.name_mem hm)⟩
    · exact ih hRest hField

theorem of_values {values : List Datum} (h : List.Forall₂ FieldSpelling.Value fields values) :
    FieldMembers fields ((fields.map FieldSpelling.name).zip values) := by
  induction h with
  | nil => exact .nil
  | cons hValue _ ih => exact .spelled hValue ih

section Optional

variable {α : Type} {name : String} {Value : Datum → Prop} {x default : α}

theorem optional {value : Option Datum} (hMembers : FieldMembers fields members)
    (hValue : ∀ v, value = some v → Value v) (hDefault : value = none → x = default) :
    FieldMembers (.defaulted name Value x default :: fields)
      (optionalField name value ++ members) := by
  cases value with
  | none => exact .omitted (hDefault rfl) hMembers
  | some value => exact .spelled (hValue value rfl) hMembers

theorem optional_ite {p : Prop} [Decidable p] {value : Datum}
    (hMembers : FieldMembers fields members) (hValue : Value value) (hDefault : p → x = default) :
    FieldMembers (.defaulted name Value x default :: fields)
      (optionalField name (if p then none else some value) ++ members) := by
  refine optional hMembers (fun v hv => ?_) fun h => ?_
  · obtain ⟨-, rfl⟩ : ¬ p ∧ value = v := by simpa using hv
    exact hValue
  · exact hDefault (by simpa using h)

end Optional

theorem recordSpelling (h : FieldMembers fields members) :
    RecordSpelling fields (.record members) :=
  .members h (fun _ hm => absurd hm List.not_mem_nil) (by rw [List.append_nil])

end FieldMembers

/-- However a record is spelled, its fields are found in it. -/
theorem RecordSpelling.exists_fields {fields : List FieldSpelling} {d : Datum}
    (h : RecordSpelling fields d) (names : List String)
    (hNames : fields.map FieldSpelling.name = names) (hDistinct : names.Nodup)
    (surplus : Surplus) :
    ∃ members, d.fields? surplus names = some members ∧
      fields.Forall fun field => field.FoundIn members := by
  subst hNames
  simp only [List.forall_iff_forall_mem]
  cases h with
  | @members known others members hKnown hOthers hOrder =>
    refine ⟨members, rfl, fun field hField => (hKnown.foundIn hDistinct hField).of_mem_iff ?_⟩
    intro m hName
    have hElse : m ∉ others := fun hm => hOthers m hm (hName ▸ List.mem_map_of_mem hField)
    rw [hOrder.mem_iff, List.mem_append, or_iff_left hElse]
  | @values values hValues =>
    have hLength : ¬ (fields.map FieldSpelling.name).length < values.length := by
      rw [List.length_map, hValues.length_eq]
      exact Nat.lt_irrefl _
    refine ⟨_, ?_, fun field => (FieldMembers.of_values hValues).foundIn hDistinct⟩
    rw [Datum.fields?, if_neg fun h => hLength h.2]

theorem Datum.text?_text (value : String) : (Datum.text value).text? = some value :=
  rfl

theorem eq_ofOptionalText {value : Option String} {d : Datum} (h : value.map .text = some d) :
    d = ofOptionalText value := by
  obtain ⟨text, rfl, rfl⟩ := Option.map_eq_some_iff.mp h
  rfl

section Lists

variable {α : Type} {Spelling : α → Datum → Prop} {xs : List α}

theorem ListSpelling.mapM_eq {decode : Datum → Option α} {d : Datum}
    (h : ListSpelling Spelling xs d) (hDecode : ∀ x d, Spelling x d → decode d = some x) :
    d.items?.bind (List.mapM decode) = some xs := by
  obtain ⟨hItems⟩ := h
  rw [Datum.items?, Option.bind_some]
  induction hItems with
  | nil => rfl
  | cons hItem _ ih => simp [hDecode _ _ hItem, ih]

theorem ListSpelling.map {encode : α → Datum} (h : ∀ x, Spelling x (encode x)) (xs : List α) :
    ListSpelling Spelling xs (.list (xs.map encode)) :=
  .list (List.forall₂_map_right_iff.mpr (List.forall₂_same.mpr fun x _ => h x))

end Lists

theorem FlagTable.Spelling.ofDatum?_eq {t : FlagTable} {d : Datum} (h : t.Spelling d) :
    FlagTable.ofDatum? d = some t := by
  obtain ⟨hOrder⟩ := h
  rename_i entries
  have hEntries := mapM_map_of_decode
    (fun field : String × Datum => field.2.texts?.map (field.1, ·))
    (fun entry : String × List String => (entry.1, Datum.ofTexts entry.2)) (by simp) entries
  simp [ofDatum?, hEntries, ofList_of_perm hOrder]

theorem FlagTable.spelling_toDatum (t : FlagTable) : t.Spelling t.toDatum :=
  .record (.refl t.entries)

namespace Check

variable {c : Check} {d : Datum}

theorem Spelling.ofDatum?_eq (h : c.Spelling d) (surplus : Surplus) :
    ofDatum? surplus d = some c := by
  obtain ⟨members, hFields, hName, hParams⟩ :=
    h.exists_fields ["name", "params"] rfl (by decide) surplus
  have hNameValue := hName.decodeField_required (forall_eq.mpr (Datum.text?_text c.name))
  have hParamsValue := hParams.decodeField_defaulted (forall_eq.mpr (Datum.texts?_ofTexts c.params))
  simp [ofDatum?, hFields, hNameValue, hParamsValue]

theorem spelling_toDatum (c : Check) : c.Spelling c.toDatum :=
  FieldMembers.recordSpelling (.spelled rfl (.spelled rfl .nil))

end Check

namespace ArchDef

variable {x : ArchDef} {d : Datum}

theorem Spelling.ofDatum?_eq (h : x.Spelling d) (surplus : Surplus) :
    ofDatum? surplus d = some x := by
  obtain ⟨members, hFields, hName, hEnvironment, hHeader, hAlignment, hChecks, hFlags⟩ :=
    h.exists_fields fieldNames rfl (by decide) surplus
  have hNameValue := hName.decodeField_defaulted (forall_eq.mpr (Datum.text?_text x.name))
  have hEnvironmentValue := hEnvironment.decodeField_defaulted
    (forall_eq.mpr (optionalText?_ofOptionalText x.environment))
  have hHeaderValue := hHeader.decodeField_defaulted
    (forall_eq.mpr (optionalText?_ofOptionalText x.header))
  have hAlignmentValue := hAlignment.decodeField_defaulted
    (forall_eq.mpr (alignment?_toNat x.alignment))
  have hChecksValue := hChecks.decodeField_defaulted fun _ h =>
    h.mapM_eq fun _ _ hCheck => hCheck.ofDatum?_eq surplus
  have hFlagsValue := hFlags.decodeField_defaulted fun _ => FlagTable.Spelling.ofDatum?_eq
  simp [ofDatum?, hFields, hNameValue, hEnvironmentValue, hHeaderValue, hAlignmentValue,
    hChecksValue, hFlagsValue]

theorem spelling_toDatum (x : ArchDef) : x.Spelling x.toDatum := by
  rw [toDatum, ← List.append_nil x.fields]
  refine FieldMembers.recordSpelling ?_
  simp only [fields, List.append_assoc]
  refine .spelled rfl ?_
  refine .optional ?_ (fun _ => eq_ofOptionalText) Option.map_eq_none_iff.mp
  refine .optional ?_ (fun _ => eq_ofOptionalText) Option.map_eq_none_iff.mp
  refine .optional_ite ?_ rfl id
  refine .optional_ite ?_ (ListSpelling.map Check.spelling_toDatum x.checks) id
  exact .optional_ite .nil x.flags.spelling_toDatum FlagTable.eq_empty_of_isEmpty

end ArchDef

namespace MachineDef

variable {x : MachineDef} {d : Datum}

theorem Spelling.ofDatum?_eq (h : x.Spelling d) (surplus : Surplus) :
    ofDatum? surplus d = some x := by
  obtain ⟨members, hFields, hName, hArchs⟩ :=
    h.exists_fields ["name", "archs"] rfl (by decide) surplus
  have hNameValue := hName.decodeField_required (forall_eq.mpr (Datum.text?_text x.name))
  have hArchsValue := hArchs.decodeField_defaulted
    (forall_eq.mpr (MemberList.ofDatum?_toDatum x.archs))
  simp [ofDatum?, hFields, hNameValue, hArchsValue]

theorem spelling_toDatum (x : MachineDef) : x.Spelling x.toDatum :=
  FieldMembers.recordSpelling (.spelled rfl (.spelled rfl .nil))

end MachineDef

namespace Definitions

variable {x : Definitions} {d : Datum}

theorem Spelling.ofDatum?_eq (h : x.Spelling d) (surplus : Surplus) :
    ofDatum? surplus d = some x := by
  obtain ⟨members, hFields, hArchs, hMachines⟩ :=
    h.exists_fields ["arch", "machine"] rfl (by decide) surplus
  have hArchsValue := hArchs.decodeField_defaulted fun _ h =>
    h.mapM_eq fun _ _ hArch => hArch.ofDatum?_eq surplus
  have hMachinesValue := hMachines.decodeField_defaulted fun _ h =>
    h.mapM_eq fun _ _ hMachine => hMachine.ofDatum?_eq surplus
  simp [ofDatum?, hFields, hArchsValue, hMachinesValue]

theorem spelling_toDatum (x : Definitions) : x.Spelling x.toDatum :=
  FieldMembers.recordSpelling (.spelled (ListSpelling.map ArchDef.spelling_toDatum _)
    (.spelled (ListSpelling.map MachineDef.spelling_toDatum _) .nil))

/-- Definitions from the values of their two fields, whatever else the record holds. -/
theorem ofDatum?_record (surplus : Surplus) (x : Definitions)
    {fields : List (String × Datum)}
    (hArchs : fieldValue? fields "arch" = some (.list (x.archs.map ArchDef.toDatum)))
    (hMachines : fieldValue? fields "machine" = some (.list (x.machines.map MachineDef.toDatum))) :
    ofDatum? surplus (.record fields) = some x := by
  have hArchDefs := (ListSpelling.map ArchDef.spelling_toDatum x.archs).mapM_eq
    fun _ _ h => h.ofDatum?_eq surplus
  have hMachineDefs := (ListSpelling.map MachineDef.spelling_toDatum x.machines).mapM_eq
    fun _ _ h => h.ofDatum?_eq surplus
  simp [ofDatum?, Datum.fields?, decodeField_of_some hArchs, decodeField_of_some hMachines,
    hArchDefs, hMachineDefs]

end Definitions

end TargetCatalog
