import TargetCatalog.Definitions.Record
import TargetCatalog.Proofs.FlagTable

/-!
# Fields and their values

What is found in a record under the name of a field, and the values of single fields, read back as
they are written.
-/

namespace TargetCatalog

section Fields

variable {name : String}

@[simp] theorem fieldValue?_nil : fieldValue? [] name = none :=
  rfl

@[simp] theorem fieldValue?_append (first second : List (String × Datum)) :
    fieldValue? (first ++ second) name =
      (fieldValue? second name).or (fieldValue? first name) := by
  rw [fieldValue?, List.reverse_append, List.find?_append, Option.map_or]
  rfl

@[simp] theorem fieldValue?_cons (key : String) (value : Datum) (fields : List (String × Datum)) :
    fieldValue? ((key, value) :: fields) name =
      (fieldValue? fields name).or (if key = name then some value else none) := by
  have hFirst : fieldValue? [(key, value)] name = if key = name then some value else none := by
    by_cases h : key = name
    · simp [fieldValue?, h]
    · simp [fieldValue?, h]
  rw [← hFirst, ← fieldValue?_append, List.singleton_append]

theorem optionalField_ite (p : Prop) [Decidable p] (key : String) (value : Datum) :
    optionalField key (if p then none else some value) = if p then [] else [(key, value)] := by
  split <;> rfl

theorem decodeField_of_some {α : Type} {fields : List (String × Datum)}
    {decode : Datum → Option α} {absent : Option α} {value : Datum}
    (h : fieldValue? fields name = some value) :
    decodeField fields name decode absent = decode value := by
  rw [decodeField, h]

end Fields

theorem mapM_map_of_decode {α β : Type} (decode : β → Option α) (encode : α → β)
    (h : ∀ x, decode (encode x) = some x) (xs : List α) :
    (xs.map encode).mapM decode = some xs := by
  induction xs with
  | nil => rfl
  | cons x xs ih => simp [h, ih]

@[simp] theorem Datum.texts?_ofTexts (values : List String) :
    (Datum.ofTexts values).texts? = some values :=
  mapM_map_of_decode Datum.text? Datum.text (fun _ => rfl) values

theorem optionalText?_ofOptionalText (value : Option String) :
    optionalText? (ofOptionalText value) = some value := by
  cases value with
  | none => rfl
  | some value => rfl

theorem alignment?_toNat (alignment : UInt32) :
    alignment? (.int alignment.toNat) = some alignment := by
  have hBound : (alignment.toNat : Int) < UInt32.size := by
    exact_mod_cast alignment.toNat_lt
  rw [alignment?, if_pos ⟨by omega, hBound⟩]
  simp

theorem MemberList.ofDatum?_toDatum (members : MemberList) :
    ofDatum? members.toDatum = some members := by
  cases members with
  | list entries => exact congrArg (Option.map list) (Datum.texts?_ofTexts entries)
  | words text => rfl

end TargetCatalog
