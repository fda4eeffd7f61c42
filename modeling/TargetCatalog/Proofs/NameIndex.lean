import TargetCatalog.Registration

/-!
# Indexes that agree with a catalogue

An index agrees with a list of names when it gives every name its position there and knows no other
name. Both catalogues keep this up with every entry they append; it makes names unique and every
stored position valid.
-/

namespace TargetCatalog.NameIndex

def Agrees (x : NameIndex) (names : List String) : Prop :=
  ∀ name i, x.find? name = some i ↔ names[i]? = some name

theorem agrees_empty : empty.Agrees [] := by
  intro name i
  simp

namespace Agrees

variable {x : NameIndex} {names : List String}

theorem contains_iff (h : x.Agrees names) (name : String) :
    x.contains name = true ↔ name ∈ names := by
  rw [NameIndex.contains_iff, List.mem_iff_getElem?]
  exact exists_congr (h name)

theorem find?_eq_none_iff (h : x.Agrees names) (name : String) :
    x.find? name = none ↔ name ∉ names := by
  rw [← h.contains_iff name, contains, Option.not_isSome_iff_eq_none]

theorem lt_length (h : x.Agrees names) {name : String} {i : Nat} (hi : x.find? name = some i) :
    i < names.length :=
  (List.getElem?_eq_some_iff.mp ((h name i).mp hi)).1

theorem nodup (h : x.Agrees names) : names.Nodup := by
  rw [List.Nodup, List.pairwise_iff_getElem]
  intro i j hi hj hij hEq
  have hFirst : x.find? names[i] = some i := (h _ i).mpr (List.getElem?_eq_getElem hi)
  have hSecond : x.find? names[i] = some j :=
    (h _ j).mpr (hEq ▸ List.getElem?_eq_getElem hj)
  exact Nat.ne_of_lt hij (Option.some.inj (hFirst.symm.trans hSecond))

/-- What a name leads to is the entry that has it. -/
theorem find?_bind_eq_some_iff {α : Type} {f : α → String} {xs : List α}
    (h : x.Agrees (xs.map f)) (name : String) (a : α) :
    ((x.find? name).bind fun i => xs[i]?) = some a ↔ a ∈ xs ∧ f a = name := by
  have hName : ∀ i, x.find? name = some i ↔ xs[i]?.map f = some name := by
    intro i
    rw [h name i, List.getElem?_map]
  rw [Option.bind_eq_some_iff]
  constructor
  · rintro ⟨i, hFound, hGet⟩
    have hSame := (hName i).mp hFound
    rw [hGet] at hSame
    exact ⟨List.mem_of_getElem? hGet, Option.some.inj hSame⟩
  · rintro ⟨hMem, hSame⟩
    obtain ⟨i, hGet⟩ := List.mem_iff_getElem?.mp hMem
    exact ⟨i, (hName i).mpr (by rw [hGet, Option.map_some, hSame]), hGet⟩

/-- Entries of one name are one entry. -/
theorem eq_of_name_eq {α : Type} {f : α → String} {xs : List α} (h : x.Agrees (xs.map f))
    {a b : α} (ha : a ∈ xs) (hb : b ∈ xs) (hName : f a = f b) : a = b := by
  have hFirst := (h.find?_bind_eq_some_iff (f b) a).mpr ⟨ha, hName⟩
  have hSecond := (h.find?_bind_eq_some_iff (f b) b).mpr ⟨hb, rfl⟩
  exact Option.some.inj (hFirst.symm.trans hSecond)

theorem insert (h : x.Agrees names) {name : String} (hNew : name ∉ names) :
    (x.insert name names.length).Agrees (names ++ [name]) := by
  intro n i
  rw [find?_insert, List.getElem?_append]
  by_cases hName : n = name
  · subst n
    rw [if_pos rfl, Option.some.injEq]
    constructor
    · rintro rfl
      simp
    · intro hi
      split at hi
      · exact absurd (List.mem_of_getElem? hi) hNew
      · have hLast := (List.getElem?_eq_some_iff.mp hi).1
        simp only [List.length_singleton] at hLast
        omega
  · rw [if_neg hName, h n i]
    split
    · rfl
    · rename_i hi
      rw [List.getElem?_eq_none (by omega)]
      constructor
      · intro hNone
        cases hNone
      · intro hLast
        exact absurd (List.mem_singleton.mp (List.mem_of_getElem? hLast)) hName

end Agrees

end TargetCatalog.NameIndex
