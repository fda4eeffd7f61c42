/-!
# Flag tables

The flags that an architecture needs, by compiler. A table keeps its keys in ascending order of
their code points and no key twice, whatever the order in which it is filled; that is part of the
type, so equal tables are those with equal entries.
-/

namespace TargetCatalog

/-- Lists of flags by key, in ascending order of the keys. -/
structure FlagTable where
  entries : List (String × List String)
  ascending : entries.Pairwise fun a b => a.1 < b.1
  deriving DecidableEq

namespace FlagTable

@[ext] theorem ext {a b : FlagTable} (h : a.entries = b.entries) : a = b := by
  cases a
  cases b
  simp_all

instance : Repr FlagTable :=
  ⟨fun t => reprPrec t.entries⟩

def empty : FlagTable :=
  ⟨[], .nil⟩

instance : Inhabited FlagTable :=
  ⟨empty⟩

def isEmpty (t : FlagTable) : Bool :=
  t.entries.isEmpty

def find? (t : FlagTable) (key : String) : Option (List String) :=
  t.entries.lookup key

def contains (t : FlagTable) (key : String) : Bool :=
  (t.find? key).isSome

/-- Gives `key` the flags that `change` makes of those it has. -/
def alterEntries (key : String) (change : Option (List String) → List String) :
    List (String × List String) → List (String × List String)
  | [] => [(key, change none)]
  | (k, flags) :: rest =>
    if key < k then (key, change none) :: (k, flags) :: rest
    else if key = k then (key, change (some flags)) :: rest
    else (k, flags) :: alterEntries key change rest

theorem mem_alterEntries {key : String} {change : Option (List String) → List String}
    {entries : List (String × List String)} {e : String × List String}
    (h : e ∈ alterEntries key change entries) : e.1 = key ∨ e ∈ entries := by
  induction entries with
  | nil => simp_all [alterEntries]
  | cons entry rest ih =>
    simp only [alterEntries] at h
    split at h
    · rcases List.mem_cons.mp h with rfl | h
      · exact .inl rfl
      · exact .inr h
    · split at h
      · rcases List.mem_cons.mp h with rfl | h
        · exact .inl rfl
        · exact .inr (List.mem_cons_of_mem _ h)
      · rcases List.mem_cons.mp h with rfl | h
        · exact .inr List.mem_cons_self
        · rcases ih h with h | h
          · exact .inl h
          · exact .inr (List.mem_cons_of_mem _ h)

theorem ascending_alterEntries (key : String) (change : Option (List String) → List String)
    {entries : List (String × List String)} (h : entries.Pairwise fun a b => a.1 < b.1) :
    (alterEntries key change entries).Pairwise fun a b => a.1 < b.1 := by
  induction entries with
  | nil => simp [alterEntries]
  | cons entry rest ih =>
    obtain ⟨below, rest_ascending⟩ := List.pairwise_cons.mp h
    simp only [alterEntries]
    split
    · rename_i key_lt
      refine List.pairwise_cons.mpr ⟨fun e he => ?_, h⟩
      rcases List.mem_cons.mp he with rfl | he
      · exact key_lt
      · exact String.lt_trans key_lt (below e he)
    · rename_i not_lt
      split
      · rename_i key_eq
        exact List.pairwise_cons.mpr ⟨fun e he => key_eq ▸ below e he, rest_ascending⟩
      · rename_i key_ne
        refine List.pairwise_cons.mpr ⟨fun e he => ?_, ih rest_ascending⟩
        rcases mem_alterEntries he with he | he
        · rcases Std.lt_trichotomy key entry.1 with lt | eq | gt
          · exact absurd lt not_lt
          · exact absurd eq key_ne
          · exact he ▸ gt
        · exact below e he

theorem lookup_eq_none_of_lt {key : String} {entries : List (String × List String)}
    (h : ∀ e ∈ entries, key < e.1) : entries.lookup key = none := by
  induction entries with
  | nil => rfl
  | cons entry rest ih =>
    obtain ⟨k, flags⟩ := entry
    have key_lt : key < k := h (k, flags) List.mem_cons_self
    have key_ne : (key == k) = false :=
      beq_eq_false_iff_ne.mpr fun eq => String.lt_irrefl k (eq ▸ key_lt)
    rw [List.lookup_cons, key_ne]
    exact ih fun e he => h e (List.mem_cons_of_mem _ he)

theorem lookup_alterEntries (key : String) (change : Option (List String) → List String)
    {entries : List (String × List String)} (h : entries.Pairwise fun a b => a.1 < b.1)
    (k : String) :
    (alterEntries key change entries).lookup k =
      if k = key then some (change (entries.lookup key)) else entries.lookup k := by
  induction entries with
  | nil =>
    by_cases eq : k = key
    · simp [alterEntries, eq]
    · have ne : (k == key) = false := beq_eq_false_iff_ne.mpr eq
      simp [alterEntries, eq, List.lookup_cons, ne]
  | cons entry rest ih =>
    obtain ⟨first, flags⟩ := entry
    obtain ⟨below, rest_ascending⟩ := List.pairwise_cons.mp h
    have tail := ih rest_ascending
    simp only [alterEntries]
    split
    · rename_i key_lt
      have absent : List.lookup key ((first, flags) :: rest) = none :=
        lookup_eq_none_of_lt fun e he => by
          rcases List.mem_cons.mp he with rfl | he
          · exact key_lt
          · exact String.lt_trans key_lt (below e he)
      by_cases eq : k = key
      · simp [eq, absent]
      · have ne : (k == key) = false := beq_eq_false_iff_ne.mpr eq
        rw [List.lookup_cons, ne, if_neg eq]
    · split
      · rename_i key_eq
        subst key_eq
        by_cases eq : k = key
        · simp [eq]
        · have ne : (k == key) = false := beq_eq_false_iff_ne.mpr eq
          simp only [List.lookup_cons, ne, if_neg eq]
      · rename_i key_ne
        by_cases eq : k = first
        · have first_ne : ¬first = key := fun h => key_ne h.symm
          simp [eq, first_ne]
        · have ne : (k == first) = false := beq_eq_false_iff_ne.mpr eq
          have key_ne' : (key == first) = false := beq_eq_false_iff_ne.mpr key_ne
          simp only [List.lookup_cons, ne, key_ne']
          exact tail

/-- Gives `key` the flags that `change` makes of those it has. -/
def alter (t : FlagTable) (key : String) (change : Option (List String) → List String) :
    FlagTable :=
  ⟨alterEntries key change t.entries, ascending_alterEntries key change t.ascending⟩

def insert (t : FlagTable) (key : String) (flags : List String) : FlagTable :=
  t.alter key fun _ => flags

def append (t : FlagTable) (key : String) (flags : List String) : FlagTable :=
  t.alter key fun old => old.getD [] ++ flags

/-- The table of a list of entries; of entries with the same key the last one counts. -/
def ofList (entries : List (String × List String)) : FlagTable :=
  entries.foldl (fun t (key, flags) => t.insert key flags) empty

theorem find?_alter (t : FlagTable) (key : String) (change : Option (List String) → List String)
    (k : String) :
    (t.alter key change).find? k = if k = key then some (change (t.find? key)) else t.find? k :=
  lookup_alterEntries key change t.ascending k

theorem find?_insert (t : FlagTable) (key : String) (flags : List String) (k : String) :
    (t.insert key flags).find? k = if k = key then some flags else t.find? k :=
  find?_alter t key _ k

theorem find?_append (t : FlagTable) (key : String) (flags : List String) (k : String) :
    (t.append key flags).find? k =
      if k = key then some ((t.find? key).getD [] ++ flags) else t.find? k :=
  find?_alter t key _ k

end FlagTable

end TargetCatalog
