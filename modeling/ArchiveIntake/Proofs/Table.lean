import ArchiveIntake.Table

/-! Membership in tables and sets of names, in terms of equal names. -/

namespace ArchiveIntake

namespace Table
variable {α : Type} {table : Table α} {key other : String} {value : α}

theorem mem_of_getElem? (found : table[key]? = some value) : key ∈ table := by
  rw [Std.ExtTreeMap.mem_iff_isSome_getElem?, found]
  rfl

theorem getElem?_eq_none_iff : table[key]? = none ↔ key ∉ table := by
  rw [Std.ExtTreeMap.mem_iff_isSome_getElem?, Option.not_isSome_iff_eq_none]

theorem mem_insert_iff : other ∈ table.insert key value ↔ other ∈ table ∨ other = key := by
  rw [Std.ExtTreeMap.mem_insert, Std.compare_eq_iff_eq, or_comm, eq_comm]

theorem mem_insert_of_mem (held : key ∈ table) :
    other ∈ table.insert key value ↔ other ∈ table := by
  rw [mem_insert_iff]
  constructor
  · rintro (present | rfl)
    · exact present
    · exact held
  · exact .inl

theorem mem_erase_iff : other ∈ table.erase key ↔ other ≠ key ∧ other ∈ table := by
  rw [Std.ExtTreeMap.mem_erase, ne_eq, Std.compare_eq_iff_eq, eq_comm]

theorem getElem?_insert_iff : (table.insert key value)[other]? =
    if other = key then some value else table[other]? := by
  rw [Std.ExtTreeMap.getElem?_insert]
  simp only [Std.compare_eq_iff_eq, @eq_comm _ key]

theorem insert_eq_self (held : table[key]? = some value) : table.insert key value = table := by
  apply Std.ExtTreeMap.ext_getElem?
  intro other
  rw [getElem?_insert_iff]
  by_cases here : other = key
  · rw [if_pos here, here, held]
  · rw [if_neg here]

theorem erase_eq_self (absent : key ∉ table) : table.erase key = table := by
  apply Std.ExtTreeMap.ext_getElem?
  intro other
  rw [Std.ExtTreeMap.getElem?_erase]
  split
  next same => rw [← Std.compare_eq_iff_eq.mp same, getElem?_eq_none_iff.mpr absent]
  next => rfl

def insertAll (table : Table α) (entries : List (String × α)) : Table α :=
  entries.foldl (fun table entry => table.insert entry.1 entry.2) table

theorem insertAll_append (table : Table α) (first second : List (String × α)) :
    table.insertAll (first ++ second) = insertAll (table.insertAll first) second :=
  List.foldl_append

theorem getElem?_insertAll (table : Table α) (entries : List (String × α)) (key : String) :
    (table.insertAll entries)[key]? = (entries.reverse.lookup key).or table[key]? := by
  unfold insertAll
  induction entries generalizing table with
  | nil => rfl
  | cons entry rest ih =>
    rw [List.foldl_cons, ih, List.reverse_cons, List.lookup_append, List.lookup_cons, List.lookup_nil,
      getElem?_insert_iff]
    by_cases here : key = entry.1
    · simp [here]
    · simp [here, beq_eq_false_iff_ne.mpr here]

theorem insertAll_insertAll (table : Table α) (entries : List (String × α)) :
    (table.insertAll entries).insertAll entries = table.insertAll entries := by
  apply Std.ExtTreeMap.ext_getElem?
  intro key
  rw [getElem?_insertAll, getElem?_insertAll, ← Option.or_assoc, Option.or_self]

theorem insertAll_toList (table : Table α) : insertAll ∅ table.toList = table := by
  apply Std.ExtTreeMap.ext_getElem?
  intro key
  rw [getElem?_insertAll, Std.ExtTreeMap.getElem?_empty, Option.or_none]
  cases found : table.toList.reverse.lookup key with
  | some value =>
    obtain ⟨before, after, same, -⟩ := List.lookup_eq_some_iff.mp found
    have member : (key, value) ∈ table.toList := by
      rw [← List.mem_reverse, same]
      simp
    exact (Std.ExtTreeMap.mem_toList_iff_getElem?_eq_some.mp member).symm
  | none =>
    cases held : table[key]? with
    | none => rfl
    | some value =>
      have member := Std.ExtTreeMap.mem_toList_iff_getElem?_eq_some.mpr held
      have apart := List.lookup_eq_none_iff.mp found (key, value) (List.mem_reverse.mpr member)
      simp at apart

end Table

namespace NameSet
variable {names : NameSet} {name other : String}

theorem mem_insert_iff : other ∈ names.insert name ↔ other ∈ names ∨ other = name := by
  rw [Std.ExtTreeSet.mem_insert, Std.compare_eq_iff_eq, or_comm, eq_comm]

theorem insert_eq_self (member : name ∈ names) : names.insert name = names := by
  apply Std.ExtTreeSet.ext_mem
  intro other
  rw [mem_insert_iff]
  constructor
  · rintro (held | rfl)
    · exact held
    · exact member
  · exact .inl

end NameSet
end ArchiveIntake
