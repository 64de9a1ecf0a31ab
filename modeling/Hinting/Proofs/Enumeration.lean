import Hinting.FunctionTable
import Hinting.Storage

/-!
Keys in ascending order.

A table may hand out its keys in any order, each of them once. Sorted they are always the same list,
so what is made of that list depends on the content of the table and on nothing else.
-/

namespace Hinting

/-- The list has all keys of a table, each of them once, in whatever order. -/
structure Enumerates (keys : List α) (present : α → Prop) : Prop where
  once : keys.Nodup
  mem_iff : ∀ key, key ∈ keys ↔ present key

section

variable [LE α] [Std.IsLinearOrder α] [DecidableLE α]

theorem pairwise_le_mergeSort (keys : List α) :
    (keys.mergeSort (· ≤ ·)).Pairwise (· ≤ ·) := by
  have sorted : (keys.mergeSort (· ≤ ·)).Pairwise fun left right => decide (left ≤ right) := by
    apply List.pairwise_mergeSort
    · simpa using fun _ _ _ => Std.le_trans
    · simpa using fun _ _ => Std.le_total
  simpa using sorted

variable [LT α] [Std.LawfulOrderLT α] {keys ascending : List α} {present : α → Prop}

theorem Enumerates.mergeSort_eq (enumerates : Enumerates keys present)
    (sorted : ascending.Pairwise (· < ·)) (mem_iff : ∀ key, key ∈ ascending ↔ present key) :
    keys.mergeSort (· ≤ ·) = ascending := by
  have same : keys.Perm ascending := by
    rw [List.perm_ext_iff_of_nodup enumerates.once (sorted.imp Std.ne_of_lt)]
    exact fun key => (enumerates.mem_iff key).trans (mem_iff key).symm
  apply ((List.mergeSort_perm keys _).trans same).eq_of_pairwise
  · exact fun _ _ _ _ => Std.le_antisymm
  · exact pairwise_le_mergeSort keys
  · exact sorted.imp Std.le_of_lt

end

/-! ## Storage -/

namespace Storage

variable {storage : Storage}

theorem pairwise_entries (storage : Storage) :
    storage.entries.Pairwise fun left right => left.1 < right.1 :=
  Std.ExtTreeMap.ordered_keys_toList.imp Std.compare_eq_lt.mp

theorem mem_entries {location : UInt64} {value : Value} :
    (location, value) ∈ storage.entries ↔ storage.get? location = some value :=
  Std.ExtTreeMap.mem_toList_iff_getElem?_eq_some

theorem mem_map_fst_entries {location : UInt64} :
    location ∈ storage.entries.map Prod.fst ↔ (storage.get? location).isSome := by
  simp [mem_entries, Option.isSome_iff_exists]

theorem map_mergeSort_eq_entries {locations : List UInt64}
    (enumerates : Enumerates locations fun location => (storage.get? location).isSome) :
    (locations.mergeSort (· ≤ ·)).map (fun location => (location, storage.get? location)) =
      storage.entries.map fun cell => (cell.1, some cell.2) := by
  have sorted : (storage.entries.map Prod.fst).Pairwise (· < ·) :=
    List.pairwise_map.mpr storage.pairwise_entries
  rw [enumerates.mergeSort_eq sorted fun _ => mem_map_fst_entries, List.map_map]
  apply List.map_congr_left
  intro cell member
  simp [mem_entries.mp member]

theorem entries_eq_iff {left right : Storage} :
    left.entries = right.entries ↔ ∀ location, left.get? location = right.get? location := by
  constructor
  · intro same location
    ext value
    rw [← mem_entries, ← mem_entries, same]
  · exact fun same => congrArg entries (ext_get? same)

end Storage

/-! ## Functions -/

namespace FunctionTable

variable {table : FunctionTable}

theorem pairwise_ids (table : FunctionTable) : table.ids.Pairwise (· < ·) :=
  Std.ExtTreeMap.ordered_keys.imp Std.compare_eq_lt.mp

theorem mem_ids {id : UInt32} : id ∈ table.ids ↔ table.contains id = true :=
  Std.ExtTreeMap.mem_keys.trans Std.ExtTreeMap.contains_iff_mem.symm

theorem contains_iff {id : UInt32} :
    table.contains id = true ↔ ∃ body, table.get? id = some body := by
  rw [contains, Std.ExtTreeMap.contains_eq_isSome_getElem?, Option.isSome_iff_exists]
  rfl

theorem mergeSort_eq_ids {ids : List UInt32}
    (enumerates : Enumerates ids fun id => table.contains id = true) :
    ids.mergeSort (· ≤ ·) = table.ids :=
  enumerates.mergeSort_eq table.pairwise_ids fun _ => mem_ids

theorem ids_eq_iff {left right : FunctionTable} :
    left.ids = right.ids ↔ ∀ id, left.contains id = right.contains id := by
  constructor
  · intro same id
    rw [Bool.eq_iff_iff, ← mem_ids, ← mem_ids, same]
  · intro same
    have once : left.ids.Nodup := left.pairwise_ids.imp Std.ne_of_lt
    have own : Enumerates left.ids fun id => left.contains id = true := ⟨once, fun _ => mem_ids⟩
    have others : Enumerates left.ids fun id => right.contains id = true :=
      ⟨once, fun id => by rw [mem_ids, same]⟩
    exact (mergeSort_eq_ids own).symm.trans (mergeSort_eq_ids others)

end FunctionTable

end Hinting
