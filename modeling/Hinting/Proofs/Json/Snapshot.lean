import Hinting.Machine.Snapshot
import Hinting.Proofs.Json.Document

/-!
Snapshots that are read from their JSON text: `Snapshot.ofText?_toText`.
-/

namespace Hinting

open Json (Writable)

/-! ## Values -/

theorem Value.writable_toJson (value : Value) : Writable value.toJson := by
  cases value with
  | int number => exact .object (by simp) (by simp [Writable.integer])
  | fixed bits => exact .object (by simp) (by simp [Writable.integer])

namespace Snapshot

/-! ## Arrays -/

theorem writable_map {write : α → Json} (writable : ∀ element, Writable (write element))
    (elements : List α) : Writable (.array (elements.map write)) := by
  apply Writable.array
  intro document member
  rcases List.mem_map.mp member with ⟨element, _, rfl⟩
  exact writable element

theorem listOfJson?_map {read? : Json → Option α} {write : α → Json}
    (survives : ∀ element, read? (write element) = some element) (elements : List α) :
    listOfJson? read? (.array (elements.map write)) = some elements := by
  have inverse : read? ∘ write = fun element => pure (id element) := funext survives
  rw [listOfJson?, List.mapM_map, inverse, List.mapM_pure, List.map_id]
  rfl

/-! ## Elements -/

theorem writable_cellToJson (cell : UInt64 × Value) : Writable (cellToJson cell) := by
  apply Writable.array
  rw [List.forall_mem_cons, List.forall_mem_singleton]
  exact ⟨.integer _, cell.2.writable_toJson⟩

theorem integerWithin?_toNat {number size : Nat} (fits : number < size) :
    Json.integerWithin? 0 size (.integer number) = some (number : Int) := by
  rw [Json.integerWithin?, if_pos ⟨Int.natCast_nonneg number, Int.ofNat_lt.mpr fits⟩]

theorem cellOfJson?_cellToJson (cell : UInt64 × Value) :
    cellOfJson? (cellToJson cell) = some cell := by
  rw [cellToJson, cellOfJson?, integerWithin?_toNat cell.1.toNat_lt_size]
  simp [Value.ofJson?_toJson]

theorem functionOfJson?_integer (id : UInt32) :
    functionOfJson? (.integer id.toNat) = some id := by
  rw [functionOfJson?, integerWithin?_toNat id.toNat_lt_size, Option.map_some, Int.toNat_natCast,
    UInt32.ofNat_toNat]

/-! ## Snapshots -/

theorem writable_toJson (snapshot : Snapshot) : Writable snapshot.toJson := by
  apply Json.writable_ofMembers
  simp only [List.forall_mem_cons]
  exact ⟨writable_map Value.writable_toJson _, writable_map writable_cellToJson _,
    writable_map Value.writable_toJson _, writable_map (fun _ => .integer _) _, nofun⟩

theorem ofJson?_toJson (snapshot : Snapshot) : ofJson? snapshot.toJson = some snapshot := by
  have parts : ofJson? snapshot.toJson =
      ofParts? (.array (snapshot.stack.map Value.toJson))
        (.array (snapshot.storage.map cellToJson))
        (.array (snapshot.controlValues.map Value.toJson))
        (.array (snapshot.functions.map fun id => .integer id.toNat)) := rfl
  rw [parts, ofParts?, listOfJson?_map Value.ofJson?_toJson, listOfJson?_map cellOfJson?_cellToJson,
    listOfJson?_map Value.ofJson?_toJson, listOfJson?_map functionOfJson?_integer]
  rfl

theorem toText_inj {left right : Snapshot} : left.toText = right.toText ↔ left = right := by
  constructor
  · intro same
    have document := Json.parse?_pretty left.writable_toJson
    rw [← toText, same, toText, Json.parse?_pretty right.writable_toJson] at document
    have read := right.ofJson?_toJson
    rw [Option.some.inj document, ofJson?_toJson] at read
    exact Option.some.inj read
  · intro same
    rw [same]

/-- A snapshot survives its JSON text. -/
theorem ofText?_toText (snapshot : Snapshot) : ofText? snapshot.toText = some snapshot := by
  rw [ofText?, toText, Json.parse?_pretty snapshot.writable_toJson]
  exact snapshot.ofJson?_toJson

end Snapshot

end Hinting
