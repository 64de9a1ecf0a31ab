import Hinting.Proofs.Enumeration
import Hinting.Proofs.Json.Snapshot
import Hinting.Proofs.Session.Definitions
import Hinting.Proofs.Session.Registers
import Hinting.Proofs.Stepping.Registers

/-!
Snapshots of sessions.

A snapshot lists what is there, in ascending order. What is there is what has been written last and
what has been defined at all, so that the snapshot does not tell in which order it came about.
-/

namespace Hinting

/-- The snapshot lists these cells and functions and no others, each of them once and in ascending
order. -/
structure Snapshot.Lists (snapshot : Snapshot) (stored : UInt64 → Value → Prop)
    (defined : UInt32 → Prop) : Prop where
  locations : snapshot.storage.Pairwise fun first second => first.1 < second.1
  cells : ∀ location value, (location, value) ∈ snapshot.storage ↔ stored location value
  ids : snapshot.functions.Pairwise (· < ·)
  functions : ∀ id, id ∈ snapshot.functions ↔ defined id

namespace Machine

/-! ## Machines -/

theorem lists_snapshot (machine : Machine) :
    machine.snapshot.Lists (fun location value => machine.memory.storage.get? location = some value)
      (fun id => machine.functions.contains id = true) where
  locations := Storage.pairwise_entries _
  cells _ _ := Storage.mem_entries
  ids := FunctionTable.pairwise_ids _
  functions _ := FunctionTable.mem_ids

/-- The machines hold the same values, and bodies for the same functions. -/
structure SameContents (left right : Machine) : Prop where
  stack : left.memory.stack.values = right.memory.stack.values
  storage : ∀ location, left.memory.storage.get? location = right.memory.storage.get? location
  controlValues : left.memory.controlValues.values = right.memory.controlValues.values
  functions : ∀ id, left.functions.contains id = right.functions.contains id

theorem snapshot_eq_iff {left right : Machine} :
    left.snapshot = right.snapshot ↔ SameContents left right := by
  rw [snapshot, snapshot, Snapshot.mk.injEq, OperandStack.toList, OperandStack.toList,
    List.reverse_inj, Storage.entries_eq_iff, FunctionTable.ids_eq_iff]
  constructor
  · rintro ⟨stack, storage, controlValues, functions⟩
    exact ⟨stack, storage, controlValues, functions⟩
  · intro same
    exact ⟨same.stack, same.storage, same.controlValues, same.functions⟩

/-! ## What operations store -/

/-- The operation writes this value to the location, and nothing else to it behind that. -/
inductive Operation.Stores (start : Machine) (location : UInt64) (value : Value) :
    Operation → Prop
  | request {call : Call} (request : Request) (calls : call = request.call)
      (writes : (request.begin start).LastWrites (.location location) value) :
      Stores start location value (.call call)
  | write : Stores start location value (.call (.writeStorage location value))

section

variable {machine : Machine} {location : UInt64} {value : Value} {operation : Operation}

theorem AtRest.get?_of_stores (rest : machine.AtRest)
    (stores : operation.Stores machine location value) :
    (machine.afterOperation operation).memory.storage.get? location = some value := by
  cases stores with
  | request request calls writes =>
      subst calls
      rw [afterOperation, afterCall_request]
      exact writes.register? (rest.reaches_perform request)
  | write => exact Storage.get?_write_same _ _ _

theorem AtRest.get?_afterCall_request (rest : machine.AtRest) (request : Request)
    (untouched : ∀ value,
      ¬(request.begin machine).LastWrites (.location location) value) :
    (machine.afterCall request.call).memory.storage.get? location =
      machine.memory.storage.get? location := by
  have ends := rest.reaches_perform request
  have begun : (request.begin machine).machine.memory = machine.memory := by
    rw [machine_begin]
    exact (request.prepares_enter machine).memory
  rw [afterCall_request, ← begun]
  rcases @lastWrites_or_untouched (.location location) _ _ ends with ⟨value, writes⟩ | never
  · exact absurd writes (untouched value)
  · exact register?_of_reaches never ends

theorem storage_afterCall_of_maintains {call : Call}
    (maintains : Maintains (fun later => later.memory.storage = machine.memory.storage)
      call.perform) :
    (machine.afterCall call).memory.storage = machine.memory.storage := by
  rw [afterCall_eq, ← stateAfter_eq_machine]
  exact maintains machine rfl

theorem storage_afterCall_onStack (call : StackCall) :
    (machine.afterCall (.onStack call)).memory.storage = machine.memory.storage := by
  apply storage_afterCall_of_maintains
  intro later same
  rw [← same]
  exact (sameRegisters_onStack call.perform later ⟨rfl, rfl⟩).1

theorem storage_afterCall_setControlValue (index : UInt32) (value : Value) :
    (machine.afterCall (.setControlValue index value)).memory.storage =
      machine.memory.storage := by
  have keeps : Maintains (fun memory => memory.storage = machine.memory.storage)
      (Memory.setControlValue index value) :=
    Maintains.get.bind fun _ => (Maintains.ofExcept _).bind fun _ => .modify fun _ same => same
  apply storage_afterCall_of_maintains
  exact (maintains_onMemory keeps).bind fun _ => .pure _

theorem AtRest.get?_afterOperation (rest : machine.AtRest)
    (untouched : ∀ value, ¬operation.Stores machine location value) :
    (machine.afterOperation operation).memory.storage.get? location =
      machine.memory.storage.get? location := by
  have requested : ∀ request : Request, operation = .call request.call →
      (machine.afterCall request.call).memory.storage.get? location =
        machine.memory.storage.get? location := by
    rintro request rfl
    exact rest.get?_afterCall_request request fun value writes =>
      untouched value (.request request rfl writes)
  cases operation with
  | editStack edit => rfl
  | editControlValues edit => rfl
  | call call =>
      cases call with
      | executeProgram program => exact requested (.executeProgram program) rfl
      | executeBytes bytes => exact requested (.executeBytes bytes) rfl
      | prime => exact requested .prime rfl
      | loadFontProgram => exact requested .loadFontProgram rfl
      | onStack call => rw [afterOperation, storage_afterCall_onStack]
      | writeStorage other value =>
          apply Storage.get?_write_other
          rintro rfl
          exact untouched value .write
      | setControlValue index value => rw [afterOperation, storage_afterCall_setControlValue]

end

/-! ## What sessions store and define -/

variable {limits : Limits} {font : Option FontTables} {history : List Operation}

theorem session_concat (operation : Operation) :
    session limits font (history ++ [operation]) =
      (session limits font history).afterOperation operation :=
  session_append limits font history [operation]

/-- The latest value that the session has written to the location. -/
inductive LastStored (limits : Limits) (font : Option FontTables) (location : UInt64) :
    List Operation → Value → Prop
  | now {history : List Operation} {operation : Operation} {value : Value}
      (stores : operation.Stores (session limits font history) location value) :
      LastStored limits font location (history ++ [operation]) value
  | before {history : List Operation} {operation : Operation} {value : Value}
      (stored : LastStored limits font location history value)
      (untouched : ∀ other, ¬operation.Stores (session limits font history) location other) :
      LastStored limits font location (history ++ [operation]) value

theorem LastStored.get? {location : UInt64} {value : Value}
    (stored : LastStored limits font location history value) :
    (session limits font history).memory.storage.get? location = some value := by
  induction stored with
  | now stores =>
      rw [session_concat]
      exact (resting_session limits font _).rest.get?_of_stores stores
  | before _ untouched induction =>
      rw [session_concat, (resting_session limits font _).rest.get?_afterOperation untouched,
        induction]

theorem get?_session_iff (location : UInt64) (value : Value) :
    (session limits font history).memory.storage.get? location = some value ↔
      LastStored limits font location history value := by
  refine ⟨fun held => ?_, LastStored.get?⟩
  induction history using List.reverseRec with
  | nil => exact nomatch held.symm.trans (location_opened limits font location)
  | append_singleton history operation induction =>
      have rest := (resting_session limits font history).rest
      -- A location that the operation writes to holds no value but this one.
      by_cases stores : ∃ other, operation.Stores (session limits font history) location other
      · rcases stores with ⟨other, stores⟩
        have stored := LastStored.now stores
        cases held.symm.trans stored.get?
        exact stored
      · have untouched := not_exists.mp stores
        rw [session_concat, rest.get?_afterOperation untouched] at held
        exact .before (induction held) untouched

def EverDefined (limits : Limits) (font : Option FontTables) (history : List Operation)
    (id : UInt32) : Prop :=
  ∃ (earlier : List Operation) (request : Request) (later : List Operation) (body : Program),
    history = earlier ++ .call request.call :: later ∧
      request.Defines (session limits font earlier) id body

theorem AtRest.get?_of_defines {machine : Machine} (rest : machine.AtRest) {request : Request}
    {id : UInt32} {body : Program} (defines : request.Defines machine id body) :
    (machine.afterCall request.call).functions.get? id = some body := by
  rcases defines with ⟨opening, recorded, after, completes⟩
  have closed : Reaches (request.begin machine) (opening.later (body.length + 1) after) :=
    (completes.reached.trans completes.recorded).tail completes.follows
  have begun : Retains (fun _ => True) after (opening.later (body.length + 1) after).machine :=
    .refl trivial
  have ended := begun.of_reaches Memory.maintained_true
    (closed.onward (rest.reaches_perform request))
  rw [afterCall_request]
  exact ended.functions id body completes.defined

theorem contains_session_iff (id : UInt32) :
    (session limits font history).functions.contains id = true ↔
      EverDefined limits font history id := by
  rw [FunctionTable.contains_iff]
  constructor
  · rintro ⟨body, found⟩
    rcases (resting_opened limits font).defined history found with
      known | ⟨earlier, request, later, split, defines⟩
    · exact absurd known (get?_opened limits font id body)
    · exact ⟨earlier, request, later, body, split, defines⟩
  · rintro ⟨earlier, request, later, body, rfl, defines⟩
    have resting := resting_session limits font earlier
    rw [session_append]
    exact ⟨body, (resting.afterOperation (.call request.call)).grows later id body
      (resting.rest.get?_of_defines defines)⟩

/-- The snapshot of a session lists the locations that hold something, which is what has been
written to them last, and the functions that have a body, which are those that have been defined.
This is what comes of sorting the locations and ids, in whatever order they are handed out. Sessions
have the same snapshot, and the same text of it, if and only if they have come to the same values
and functions. -/
theorem session_snapshot (limits : Limits) (font : Option FontTables)
    (history : List Operation) :
    let machine := session limits font history
    machine.snapshot.Lists
        (fun location value => machine.memory.storage.get? location = some value)
        (fun id => machine.functions.contains id = true) ∧
      machine.snapshot.Lists
        (fun location value => LastStored limits font location history value)
        (EverDefined limits font history) ∧
      (∀ locations : List UInt64,
        Enumerates locations (fun location => (machine.memory.storage.get? location).isSome) →
          (locations.mergeSort (· ≤ ·)).map
              (fun location => (location, machine.memory.storage.get? location)) =
            machine.snapshot.storage.map fun cell => (cell.1, some cell.2)) ∧
      (∀ ids : List UInt32, Enumerates ids (fun id => machine.functions.contains id = true) →
        ids.mergeSort (· ≤ ·) = machine.snapshot.functions) ∧
      ∀ (otherLimits : Limits) (otherFont : Option FontTables) (otherHistory : List Operation),
        let other := session otherLimits otherFont otherHistory
        (machine.snapshot = other.snapshot ↔ SameContents machine other) ∧
          (machine.snapshot.toText = other.snapshot.toText ↔ SameContents machine other) := by
  intro machine
  have lists := lists_snapshot machine
  refine ⟨lists, { lists with cells := ?_, functions := ?_ }, ?_, ?_, ?_⟩
  · intro location value
    rw [lists.cells, get?_session_iff]
  · intro id
    rw [lists.functions, contains_session_iff]
  · exact fun locations enumerates => Storage.map_mergeSort_eq_entries enumerates
  · exact fun ids enumerates => FunctionTable.mergeSort_eq_ids enumerates
  · intro otherLimits otherFont otherHistory other
    rw [Snapshot.toText_inj]
    exact ⟨snapshot_eq_iff, snapshot_eq_iff⟩

/-- The cells are written and the functions defined in opposite orders. One of the sessions
overwrites a cell, and the other one defines a function twice. -/
theorem session_snapshot_orders :
    let history : List Operation :=
      [.call (.writeStorage 5 (.int 1)),
        .call (.executeProgram [.push (.ofBytes [3, 8, 5, 6]), .storage .ws, .storage .ws]),
        .call (.executeProgram [.push (.ofBytes [2, 7]),
          .control .beginFunction, .stack .dup, .control .endFunction,
          .control .beginFunction, .stack .pop, .control .endFunction])]
    let otherHistory : List Operation :=
      [.call (.executeProgram [.push (.ofBytes [2, 7, 2]),
          .control .beginFunction, .stack .swap, .control .endFunction,
          .control .beginFunction, .stack .dup, .control .endFunction,
          .control .beginFunction, .stack .pop, .control .endFunction]),
        .call (.writeStorage 3 (.int 8)), .call (.writeStorage 5 (.int 6))]
    (session {} none history).snapshot = ⟨[], [(3, .int 8), (5, .int 6)], [], [2, 7]⟩ ∧
      LastStored {} none 5 history (.int 6) ∧
      EverDefined {} none otherHistory 2 ∧
      (([5, 3] : List UInt64).mergeSort (· ≤ ·)).map (fun location =>
          (location, (session {} none history).memory.storage.get? location)) =
        (session {} none history).snapshot.storage.map (fun cell => (cell.1, some cell.2)) ∧
      ([7, 2] : List UInt32).mergeSort (· ≤ ·) = (session {} none history).snapshot.functions ∧
      (session {} none history).functions ≠ (session {} none otherHistory).functions ∧
      (session {} none history).snapshot = (session {} none otherHistory).snapshot ∧
      (session {} none history).snapshot.toText =
        (session {} none otherHistory).snapshot.toText := by
  intro history otherHistory
  have listed : (session {} none history).snapshot =
      ⟨[], [(3, .int 8), (5, .int 6)], [], [2, 7]⟩ := by decide +kernel
  have entries : (session {} none history).memory.storage.entries =
      [(3, .int 8), (5, .int 6)] := by decide +kernel
  have same : SameContents (session {} none history) (session {} none otherHistory) :=
    { stack := by decide +kernel
      storage := Storage.entries_eq_iff.mp (by decide +kernel)
      controlValues := by decide +kernel
      functions := FunctionTable.ids_eq_iff.mp (by decide +kernel) }
  rcases session_snapshot {} none history with ⟨lists, latest, locations, ids, others⟩
  rcases session_snapshot {} none otherHistory with ⟨_, otherLatest, _⟩
  rcases others {} none otherHistory with ⟨snapshots, texts⟩
  refine ⟨listed, (latest.cells 5 (.int 6)).mp ?_, (otherLatest.functions 2).mp ?_,
    locations [5, 3] ⟨by decide, fun location => ?_⟩, ids [7, 2] ⟨by decide, fun id => ?_⟩, ?_,
    snapshots.mpr same, texts.mpr same⟩
  · rw [listed]
    decide
  · rw [← snapshots.mpr same, listed]
    decide
  · rw [← Storage.mem_map_fst_entries, entries]
    simp [or_comm]
  · rw [← lists.functions, listed]
    simp [or_comm]
  · intro equal
    have bodies : (session {} none history).functions.get? 2 =
        (session {} none otherHistory).functions.get? 2 := by rw [equal]
    revert bodies
    decide +kernel

end Machine

end Hinting
