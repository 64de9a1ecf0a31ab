import Hinting.Proofs.Arithmetic.Operands
import Hinting.Proofs.Memory.Writes
import Hinting.Proofs.Session.Shape

/-!
Registers in sessions.

A new machine has nothing in storage, and its control values are those of the font. From then on
registers hold what has been written to them last, whether by an instruction or from outside.
-/

namespace Hinting.Machine

open Memory StorageOperation

/-! ## The beginning -/

def fontUnits (font : Option FontTables) : List Int16 :=
  font.elim [] FontTables.controlValues

variable (limits : Limits) (font : Option FontTables)

theorem location_opened (location : UInt64) :
    (opened limits font).memory.register? (.location location) = none := by
  cases font with
  | none => rfl
  | some font => rfl

theorem controlValue_opened (index : UInt32) :
    (opened limits font).memory.register? (.controlValue index) =
      (fontUnits font)[index.toNat]?.map Value.ofInt16 := by
  cases font with
  | none => rfl
  | some font => exact List.getElem?_map

/-! ## What follows -/

theorem size_controlValues (steps : List RegisterStep) :
    ((opened limits font).memory.afterSteps steps).controlValues.size =
      (fontUnits font).length := by
  have shaped := (maintained_shaped limits font).afterSteps (shaped_opened limits font) steps
  rw [shaped.controlValues]
  cases font with
  | none => rfl
  | some font => rfl

theorem exists_steps_of_leads {state : Progress}
    (leads : Leads (.ended (.ok () (opened limits font))) state) :
    ∃ steps, state.machine.memory = (opened limits font).memory.afterSteps steps := by
  have begun : Retains
      (fun memory => ∃ steps, memory = (opened limits font).memory.afterSteps steps)
      (opened limits font) (opened limits font) := .refl ⟨[], rfl⟩
  exact (begun.leads (maintained_afterSteps _) leads).memory

/-- Whatever a session does to memory, it does in steps. After any steps, RS and RCVT find what was
written last: in storage nothing if nothing was written, in the control value table what the font
has. Operands name registers by their whole units, a step writes to one register or to none, and
what names no register is refused. -/
theorem registers_hold_latest (steps : List RegisterStep) :
    let start := (opened limits font).memory
    let memory := start.afterSteps steps
    (∀ state, Leads (.ended (.ok () (opened limits font))) state →
      ∃ taken, state.machine.memory = start.afterSteps taken) ∧
    (∀ (operand : Value) (below : List Value) (location : UInt64),
      operand.integerPart.toInt = location.toNat →
        (∀ value, LastWritten start (.location location) steps value →
          memory.Turns rs (operand :: below) (value :: below)) ∧
        ((∀ value, ¬LastWritten start (.location location) steps value) →
          memory.Rejects rs (operand :: below) (.uninitializedStorage location))) ∧
    (∀ (operand : Value) (below : List Value) (index : UInt32)
        (inside : index.toNat < (fontUnits font).length),
      operand.integerPart.toInt = index.toNat →
        (∀ value, LastWritten start (.controlValue index) steps value →
          memory.Turns rcvt (operand :: below) (value :: below)) ∧
        ((∀ value, ¬LastWritten start (.controlValue index) steps value) →
          memory.Turns rcvt (operand :: below)
            (.ofInt16 (fontUnits font)[index.toNat] :: below))) ∧
    (∀ left right : Value,
      (left.toLocation = right.toLocation ↔ left.integerPart = right.integerPart) ∧
        (left.toIndex .controlValue = right.toIndex .controlValue ↔
          left.integerPart = right.integerPart)) ∧
    (∀ value : Value, value.integerPart.toInt = value.sixtyFourths.tdiv 64) ∧
    (∀ step : RegisterStep,
      (∀ register value, memory.Writes step register value →
        step.perform memory = .ok () (memory.afterStep step) ∧
          Stored memory register value (memory.afterStep step)) ∧
        ((∀ register value, ¬memory.Writes step register value) →
          SameRegisters memory (memory.afterStep step))) ∧
    (∀ (value operand : Value) (below : List Value), operand.integerPart.toInt < 0 →
      memory.Rejects rs (operand :: below)
          (.invalidIndex .storageLocation operand.integerPart) ∧
        memory.Rejects ws (value :: operand :: below)
          (.invalidIndex .storageLocation operand.integerPart)) ∧
    (∀ (value operand : Value) (below : List Value),
      operand.integerPart.toInt < 0 ∨ 2 ^ 32 ≤ operand.integerPart.toInt ∨
        (fontUnits font).length ≤ operand.integerPart.toInt →
      memory.Rejects rcvt (operand :: below)
          (.invalidIndex .controlValue operand.integerPart) ∧
        ∀ operation ∈ [wcvtp, wcvtf], memory.Rejects operation (value :: operand :: below)
          (.invalidIndex .controlValue operand.integerPart)) ∧
    ∀ (index : UInt32) (value : Value), (fontUnits font).length ≤ index.toNat →
      setControlValue index value memory =
        .error (.invalidIndex .controlValue (.ofNat index.toNat)) memory := by
  intro start memory
  have size : memory.controlValues.size = (fontUnits font).length :=
    size_controlValues limits font steps
  refine ⟨fun state => exists_steps_of_leads limits font, ?_, ?_,
    fun left right => ⟨?_, ?_⟩, Value.toInt_integerPart, fun step => ⟨?_, ?_⟩,
    ?_, ?_, ?_⟩
  · intro operand below location named
    refine ⟨fun value written => turns_rs named written.register? below, fun unwritten => ?_⟩
    refine rejects_rs_of_none named ?_ below
    rw [register?_of_unwritten unwritten, location_opened]
  · intro operand below index inside named
    refine ⟨fun value written => turns_rcvt named written.register? below, fun unwritten => ?_⟩
    refine turns_rcvt named ?_ below
    rw [register?_of_unwritten unwritten, controlValue_opened, List.getElem?_eq_getElem inside]
    rfl
  · exact Value.names_toLocation.eq_iff left right
  · exact (Value.names_toIndex .controlValue).eq_iff left right
  · exact fun register value writes => writes.afterStep
  · intro writesNothing
    rcases memory.writes_or_same step with ⟨register, value, writes⟩ | same
    · exact absurd writes (writesNothing register value)
    · exact same
  · intro value operand below negative
    have unnamed : ∀ location : UInt64, operand.integerPart.toInt ≠ location.toNat := by omega
    exact ⟨rejects_rs_of_unnamed unnamed below, ws_of_unnamed rfl unnamed⟩
  · intro value operand below outside
    have beyond : memory.controlValues.Beyond operand :=
      ControlValues.beyond_of_outside (size ▸ outside)
    refine ⟨rejects_rcvt beyond below, fun operation member => ?_⟩
    rw [List.mem_cons, List.mem_singleton] at member
    rcases member with rfl | rfl
    · exact writeControlValue_of_beyond id rfl beyond
    · exact writeControlValue_of_beyond _ rfl beyond
  · exact fun index value outside => setControlValue_of_le (size ▸ outside) value

/-- The latest step fails. One location and one control value have not been written to. -/
theorem registers_hold_latest_mixed :
    let start := (opened {} (some { controlValues := [10, 20] })).memory
    let steps : List RegisterStep :=
      [.stackCall (.pushAll [.int 1, .fixed (-100), .fixed (-63), .fixed 5])] ++
        [.instruction ws] ++ [.instruction wcvtf] ++ [.setControlValue 2 (.int 7)]
    let memory := start.afterSteps steps
    LastWritten start (.location 0) steps (.fixed 5) ∧
      memory.Turns rs [.fixed 63] [.fixed 5] ∧
      (∀ value, ¬LastWritten start (.location 1) steps value) ∧
      memory.Rejects rs [.int 1] (.uninitializedStorage 1) ∧
      LastWritten start (.controlValue 1) steps (.int (-1)) ∧
      memory.Turns rcvt [.fixed 127] [.int (-1)] ∧
      (∀ value, ¬LastWritten start (.controlValue 0) steps value) ∧
      memory.Turns rcvt [.int 0] [.int 10] ∧
      Stored memory (.location 1) (.int 3) (memory.afterStep (.writeStorage 1 (.int 3))) ∧
      SameRegisters memory (memory.afterStep (.instruction ws)) ∧
      memory.Rejects ws [.int 3, .fixed (-64)] (.invalidIndex .storageLocation (-1)) ∧
      memory.Rejects wcvtp [.int 3, .int 2] (.invalidIndex .controlValue 2) ∧
      setControlValue 2 (.int 7) memory = .error (.invalidIndex .controlValue 2) memory := by
  intro start steps memory
  let pushed := start.afterSteps
    [.stackCall (.pushAll [.int 1, .fixed (-100), .fixed (-63), .fixed 5])]
  have first : pushed.Writes (.instruction ws) (.location 0) (.fixed 5) := .ws rfl rfl
  have second : (pushed.afterStep (.instruction ws)).Writes (.instruction wcvtf)
      (.controlValue 1) (.int (Value.fixed (-100)).integerPart) :=
    .wcvtf rfl rfl Nat.one_lt_two
  have third : ∀ register value, ¬((pushed.afterStep (.instruction ws)).afterStep
      (.instruction wcvtf)).Writes (.setControlValue 2 (.int 7)) register value := by
    rintro register value ⟨⟩
    next inside => exact Nat.lt_irrefl 2 inside
  have location : LastWritten start (.location 0) steps (.fixed 5) :=
    .before (.before (.now first) nofun) nofun
  have controlValue : LastWritten start (.controlValue 1) steps (.int (-1)) :=
    .before (.now second) (third _)
  have noLocation : ∀ value, ¬LastWritten start (.location 1) steps value := by
    intro value written
    have empty : memory.register? (.location 1) = none := by decide +kernel
    exact nomatch empty.symm.trans written.register?
  have noControlValue : ∀ value, ¬LastWritten start (.controlValue 0) steps value := by
    intro value written
    rcases lastWritten_concat.mp written with writes | ⟨written, -⟩
    · exact third _ _ writes
    rcases lastWritten_concat.mp written with writes | ⟨written, -⟩
    · exact nomatch (second.unique writes).1
    rcases lastWritten_concat.mp written with writes | ⟨written, -⟩
    · cases writes
    change LastWritten start (.controlValue 0) ([] ++ [_]) value at written
    rcases lastWritten_concat.mp written with writes | ⟨written, -⟩
    · cases writes
    · exact not_lastWritten_nil written
  have popped : ∀ register value, ¬memory.Writes (.instruction ws) register value := by
    rintro register value ⟨held, named⟩
    cases held
  rcases registers_hold_latest {} (some { controlValues := [10, 20] }) steps with
    ⟨-, storage, controlValues, -, -, step, negative, outside, sets⟩
  refine ⟨location, (storage (.fixed 63) [] 0 rfl).1 _ location, noLocation,
    (storage (.int 1) [] 1 rfl).2 noLocation, controlValue,
    (controlValues (.fixed 127) [] 1 (by decide) rfl).1 _ controlValue, noControlValue,
    (controlValues (.int 0) [] 0 (by decide) rfl).2 noControlValue,
    ((step _).1 _ _ (.writeStorage 1 (.int 3))).2, (step _).2 popped,
    (negative (.int 3) (.fixed (-64)) [] (by decide)).2,
    (outside (.int 3) (.int 2) [] (.inr (.inr (by decide)))).2 wcvtp (by decide),
    sets 2 _ (by decide)⟩

end Hinting.Machine
