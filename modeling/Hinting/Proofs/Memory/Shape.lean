import Hinting.FontTables
import Hinting.Limits
import Hinting.Proofs.Memory.Atomicity

/-!
The shape of memory.

No operation takes the stack beyond its limit, changes the number of control values or makes a
storage location unwritten again.
-/

namespace Hinting

/-! ## Beside the stack -/

namespace Storage

/-- Every location that is written in the first storage area is written in the second one. -/
def Grows (before after : Storage) : Prop :=
  ∀ location, (before.get? location).isSome → (after.get? location).isSome

theorem Grows.refl (storage : Storage) : Grows storage storage :=
  fun _ written => written

theorem Grows.write {before after : Storage} (grows : Grows before after) (location : UInt64)
    (value : Value) : Grows before (after.write location value) := by
  intro other written
  by_cases same : location = other
  · subst same
    rw [get?_write_same]
    rfl
  · rw [get?_write_other after value same]
    exact grows other written

end Storage

theorem ControlValues.size_of_set {table after : ControlValues} {index : UInt32} {value : Value}
    (sets : table.set index value = .ok after) : after.size = table.size := by
  rw [set] at sets
  split at sets
  · cases sets
    exact List.length_set
  · cases sets

namespace Memory

theorem Maintained.and {first second : Memory → Prop} (left : Maintained first)
    (right : Maintained second) : Maintained fun memory => first memory ∧ second memory where
  instruction acts := (left.instruction acts).and (right.instruction acts)
  stackCall call := (left.stackCall call).and (right.stackCall call)
  writeStorage location value := (left.writeStorage location value).and
    (right.writeStorage location value)
  setControlValue index value := (left.setControlValue index value).and
    (right.setControlValue index value)

section

variable {invariant : Storage → ControlValues → Prop}

theorem maintains_beside (action : StackAction α) :
    Maintains (fun memory => invariant memory.storage memory.controlValues) (onStack action) := by
  intro memory holds
  rw [onStack]
  cases action memory.stack with
  | ok result stack => exact holds
  | error cause stack => exact holds

theorem maintained_beside
    (write : ∀ storage table location value, invariant storage table →
      invariant (storage.write location value) table)
    (set : ∀ storage table index value after, table.set index value = .ok after →
      invariant storage table → invariant storage after) :
    Maintained fun memory => invariant memory.storage memory.controlValues := by
  have writes : ∀ location value,
      Maintains (fun memory => invariant memory.storage memory.controlValues)
        (Memory.writeStorage location value) :=
    fun location value => .modify fun memory holds => write _ _ location value holds
  have sets : ∀ index value,
      Maintains (fun memory => invariant memory.storage memory.controlValues)
        (Memory.setControlValue index value) := by
    intro index value memory holds
    rw [Memory.setControlValue, get_bind_apply]
    cases stored : memory.controlValues.set index value with
    | error cause => exact holds
    | ok after => exact set _ _ index value after stored holds
  have compositional : Compositional (fun _ => True)
      (Maintains fun memory => invariant memory.storage memory.controlValues) :=
    { stack := by constructor <;> intros <;> trivial
      lift := fun _ => maintains_beside _
      pure := .pure
      toIndex := fun _ _ => .ofExcept _
      toLocation := fun _ => .ofExcept _
      bind := .bind
      readStorage := maintains_readStorage
      writeStorage := writes
      getControlValue := maintains_getControlValue
      setControlValue := sets }
  exact
    { instruction := fun acts =>
        compositional.memoryAction acts (fun _ => trivial) fun _ => trivial
      stackCall := fun _ => maintains_beside _
      writeStorage := writes
      setControlValue := sets }

end

/-! ## Shape -/

/-- The stack keeps to the limit, and there are as many control values as the font has. -/
structure Shaped (limits : Limits) (font : Option FontTables) (memory : Memory) : Prop where
  maxDepth : memory.stack.maxDepth = limits.maxStackDepth
  stack : memory.stack.size ≤ limits.maxStackDepth
  controlValues :
    memory.controlValues.size = font.elim 0 fun font => font.controlValues.length

theorem maintained_shaped (limits : Limits) (font : Option FontTables) :
    Maintained (Shaped limits font) := by
  let count := font.elim 0 fun font => font.controlValues.length
  have fits := maintained_stack OperandStack.maintained_fits
  have maxDepth := maintained_stack (OperandStack.maintained_maxDepth limits.maxStackDepth)
  have controlValues : Maintained fun memory => memory.controlValues.size = count :=
    @maintained_beside (fun _ table => table.size = count) (fun _ _ _ _ same => same)
      fun _ _ _ _ _ sets same => (ControlValues.size_of_set sets).trans same
  have parts : Shaped limits font = fun memory =>
      (memory.stack.size ≤ memory.stack.maxDepth ∧
        memory.stack.maxDepth = limits.maxStackDepth) ∧ memory.controlValues.size = count := by
    funext memory
    refine propext ⟨?_, ?_⟩
    · rintro ⟨maxDepth, stack, controlValues⟩
      exact ⟨⟨maxDepth ▸ stack, maxDepth⟩, controlValues⟩
    · rintro ⟨⟨stack, maxDepth⟩, controlValues⟩
      exact ⟨maxDepth, maxDepth ▸ stack, controlValues⟩
  rw [parts]
  exact (fits.and maxDepth).and controlValues

theorem maintained_grows (before : Storage) :
    Maintained fun memory => before.Grows memory.storage :=
  @maintained_beside (fun storage _ => before.Grows storage)
    (fun _ _ location value grows => grows.write location value) fun _ _ _ _ _ _ grows => grows

/-! ## Reading -/

def Readable (memory : Memory) (location : UInt64) : Prop :=
  ∃ top below maxDepth after, top.toLocation = .ok location ∧
    StorageOperation.rs.apply { memory with stack := ⟨top :: below, maxDepth⟩ } = .ok () after

theorem peek_top {memory : Memory} {top : Value} {below : List Value}
    (held : memory.stack.values = top :: below) :
    onStack (OperandStack.peek 0) memory = .ok top memory := by
  rw [onStack, OperandStack.peek, held]
  rfl

theorem rs_apply {memory : Memory} {top : Value} {below : List Value} {location : UInt64}
    (held : memory.stack.values = top :: below) (named : top.toLocation = .ok location) :
    StorageOperation.rs.apply memory =
      match memory.storage.get? location with
      | some value =>
          .ok () { memory with stack := { memory.stack with values := value :: below } }
      | none => .error (.uninitializedStorage location) memory := by
  rw [StorageOperation.apply, bind_apply_of_ok (peek_top held), named]
  change (readStorage location >>= fun value => onStack (OperandStack.replaceTop value)) memory = _
  rw [readStorage, bind_assoc, get_bind_apply, Storage.read]
  cases memory.storage.get? location with
  | none => rfl
  | some value =>
      change onStack (OperandStack.replaceTop value) memory = _
      rw [onStack, OperandStack.replaceTop, held]

theorem written_of_readable {memory : Memory} {location : UInt64}
    (readable : memory.Readable location) : (memory.storage.get? location).isSome := by
  rcases readable with ⟨top, below, maxDepth, after, named, reads⟩
  rw [rs_apply rfl named] at reads
  dsimp only at reads
  cases found : memory.storage.get? location with
  | some value => rfl
  | none =>
      rw [found] at reads
      cases reads

theorem reads_of_written {memory : Memory} {location : UInt64}
    (written : (memory.storage.get? location).isSome) {top : Value}
    (named : top.toLocation = .ok location) (below : List Value) (maxDepth : Nat) :
    ∃ value, StorageOperation.rs.apply { memory with stack := ⟨top :: below, maxDepth⟩ } =
      .ok () { memory with stack := ⟨value :: below, maxDepth⟩ } := by
  rcases Option.isSome_iff_exists.mp written with ⟨value, found⟩
  refine ⟨value, ?_⟩
  rw [rs_apply rfl named]
  dsimp only
  rw [found]

end Memory

end Hinting
