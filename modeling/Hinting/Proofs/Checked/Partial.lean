import Hinting.Proofs.Stateful

/-!
Actions with partial operations.

An operation that is not defined everywhere is a function to `Option`. An action that applies it
where it is not defined stops, and this is no failure. Such actions are compared with actions that
have failures only.
-/

namespace Hinting

inductive Halt (ε : Type)
  | failure (failure : ε)
  /-- An operation was applied outside of its domain. -/
  | undefined

def Halt.map (change : ε → δ) : Halt ε → Halt δ
  | .failure inner => .failure (change inner)
  | .undefined => .undefined

abbrev Checked (ε σ : Type) := EStateM (Halt ε) σ

namespace Checked

/-! ## Partial operations -/

def subtract? (left right : Nat) : Option Nat :=
  if right ≤ left then some (left - right) else none

def slice? (items : List α) (first last : Nat) : Option (List α) :=
  if first ≤ last ∧ last ≤ items.length then some ((items.take last).drop first) else none

def remove? (items : List α) (position : Nat) : Option (α × List α) :=
  items[position]?.map fun item => (item, items.eraseIdx position)

def exchange? (items : List α) (left right : Nat) : Option (List α) := do
  let leftItem ← items[left]?
  let rightItem ← items[right]?
  return (items.set left rightItem).set right leftItem

theorem subtract?_of_le {left right : Nat} (enough : right ≤ left) :
    subtract? left right = some (left - right) :=
  if_pos enough

theorem slice?_to_end {items : List α} {first : Nat} (inside : first ≤ items.length) :
    slice? items first items.length = some (items.drop first) := by
  rw [slice?, if_pos ⟨inside, Nat.le_refl _⟩, List.take_length]

/-! ## Actions -/

/-- What an action that applies no partial operation ends with. -/
def ending : EStateM.Result ε σ α → EStateM.Result (Halt ε) σ α
  | .ok result after => .ok result after
  | .error failure after => .error (.failure failure) after

def total (action : EStateM ε σ α) : Checked ε σ α := fun state => ending (action state)

def defined : Option α → Checked ε σ α
  | some value => pure value
  | none => throw .undefined

section

variable {action : EStateM ε σ α} {state after : σ}

theorem total_of_ok {result : α} (ends : action state = .ok result after) :
    total action state = .ok result after := by
  rw [total, ends, ending]

theorem total_of_error {failure : ε} (ends : action state = .error failure after) :
    total action state = .error (.failure failure) after := by
  rw [total, ends, ending]

@[simp] theorem total_pure (result : α) :
    total (pure result : EStateM ε σ α) = pure result := rfl

@[simp] theorem total_throw (failure : ε) :
    total (throw failure : EStateM ε σ α) = throw (.failure failure) := rfl

@[simp] theorem total_get : total (get : EStateM ε σ σ) = get := rfl

@[simp] theorem total_bind (action : EStateM ε σ α) (next : α → EStateM ε σ β) :
    total (action >>= next) = total action >>= fun result => total (next result) := by
  funext state
  rw [total, bind_apply, bind_apply, total]
  cases action state with
  | ok result after => rfl
  | error failure after => rfl

@[simp] theorem total_map (change : α → β) (action : EStateM ε σ α) :
    total (change <$> action) = change <$> total action := by
  rw [map_eq_pure_bind, map_eq_pure_bind, total_bind]
  rfl

@[simp] theorem total_ite (condition : Prop) [Decidable condition]
    (action other : EStateM ε σ α) :
    total (if condition then action else other) =
      if condition then total action else total other := by
  split <;> rfl

@[simp] theorem defined_some (value : α) : (defined (some value) : Checked ε σ α) = pure value :=
  rfl

end

end Checked

end Hinting
