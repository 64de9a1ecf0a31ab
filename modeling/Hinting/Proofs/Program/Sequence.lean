import Hinting.Proofs.Machine.Rest
import Hinting.Proofs.Program.Marker

/-!
A program that another one follows.

The first program can only tell that it goes on where it looks ahead for a marker
that it does not hold itself. On its own it fails there.
-/

namespace Hinting.Machine

/-! ## One instruction -/

/-- The longer action is the same on every machine, except where the shorter one
fails because a marker is missing. -/
def SameUnless (missing : Prop) (longer shorter : MachineAction α) : Prop :=
  ∀ machine, longer machine = shorter machine ∨
    missing ∧ FailsWith .unbalancedConditional (shorter machine)

namespace SameUnless

variable {missing : Prop} {longer shorter : MachineAction α}

theorem refl (action : MachineAction α) : SameUnless missing action action :=
  fun _ => .inl rfl

theorem bind {first : MachineAction β} {longerNext shorterNext : β → MachineAction α}
    (next : ∀ result, SameUnless missing (longerNext result) (shorterNext result)) :
    SameUnless missing (first >>= longerNext) (first >>= shorterNext) := by
  intro machine
  rw [bind_apply, bind_apply]
  cases first machine with
  | error failure after => exact .inl rfl
  | ok result after => exact next result after

theorem within {context : Context} (same : SameUnless missing longer shorter) :
    SameUnless missing (within context longer) (Machine.within context shorter) := by
  intro machine
  rcases same machine with equal | ⟨missing, fails⟩
  · rw [Machine.within]
    rw [equal]
    exact .inl rfl
  · exact .inr ⟨missing, fails.within⟩

end SameUnless

variable {call : UInt32 → Nat → MachineAction Unit}

theorem sameUnless_skipBranch (stopAtElse : Bool) (rest later : Program) :
    SameUnless ((distanceToMarker? stopAtElse 0 rest).isSome = false)
      (skipBranch stopAtElse (rest ++ later)) (skipBranch stopAtElse rest) := by
  intro machine
  unfold skipBranch
  cases found : distanceToMarker? stopAtElse 0 rest with
  | some distance =>
      rw [distanceToMarker?_append found]
      exact .inl rfl
  | none => exact .inr ⟨rfl, _, _, rfl, rfl⟩

theorem sameUnless_execute (instruction : Instruction) (rest later : Program) :
    SameUnless (instruction.findsMarker rest = false)
      (execute call (rest ++ later) instruction) (execute call rest instruction) := by
  cases instruction with
  | control operation =>
      cases operation with
      | beginIf =>
          refine .bind fun condition => ?_
          split
          · exact .refl _
          · exact sameUnless_skipBranch true rest later
      | beginElse => exact sameUnless_skipBranch false rest later
      | _ => exact .refl _
  | _ => exact .refl _

theorem sameUnless_step (call : UInt32 → Nat → MachineAction Unit) (index : Nat)
    (instruction : Instruction) (rest later : Program) :
    SameUnless (instruction.findsMarker rest = false)
      (step call index instruction (rest ++ later)) (step call index instruction rest) := by
  refine .bind fun _ => .bind fun machine => ?_
  cases machine.capture with
  | some capture => exact .refl _
  | none => exact .bind fun _ => (sameUnless_execute instruction rest later).within

/-! ## How far an instruction jumps -/

theorem returns_skipBranch (stopAtElse : Bool) (rest : Program) :
    Returns (· ≤ rest.length) (skipBranch stopAtElse rest) := by
  rw [skipBranch]
  cases found : distanceToMarker? stopAtElse 0 rest with
  | none => exact .fault
  | some distance => exact .pure (distanceToMarker?_le found)

theorem returns_control (operation : ControlOperation) (rest : Program) :
    Returns (· ≤ rest.length) (control call rest operation) := by
  have stays : Returns (· ≤ rest.length) (pure 0) := .pure (Nat.zero_le rest.length)
  cases operation with
  | beginFunction => exact .bind fun _ => .bind fun _ => .bind fun _ => stays
  | endFunction => exact .bind fun _ => .fault
  | call => exact .bind fun _ => .bind fun _ => .bind fun _ => stays
  | loopCall =>
      refine .bind fun _ => .bind fun _ => .bind fun count => .bind fun _ => ?_
      dsimp only
      split
      · exact .bind fun _ => stays
      · exact stays
  | beginIf =>
      refine .bind fun condition => ?_
      split
      · exact stays
      · exact returns_skipBranch true rest
  | beginElse => exact returns_skipBranch false rest
  | endIf => exact stays

theorem returns_execute (instruction : Instruction) (rest : Program) :
    Returns (· ≤ rest.length) (execute call rest instruction) := by
  cases instruction with
  | control operation => exact returns_control operation rest
  | _ => exact .bind fun _ => .pure (Nat.zero_le rest.length)

theorem returns_step (index : Nat) (instruction : Instruction) (rest : Program) :
    Returns (· ≤ rest.length) (step call index instruction rest) := by
  refine .bind fun _ => .bind fun machine => ?_
  cases machine.capture with
  | some capture => exact .bind fun _ => .pure (Nat.zero_le rest.length)
  | none => exact .bind fun _ => (returns_execute instruction rest).within

/-! ## Runs -/

theorem runFrom_length (call : UInt32 → Nat → MachineAction Unit) (index : Nat)
    (passed rest : Program) :
    runFrom call index passed.length (passed ++ rest) =
      runFrom call (index + passed.length) 0 rest := by
  induction passed generalizing index with
  | nil => rfl
  | cons instruction passed induction =>
      rw [List.cons_append, List.length_cons, runFrom, induction]
      congr 1
      omega

theorem runFrom_behind (index : Nat) (passed : Program) (marker : Instruction)
    (rest : Program) :
    runFrom call index (passed.length + 1) (passed ++ marker :: rest) =
      runFrom call (index + (passed.length + 1)) 0 rest := by
  have passes := runFrom_length call index (passed ++ [marker]) rest
  rwa [List.length_append, List.append_assoc] at passes

/-- A run goes through one program and then through the other, unless the first one
fails on its own because a marker is missing. -/
theorem runFrom_append (index : Nat) {pass : Nat} {program : Program}
    (within : pass ≤ program.length) (later : Program) (machine : Machine) :
    runFrom call index pass (program ++ later) machine =
        (runFrom call index pass program >>= fun _ =>
          runFrom call (index + program.length) 0 later) machine ∨
      ¬ program.FindsMarkers ∧
        FailsWith .unbalancedConditional (runFrom call index pass program machine) := by
  induction program generalizing index pass machine with
  | nil =>
      cases Nat.le_zero.mp within
      exact .inl rfl
  | cons instruction rest induction =>
      have next : index + 1 + rest.length = index + (rest.length + 1) := by omega
      rw [List.cons_append, List.length_cons, ← next]
      cases pass with
      | succ pass =>
          have ran := induction (index + 1) (Nat.le_of_succ_le_succ within) machine
          exact ran.imp_right fun ⟨missing, fails⟩ => ⟨fun finds => missing finds.2, fails⟩
      | zero =>
          rw [runFrom, runFrom, bind_assoc]
          -- A look ahead that misses its marker in `rest` may find one in `later`.
          rcases sameUnless_step call index instruction rest later machine with
            same | ⟨missing, fails⟩
          · cases stepped : step call index instruction rest machine with
            | error failure after =>
                rw [stepped] at same
                rw [bind_apply_of_error same, bind_apply_of_error stepped]
                exact .inl rfl
            | ok pass after =>
                rw [stepped] at same
                rw [bind_apply_of_ok same, bind_apply_of_ok stepped]
                have ran := induction (index + 1)
                  (returns_step index instruction rest _ _ _ stepped) after
                exact ran.imp_right fun ⟨missing, fails⟩ =>
                  ⟨fun finds => missing finds.2, .bind_of_ok stepped fails⟩
          · exact .inr ⟨fun finds => Bool.false_ne_true (missing.symm.trans finds.1),
              fails.bind⟩

theorem runFrom_append_of_findsMarkers (index : Nat) {program : Program}
    (finds : program.FindsMarkers) (later : Program) (machine : Machine) :
    runFrom call index 0 (program ++ later) machine =
      (runFrom call index 0 program >>= fun _ =>
        runFrom call (index + program.length) 0 later) machine :=
  (runFrom_append index (Nat.zero_le _) later machine).resolve_right
    fun unbalanced => unbalanced.1 finds

/-! ## Whole programs -/

open Correspondence

/-- Where a program only goes on with another one, on a machine in the same state, it ends like that
one by itself. -/
theorem AtRest.executeProgram_of_continues {machine middle other : Machine} (rest : other.AtRest)
    (unlimited : other.limits.maxSteps = none) (same : SameState middle other)
    {program later : Program} {offset : Nat}
    (continues : runFrom (outermostCall machine.limits) 0 0 program { machine with steps := 0 } =
      runFrom (outermostCall other.limits) (0 + offset) 0 later middle) :
    Agree (fun _ => False) offset
      (fun left right => SameState left right ∧ left.steps = right.steps + middle.steps)
      (executeProgram program machine) (executeProgram later other) := by
  have holds : (shift other.limits 0 middle.steps).Holds false
      ⟨other.limits.maxCallDepth + 2, 0, false⟩ middle { other with steps := 0 } :=
    rest.resetSteps.holds { same with } (Nat.zero_add _).symm (.inr unlimited) _
  have agree := holds.weaken.runOutermost 0 offset later (shift_admitsProgram _ _ _ later)
  rw [executeProgram_apply, executeProgram_apply, runWhole_congr continues]
  exact ((Holds.runWhole agree).strict (shift_strict _ _) _).weaken
    fun _ _ related => ⟨related.sameState, related.related.steps⟩

theorem AtRest.executeProgram_append_of_ok {machine after : Machine} (rest : machine.AtRest)
    (unlimited : machine.limits.maxSteps = none) (first second : Program)
    (ran : executeProgram first machine = .ok () after) :
    Agree (fun _ => False) first.length
      (fun left right => SameState left right ∧ left.steps = after.steps + right.steps)
      (executeProgram (first ++ second) machine) (executeProgram second after) := by
  have limits : after.limits = machine.limits := by
    have kept := rest.limits_executeProgram first
    rwa [ran] at kept
  have afterRest : after.AtRest := by
    have left := LeavesAtRest.executeProgram first machine rest
    rwa [ran] at left
  rw [executeProgram_apply] at ran
  have ended := (runWhole_eq_ok.mp ran).1
  have continues : runFrom (outermostCall machine.limits) 0 0 (first ++ second)
      { machine with steps := 0 } =
        runFrom (outermostCall after.limits) (0 + first.length) 0 second after := by
    rcases runFrom_append 0 (Nat.zero_le first.length) second { machine with steps := 0 }
      with same | ⟨_, _, _, fails, _⟩
    · rw [same, bind_apply_of_ok ended, limits]
    · exact nomatch ended.symm.trans fails
  refine (afterRest.executeProgram_of_continues (by rw [limits, unlimited]) (.refl after)
    continues).weaken ?_
  intro left right related
  exact ⟨related.1, related.2.trans (Nat.add_comm _ _)⟩

/-- A program that fails does so before the next one, unless it is its end that it
fails at. -/
theorem executeProgram_append_of_error {machine after : Machine} {failure : Failure}
    (first second : Program) (ran : executeProgram first machine = .error failure after)
    (balanced : failure.cause ≠ .unbalancedConditional)
    (terminated : ∀ id, failure.cause ≠ .unterminatedFunction id) :
    executeProgram (first ++ second) machine = .error failure after := by
  rw [executeProgram_apply] at ran ⊢
  have fails := (runWhole_eq_error ran).resolve_right
    fun ⟨id, unterminated⟩ => terminated id unterminated
  rcases fails with ⟨middle, ends⟩
  have stops : runFrom (outermostCall machine.limits) 0 0 (first ++ second)
      { machine with steps := 0 } =
        runFrom (outermostCall machine.limits) 0 0 first { machine with steps := 0 } := by
    rcases runFrom_append 0 (Nat.zero_le first.length) second { machine with steps := 0 }
      with same | ⟨_, _, _, fails, cause⟩
    · rw [same, bind_apply_of_error ends, ends]
    · cases ends.symm.trans fails
      exact absurd cause balanced
  rw [runWhole_congr stops, ran]

/-- Two programs may as well be one. The failures of the second one are told from
later instructions then, and otherwise are the same. -/
theorem AtRest.executeProgram_append {machine : Machine} (rest : machine.AtRest)
    (unlimited : machine.limits.maxSteps = none) (first second : Program) :
    (∀ after, executeProgram first machine = .ok () after →
      Agree (fun _ => False) first.length
        (fun left right => SameState left right ∧ left.steps = after.steps + right.steps)
        (executeProgram (first ++ second) machine) (executeProgram second after)) ∧
    ∀ failure after, executeProgram first machine = .error failure after →
      failure.cause ≠ .unbalancedConditional →
      (∀ id, failure.cause ≠ .unterminatedFunction id) →
        executeProgram (first ++ second) machine = .error failure after :=
  ⟨fun _ ran => rest.executeProgram_append_of_ok unlimited first second ran,
    fun _ _ ran => executeProgram_append_of_error first second ran⟩

/-- A push before two pops, of which the second fails, and a pop that fails before
everything else. -/
theorem executeProgram_append_new :
    (∃ after, executeProgram [.push (.ofBytes [7])] (new {}) = .ok () after ∧
      Agree (fun _ => False) 1
        (fun left right => SameState left right ∧ left.steps = after.steps + right.steps)
        (executeProgram ([.push (.ofBytes [7])] ++ [.stack .pop, .stack .pop]) (new {}))
        (executeProgram [.stack .pop, .stack .pop] after)) ∧
    ∃ after, executeProgram ([.stack .pop] ++ [.push (.ofBytes [7])]) (new {}) =
      .error ⟨[.instruction "POP" 0], .stackUnderflow 1 0⟩ after :=
  ⟨⟨_, rfl, ((atRest_new {}).executeProgram_append rfl [.push (.ofBytes [7])]
      [.stack .pop, .stack .pop]).1 _ rfl⟩,
    ⟨_, ((atRest_new {}).executeProgram_append rfl [.stack .pop] [.push (.ofBytes [7])]).2 _ _
      rfl (by decide) fun _ => nofun⟩⟩

end Hinting.Machine
