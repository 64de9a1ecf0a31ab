import Hinting.Proofs.Machine.Correspondence

/-!
Machines that correspond still do so after every step, and so after every run.

One lemma for each part of a run, from memory actions to programs with a given
number of levels. The induction is on the program inside of a level and on the
levels at the end.
-/

namespace Hinting.Machine.Correspondence

variable {correspondence : Correspondence} {definitions : Bool} {place : Place}
  {offset : Nat} {left right : Machine}

/-! ## Actions on memory and on the step count -/

theorem Holds.of_sameControl {leftAfter rightAfter : Machine}
    (holds : correspondence.Holds definitions place left right)
    (leftSame : SameControl left leftAfter) (rightSame : SameControl right rightAfter)
    (related : correspondence.related place leftAfter rightAfter) :
    correspondence.Holds definitions place leftAfter rightAfter where
  related := related
  font := by rw [leftSame.font, rightSame.font, holds.font]
  functions := by rw [leftSame.functions, rightSame.functions, holds.functions]
  capture := by rw [leftSame.capture, rightSame.capture, holds.capture]
  decodedFontProgram := by
    rw [leftSame.decodedFontProgram, rightSame.decodedFontProgram, holds.decodedFontProgram]
  fontProgramLoaded := by
    rw [leftSame.fontProgramLoaded, rightSame.fontProgramLoaded, holds.fontProgramLoaded]
  primed := by rw [leftSame.primed, rightSame.primed, holds.primed]
  leftInFontProgram := by rw [leftSame.inFontProgram, holds.leftInFontProgram]
  rightInFontProgram := by rw [rightSame.inFontProgram, holds.rightInFontProgram]
  closed := by
    rw [leftSame.capture]
    exact holds.closed
  recorded := by
    rw [leftSame.capture]
    exact holds.recorded
  bodies := by
    rw [leftSame.functions]
    exact holds.bodies
  keeps :=
    holds.keeps.of_eq leftSame.font leftSame.fontProgramLoaded leftSame.decodedFontProgram
  fontProgram := by
    rw [leftSame.font]
    exact holds.fontProgram

theorem Holds.lift {leftOutcome rightOutcome : Outcome α}
    (holds : correspondence.Holds definitions place left right)
    (leftSame : SameControl left leftOutcome.machine)
    (rightSame : SameControl right rightOutcome.machine)
    (agree : Agree correspondence.excused offset (correspondence.related place)
      leftOutcome rightOutcome) :
    Agree correspondence.excused offset (correspondence.Holds definitions place)
      leftOutcome rightOutcome := by
  cases agree with
  | ok result related =>
      exact .ok result (holds.of_sameControl leftSame rightSame related)
  | error failure related =>
      exact .error failure (holds.of_sameControl leftSame rightSame related)
  | excuse cause => exact .excuse cause

theorem Holds.tick (holds : correspondence.Holds definitions place left right) :
    Agree correspondence.excused offset (correspondence.Holds definitions place)
      (Machine.tick left) (Machine.tick right) :=
  holds.lift (sameControl_tick left) (sameControl_tick right)
    (correspondence.tick holds.related)

theorem Holds.onMemory {action : MemoryAction α}
    (holds : correspondence.Holds definitions place left right)
    (keeps : Keeps correspondence.related correspondence.excused action) :
    Agree correspondence.excused 0 (correspondence.Holds definitions place)
      (Machine.onMemory action left) (Machine.onMemory action right) :=
  holds.lift (sameControl_onMemory action left) (sameControl_onMemory action right)
    (keeps place left right holds.related)

theorem Holds.ofExcept (holds : correspondence.Holds definitions place left right)
    (result : Except Fault α) :
    Agree correspondence.excused 0 (correspondence.Holds definitions place)
      (Machine.onMemory (MonadExcept.ofExcept result) left)
      (Machine.onMemory (MonadExcept.ofExcept result) right) := by
  cases result with
  | ok result => exact .ok result holds
  | error cause => exact .error_same { cause } holds

theorem Holds.emit (holds : correspondence.Holds definitions place left right)
    (leftEvent rightEvent : Event) :
    correspondence.Holds definitions place
      { left with journal := leftEvent :: left.journal }
      { right with journal := rightEvent :: right.journal } :=
  { holds with related := correspondence.journal holds.related _ _ }

theorem Holds.weaken (holds : correspondence.Holds false place left right) :
    correspondence.Holds definitions place left right :=
  { holds with closed := fun _ => holds.closed rfl }

/-! ## Recording -/

theorem Holds.close (holds : correspondence.Holds true place left right) :
    correspondence.Holds definitions place
      { left with capture := none } { right with capture := none } :=
  { holds with
    related := correspondence.capture holds.related none
    capture := rfl
    closed := fun _ => rfl
    recorded := fun _ captured => nomatch captured }

theorem Holds.withCapture (holds : correspondence.Holds true place left right)
    (capture : Capture) (admitted : correspondence.AdmitsBody capture.recorded) :
    correspondence.Holds true place
      { left with capture := some capture } { right with capture := some capture } :=
  { holds with
    related := correspondence.capture holds.related (some capture)
    capture := rfl
    closed := fun impossible => nomatch impossible
    recorded := by
      intro recorded captured
      cases captured
      exact admitted }

theorem Holds.define (holds : correspondence.Holds true place left right)
    (capture : Capture) (admitted : correspondence.AdmitsBody capture.recorded) :
    correspondence.Holds true place
      { left with
        capture := none
        functions := left.functions.define capture.id capture.recorded.reverse }
      { right with
        capture := none
        functions := right.functions.define capture.id capture.recorded.reverse } :=
  { (holds.close : correspondence.Holds true place _ _) with
    related := correspondence.define (correspondence.capture holds.related none) _ _
    functions := by rw [holds.functions]
    bodies := by
      intro id body found
      by_cases same : capture.id = id
      · subst same
        rw [FunctionTable.get?_define_same] at found
        cases known : left.functions.get? capture.id with
        | some old =>
            rw [known] at found
            cases found
            exact holds.bodies _ _ known
        | none =>
            rw [known] at found
            cases found
            exact admitted.reverse
      · rw [FunctionTable.get?_define_other _ _ same] at found
        exact holds.bodies id body found }

theorem Holds.endFunction (holds : correspondence.Holds true place left right)
    (capture : Capture) (admitted : correspondence.AdmitsBody capture.recorded) :
    Agree correspondence.excused offset (correspondence.Holds true place)
      (endFunction capture left) (Machine.endFunction capture right) := by
  rw [Machine.endFunction]
  apply Agree.get_bind
  have sameKnown : right.functions.contains capture.id =
      left.functions.contains capture.id := by rw [holds.functions]
  rw [sameKnown]
  split
  · exact .ok _ (holds.close.emit _ _)
  · exact .ok _ ((holds.define capture admitted).emit _ _)

theorem Holds.record (holds : correspondence.Holds true place left right)
    (capture : Capture) (instruction : Instruction)
    (admitted : correspondence.AdmitsBody capture.recorded)
    (admits : correspondence.admits instruction) :
    Agree correspondence.excused offset (correspondence.Holds true place)
      (record capture instruction left) (Machine.record capture instruction right) := by
  unfold Machine.record
  split
  · exact holds.endFunction capture admitted
  · exact .fault holds
  · rename_i notEnd notBegin
    have delimits : instruction.delimitsFunction = false := by
      unfold Instruction.delimitsFunction
      split
      · exact (notBegin rfl).elim
      · exact (notEnd rfl).elim
      · rfl
    exact .modify (holds.withCapture _ (admitted.cons delimits admits))

/-! ## Control instructions -/

theorem Holds.functionId (holds : correspondence.Holds definitions place left right) :
    Agree correspondence.excused 0 (correspondence.Holds definitions place)
      (functionId left) (Machine.functionId right) :=
  .bind (holds.onMemory correspondence.peek) (fun _ _ kept => kept)
    fun _ _ _ middle => middle.ofExcept _

theorem Holds.skipBranch (holds : correspondence.Holds definitions place left right)
    (stopAtElse : Bool) (rest : Program) :
    Agree correspondence.excused 0 (correspondence.Holds definitions place)
      (skipBranch stopAtElse rest left) (Machine.skipBranch stopAtElse rest right) := by
  rw [Machine.skipBranch]
  cases distanceToMarker? stopAtElse 0 rest with
  | some distance => exact .ok _ holds
  | none => exact .fault holds

theorem Holds.beginFunction {leftCall rightCall : UInt32 → Nat → MachineAction Unit}
    (holds : correspondence.Holds true place left right) (rest : Program) :
    Agree correspondence.excused 0 (correspondence.Holds true place)
      (control leftCall rest .beginFunction left)
      (control rightCall rest .beginFunction right) := by
  refine .bind holds.functionId (fun _ _ kept => kept) ?_
  intro id _ _ named
  refine .bind (named.onMemory correspondence.pop) (fun _ _ kept => kept) ?_
  intro _ _ _ popped
  exact .ok _ (popped.withCapture { id } .nil)

theorem Holds.control {leftCall rightCall : UInt32 → Nat → MachineAction Unit}
    (calls : correspondence.CallsAgree place leftCall rightCall)
    (holds : correspondence.Holds false place left right)
    (rest : Program) (operation : ControlOperation)
    (delimits : definitions = false →
      (Instruction.control operation).delimitsFunction = false) :
    Agree correspondence.excused 0 (correspondence.Holds definitions place)
      (control leftCall rest operation left)
      (Machine.control rightCall rest operation right) := by
  have weaken : ∀ left right, correspondence.Holds false place left right →
      correspondence.Holds definitions place left right := fun _ _ => Holds.weaken
  cases operation with
  | beginFunction =>
      cases definitions with
      | false => exact nomatch delimits rfl
      | true => exact holds.weaken.beginFunction rest
  | endFunction =>
      refine .get_bind ?_
      unfold mode
      rw [← holds.capture]
      exact .fault holds.weaken
  | call =>
      refine .weaken (.bind holds.functionId (fun _ _ kept => kept) ?_) weaken
      intro id _ _ named
      refine .bind (named.onMemory correspondence.pop) (fun _ _ kept => kept) ?_
      intro _ _ _ popped
      exact .bind (calls id 1 _ _ popped) (fun _ _ kept => kept)
        fun _ _ _ called => .ok _ called
  | loopCall =>
      refine .weaken (.bind (holds.onMemory correspondence.require)
        (fun _ _ kept => kept) ?_) weaken
      intro _ _ _ required
      refine .bind required.functionId (fun _ _ kept => kept) ?_
      intro id _ _ named
      refine .bind (named.onMemory correspondence.peek) (fun _ _ kept => kept) ?_
      intro count _ _ counted
      refine .bind (counted.onMemory correspondence.popTwo) (fun _ _ kept => kept) ?_
      intro _ _ _ popped
      by_cases positive : 0 < count.integerPart
      · simp only [positive, if_true]
        exact .bind (calls id _ _ _ popped) (fun _ _ kept => kept)
          fun _ _ _ called => .ok _ called
      · simp only [positive, if_false]
        exact .ok _ popped
  | beginIf =>
      refine .weaken (.bind (holds.onMemory correspondence.pop)
        (fun _ _ kept => kept) ?_) weaken
      intro condition _ _ popped
      cases condition.isTrue with
      | true => exact .ok _ popped
      | false => exact popped.skipBranch true rest
  | beginElse => exact holds.weaken.skipBranch false rest
  | endIf => exact .ok _ holds.weaken

/-! ## One program -/

theorem Holds.execute {leftCall rightCall : UInt32 → Nat → MachineAction Unit}
    (calls : correspondence.CallsAgree place leftCall rightCall)
    (holds : correspondence.Holds false place left right)
    (rest : Program) (instruction : Instruction)
    (admits : correspondence.admits instruction)
    (delimits : definitions = false → instruction.delimitsFunction = false) :
    Agree correspondence.excused 0 (correspondence.Holds definitions place)
      (execute leftCall rest instruction left)
      (Machine.execute rightCall rest instruction right) := by
  cases instruction with
  | control operation => exact holds.control calls rest operation delimits
  | _ =>
      exact .bind (holds.onMemory (correspondence.data admits rfl))
        (fun _ _ kept => kept.weaken) fun _ _ _ done => .ok _ done.weaken

/-- The left program begins `offset` instructions later than the right one. -/
theorem Holds.step {leftCall rightCall : UInt32 → Nat → MachineAction Unit}
    (calls : correspondence.CallsAgree place leftCall rightCall)
    (holds : correspondence.Holds definitions place left right)
    (index : Nat) (instruction : Instruction) (rest : Program)
    (admits : correspondence.admits instruction)
    (delimits : definitions = false → instruction.delimitsFunction = false) :
    Agree correspondence.excused offset (correspondence.Holds definitions place)
      (step leftCall (index + offset) instruction rest left)
      (Machine.step rightCall index instruction rest right) := by
  refine .bind holds.tick (fun _ _ kept => kept) ?_
  intro _ leftTicked rightTicked ticked
  refine .get_bind ?_
  rw [← ticked.capture]
  cases captured : leftTicked.capture with
  | some capture =>
      cases definitions with
      | false => exact nomatch captured.symm.trans (ticked.closed rfl)
      | true =>
          exact .bind (ticked.record capture instruction
            (ticked.recorded capture captured) admits)
            (fun _ _ kept => kept) fun _ _ _ done => .ok _ done
  | none =>
      have outside : correspondence.Holds false place leftTicked rightTicked :=
        { ticked with closed := fun _ => captured }
      exact .within_instruction ((outside.emit _ _).execute calls rest instruction admits
        delimits)

theorem Holds.runFrom {leftCall rightCall : UInt32 → Nat → MachineAction Unit}
    (calls : correspondence.CallsAgree place leftCall rightCall)
    (holds : correspondence.Holds definitions place left right)
    (index pass : Nat) (program : Program)
    (admitted : correspondence.AdmitsProgram definitions program) :
    Agree correspondence.excused offset (correspondence.Holds definitions place)
      (runFrom leftCall (index + offset) pass program left)
      (Machine.runFrom rightCall index pass program right) := by
  induction program generalizing index pass left right with
  | nil => exact .ok _ holds
  | cons instruction rest induction =>
      have restAdmitted := admitted.of_cons
      cases pass with
      | succ pass =>
          have later := induction holds (index + 1) pass restAdmitted
          rwa [Nat.add_right_comm] at later
      | zero =>
          refine .bind (holds.step calls index instruction rest
            (admitted.2 instruction List.mem_cons_self)
            fun none => admitted.1 none instruction List.mem_cons_self)
            (fun _ _ kept => kept) ?_
          intro pass _ _ stepped
          have later := induction stepped (index + 1) pass restAdmitted
          rwa [Nat.add_right_comm] at later

/-- No definition is open after a whole program, and any may be before its end. -/
theorem Holds.runWhole {leftRun rightRun : Program → MachineAction Unit}
    {leftProgram rightProgram : Program}
    (agree : Agree correspondence.excused offset (correspondence.Holds true place)
      (leftRun leftProgram left) (rightRun rightProgram right)) :
    Agree correspondence.excused offset (correspondence.Holds false place)
      (runWhole leftRun leftProgram left)
      (Machine.runWhole rightRun rightProgram right) := by
  unfold Machine.runWhole
  generalize leftRun leftProgram left = leftOutcome at agree
  generalize rightRun rightProgram right = rightOutcome at agree
  cases agree with
  | excuse cause => exact .excuse cause
  | error failure holds => exact .error failure holds.close
  | @ok _ leftAfter rightAfter holds =>
      dsimp only
      rw [← holds.capture]
      cases captured : leftAfter.capture with
      | none => exact .ok _ { holds with closed := fun _ => captured }
      | some capture =>
          exact .error { cause := .unterminatedFunction capture.id } holds.close

/-! ## Programs below -/

variable {levels depth : Nat} {inside : Bool}
  {leftRun rightRun : Program → MachineAction Unit}

theorem Holds.fontProgram?_eq (holds : correspondence.Holds definitions place left right) :
    left.fontProgram? = right.fontProgram? := by
  rw [fontProgram?, fontProgram?, holds.decodedFontProgram, holds.font]

theorem Holds.startFontProgram {program : Program}
    (holds : correspondence.Holds false ⟨levels + 1, depth, false⟩ left right)
    (found : left.fontProgram? = .ok (some program)) :
    correspondence.Holds true ⟨levels, depth, true⟩ (left.startFontProgram program)
      (right.startFontProgram program) :=
  { holds with
    related := correspondence.startFontProgram holds.related program
    decodedFontProgram := rfl
    fontProgramLoaded := rfl
    leftInFontProgram := rfl
    rightInFontProgram := rfl
    closed := fun _ => holds.closed rfl
    keeps := holds.keeps.load found }

theorem Holds.endFontProgram
    (holds : correspondence.Holds false ⟨levels, depth, true⟩ left right) :
    correspondence.Holds false ⟨levels + 1, depth, false⟩
      { left with inFontProgram := false } { right with inFontProgram := false } :=
  { holds with
    related := correspondence.endFontProgram holds.related
    leftInFontProgram := rfl
    rightInFontProgram := rfl }

theorem Holds.decodeTable (holds : correspondence.Holds definitions place left right)
    (context : Context) (bytes : List UInt8) :
    Agree correspondence.excused 0 (correspondence.Holds definitions place)
      (decodeTable context bytes left) (Machine.decodeTable context bytes right) := by
  rw [Machine.decodeTable]
  cases decode bytes with
  | ok program => exact .ok program holds
  | error malformation => exact .within (.fault holds)

theorem Holds.finishFontProgram (runs : correspondence.RunsAgree levels leftRun rightRun)
    (holds : correspondence.Holds true ⟨levels, depth, true⟩ left right) {program : Program}
    (admitted : correspondence.AdmitsProgram true program) :
    Agree correspondence.excused 0
      (correspondence.Holds false ⟨levels + 1, depth, false⟩)
      (finishFontProgram leftRun program left)
      (Machine.finishFontProgram rightRun program right) := by
  have ran := Holds.runWhole (runs depth true true program _ _ admitted holds)
  refine .bind (.within (.ensuring ran fun _ _ ended => ended.endFontProgram))
    (fun _ _ kept => kept) ?_
  intro _ _ _ done
  exact .modify (done.emit _ _)

theorem Holds.runFontProgram (runs : correspondence.RunsAgree levels leftRun rightRun)
    (holds : correspondence.Holds false ⟨levels + 1, depth, false⟩ left right) :
    Agree correspondence.excused 0
      (correspondence.Holds false ⟨levels + 1, depth, false⟩)
      (runFontProgram leftRun left) (Machine.runFontProgram rightRun right) := by
  rw [runFontProgram_apply, runFontProgram_apply, ← holds.fontProgram?_eq]
  cases found : left.fontProgram? with
  | error malformation => exact .error_same _ holds
  | ok needed =>
      cases needed with
      | none => exact .ok _ holds
      | some program =>
          rcases holds.keeps.exists_decode found with ⟨bytes, offered, decodes⟩
          exact (holds.startFontProgram found).finishFontProgram runs
            (holds.fontProgram bytes program offered decodes)

private theorem get?_of_lookup {id : UInt32} {machine after : Machine} {body : Program}
    (found : (match machine.functions.get? id with
      | some body => pure body
      | none => fault (.unresolvedFunction id) : MachineAction Program) machine =
        .ok body after) :
    after.functions.get? id = some body := by
  cases known : machine.functions.get? id with
  | none =>
      rw [known] at found
      exact nomatch found
  | some body =>
      rw [known] at found
      cases found
      exact known

theorem get?_of_resolve {run : Program → MachineAction Unit} {id : UInt32}
    {machine after : Machine} {body : Program}
    (resolved : resolve run id machine = .ok body after) :
    after.functions.get? id = some body := by
  rw [resolve] at resolved
  rw [get_bind_apply] at resolved
  cases known : machine.functions.get? id with
  | some found =>
      rw [known] at resolved
      cases resolved
      exact known
  | none =>
      rw [known] at resolved
      dsimp only at resolved
      split at resolved
      · exact get?_of_lookup resolved
      · rcases bind_eq_ok.mp resolved with ⟨_, _, _, resolved⟩
        rcases bind_eq_ok.mp resolved with ⟨_, _, _, resolved⟩
        exact get?_of_lookup resolved

theorem Holds.resolve (runs : correspondence.RunsAgree levels leftRun rightRun)
    (holds : correspondence.Holds false ⟨levels + 1, depth, inside⟩ left right)
    (id : UInt32) :
    Agree correspondence.excused 0
      (correspondence.Holds false ⟨levels + 1, depth, inside⟩)
      (resolve leftRun id left) (Machine.resolve rightRun id right) := by
  have lookup : ∀ left right,
      correspondence.Holds false ⟨levels + 1, depth, inside⟩ left right →
        Agree correspondence.excused 0
          (correspondence.Holds false ⟨levels + 1, depth, inside⟩)
          ((match left.functions.get? id with
            | some body => pure body
            | none => fault (.unresolvedFunction id) : MachineAction Program) left)
          ((match right.functions.get? id with
            | some body => pure body
            | none => fault (.unresolvedFunction id) : MachineAction Program) right) := by
    intro left right holds
    rw [← holds.functions]
    cases left.functions.get? id with
    | some body => exact .ok body holds
    | none => exact .fault holds
  rw [Machine.resolve]
  refine .get_bind ?_
  rw [← holds.functions, holds.leftInFontProgram, holds.rightInFontProgram]
  cases left.functions.get? id with
  | some body => exact .ok body holds
  | none =>
      cases inside with
      | true => exact .get_bind (lookup _ _ holds)
      | false =>
          refine .modify_bind ?_
          refine .bind ((holds.emit _ _).runFontProgram runs) (fun _ _ kept => kept) ?_
          intro _ _ _ ran
          exact .get_bind (lookup _ _ ran)

theorem Holds.repeatBody (runs : correspondence.RunsAgree levels leftRun rightRun)
    (holds : correspondence.Holds false ⟨levels, depth, inside⟩ left right)
    (body : Program) (admitted : correspondence.AdmitsBody body) (count : Nat) :
    Agree correspondence.excused 0 (correspondence.Holds false ⟨levels, depth, inside⟩)
      (repeatBody leftRun body count left) (Machine.repeatBody rightRun body count right) := by
  induction count generalizing left right with
  | zero => exact .ok _ holds
  | succ count induction =>
      refine .bind holds.tick (fun _ _ kept => kept) ?_
      intro _ _ _ ticked
      refine .bind (runs depth inside false body _ _ admitted.program ticked)
        (fun _ _ kept => kept) ?_
      intro _ _ _ ran
      exact induction ran

theorem Holds.enter
    (holds : correspondence.Holds false ⟨levels + 1, depth, inside⟩ left right)
    (room : left.callDepth < left.limits.maxCallDepth) :
    right.callDepth < right.limits.maxCallDepth ∧
      correspondence.Holds false ⟨levels, depth + 1, inside⟩
        { left with callDepth := left.callDepth + 1 }
        { right with callDepth := right.callDepth + 1 } :=
  have entered := correspondence.enter holds.related room
  ⟨entered.1, { holds with related := entered.2 }⟩

theorem Holds.leave
    (holds : correspondence.Holds false ⟨levels, depth + 1, inside⟩ left right) :
    correspondence.Holds false ⟨levels + 1, depth, inside⟩
      { left with callDepth := left.callDepth - 1 }
      { right with callDepth := right.callDepth - 1 } :=
  { holds with related := correspondence.leave holds.related }

theorem callsAgree_callFunction (runs : correspondence.RunsAgree levels leftRun rightRun) :
    correspondence.CallsAgree ⟨levels + 1, depth, inside⟩ (callFunction leftRun)
      (callFunction rightRun) := by
  intro id count left right holds
  rw [callFunction]
  refine .bind_of_ok (holds.resolve runs id) (fun _ _ kept => kept) ?_
  intro body leftFound rightFound resolved found
  have admitted := found.bodies id body (get?_of_resolve resolved)
  refine .get_bind ?_
  dsimp only
  by_cases full : leftFound.limits.maxCallDepth ≤ leftFound.callDepth
  · rw [if_pos full]
    rcases correspondence.refuse found.related full with excused | ⟨rightFull, sameLimit⟩
    · exact .excuse excused
    · rw [if_pos rightFull, ← sameLimit]
      exact .fault found
  · rcases found.enter (Nat.lt_of_not_le full) with ⟨rightRoom, entered⟩
    rw [if_neg full, if_neg (Nat.not_le_of_lt rightRoom)]
    exact .within (.ensuring (entered.repeatBody runs body admitted count)
      fun _ _ repeated => repeated.leave)

/-! ## All levels -/

theorem runsAgree_runNested (levels : Nat) :
    correspondence.RunsAgree levels (runNested levels)
      (runNested (levels + correspondence.spareLevels)) := by
  -- The calls in a program run programs of the level below.
  induction levels with
  | zero =>
      intro depth inside definitions program left right _ holds
      rcases correspondence.floor holds.related with excused | ⟨noSpare, sameLimit⟩
      · exact .excuse excused
      · rw [noSpare, runNested]
        refine .get_bind ?_
        rw [← sameLimit]
        exact .fault holds
  | succ levels induction =>
      intro depth inside definitions program left right admitted holds
      rw [Nat.add_right_comm]
      exact holds.runFrom (callsAgree_callFunction induction) 0 0 program admitted

end Hinting.Machine.Correspondence
