import Hinting.Machine.Conditional

/-!
The markers that conditionals look ahead for.

A marker that is found stays where it is when the program goes on, and a balanced
program in front of a marker is passed over as a whole.
-/

namespace Hinting

namespace Instruction

def isConditional : Instruction → Bool
  | .control .beginIf => true
  | .control .beginElse => true
  | .control .endIf => true
  | _ => false

def isMarker (stopAtElse : Bool) (nested : Nat) : Instruction → Bool
  | .control .beginElse => stopAtElse && nested = 0
  | .control .endIf => nested = 0
  | _ => false

def nestedBehind (nested : Nat) : Instruction → Nat
  | .control .beginIf => nested + 1
  | .control .endIf => nested - 1
  | _ => nested

theorem isMarker_plain {instruction : Instruction}
    (plain : instruction.isConditional = false) (stopAtElse : Bool) (nested : Nat) :
    instruction.isMarker stopAtElse nested = false := by
  unfold isMarker
  split
  · exact nomatch plain
  · exact nomatch plain
  · rfl

theorem nestedBehind_plain {instruction : Instruction}
    (plain : instruction.isConditional = false) (nested : Nat) :
    instruction.nestedBehind nested = nested := by
  unfold nestedBehind
  split
  · exact nomatch plain
  · exact nomatch plain
  · rfl

end Instruction

def Instruction.findsMarker (rest : Program) : Instruction → Bool
  | .control .beginIf => (distanceToMarker? true 0 rest).isSome
  | .control .beginElse => (distanceToMarker? false 0 rest).isSome
  | _ => true

def Program.FindsMarkers : Program → Prop
  | [] => True
  | instruction :: rest => instruction.findsMarker rest = true ∧ FindsMarkers rest

section

variable {stopAtElse : Bool} {nested distance : Nat}

theorem distanceToMarker?_cons (instruction : Instruction) (rest : Program) :
    distanceToMarker? stopAtElse nested (instruction :: rest) =
      if instruction.isMarker stopAtElse nested then some 1
      else (distanceToMarker? stopAtElse (instruction.nestedBehind nested) rest).map (· + 1) := by
  cases instruction with
  | control operation =>
      cases operation with
      | beginElse => rfl
      | _ => cases nested <;> rfl
  | _ => cases nested <;> rfl

theorem distanceToMarker?_cons_eq_some {instruction : Instruction} {rest : Program} :
    distanceToMarker? stopAtElse nested (instruction :: rest) = some distance ↔
      instruction.isMarker stopAtElse nested = true ∧ distance = 1 ∨
        instruction.isMarker stopAtElse nested = false ∧
          ∃ further, distance = further + 1 ∧
            distanceToMarker? stopAtElse (instruction.nestedBehind nested) rest =
              some further := by
  rw [distanceToMarker?_cons]
  cases instruction.isMarker stopAtElse nested with
  | true => simp [eq_comm]
  | false =>
      simp only [Bool.false_eq_true, if_false, false_and, true_and, false_or,
        Option.map_eq_some_iff]
      exact exists_congr fun further => by rw [and_comm, eq_comm (a := distance)]

/-! ## Markers in longer programs -/

theorem distanceToMarker?_append {program : Program}
    (found : distanceToMarker? stopAtElse nested program = some distance)
    (rest : Program) :
    distanceToMarker? stopAtElse nested (program ++ rest) = some distance := by
  induction program generalizing nested distance with
  | nil => exact nomatch found
  | cons instruction program induction =>
      rw [List.cons_append, distanceToMarker?_cons_eq_some]
      rcases distanceToMarker?_cons_eq_some.mp found with
        here | ⟨passed, further, equal, found⟩
      · exact .inl here
      · exact .inr ⟨passed, further, equal, induction found⟩

theorem distanceToMarker?_le {program : Program}
    (found : distanceToMarker? stopAtElse nested program = some distance) :
    distance ≤ program.length := by
  induction program generalizing nested distance with
  | nil => exact nomatch found
  | cons instruction program induction =>
      rw [List.length_cons]
      rcases distanceToMarker?_cons_eq_some.mp found with
        ⟨_, equal⟩ | ⟨_, further, equal, found⟩
      · omega
      · have within := induction found
        omega

end

/-! ## Balanced programs -/

/-- A sequence of plain instructions and of conditionals from IF to EIF. Inside of
a conditional there may be any number of ELSE, outside only with `elses`. -/
inductive Program.Balanced : (elses : Bool) → Program → Prop
  | nil {elses : Bool} : Balanced elses []
  | plain {elses : Bool} {instruction : Instruction} {rest : Program} :
      instruction.isConditional = false → Balanced elses rest →
        Balanced elses (instruction :: rest)
  | marker {rest : Program} :
      Balanced true rest → Balanced true (.control .beginElse :: rest)
  | conditional {elses : Bool} {inside rest : Program} :
      Balanced true inside → Balanced elses rest →
        Balanced elses (.control .beginIf :: (inside ++ .control .endIf :: rest))

namespace Program.Balanced

variable {elses stopAtElse : Bool} {nested : Nat} {program : Program}

/-- A look ahead passes over a balanced program. If it may stop at an ELSE, then
there must be none that it could take for its own. -/
theorem distanceToMarker?_append (balanced : Balanced elses program)
    (passes : elses = true → stopAtElse = true → 0 < nested) (rest : Program) :
    distanceToMarker? stopAtElse nested (program ++ rest) =
      (distanceToMarker? stopAtElse nested rest).map (· + program.length) := by
  induction balanced generalizing nested rest with
  | nil => simp
  | plain plain _ induction =>
      rw [List.cons_append, distanceToMarker?_cons, Instruction.isMarker_plain plain,
        Instruction.nestedBehind_plain plain, induction passes]
      simp [Function.comp_def, Nat.add_assoc]
  | marker _ induction =>
      have passed : Instruction.isMarker stopAtElse nested (.control .beginElse) = false := by
        cases stopAtElse with
        | false => rfl
        | true => exact decide_eq_false (Nat.ne_of_gt (passes rfl rfl))
      rw [List.cons_append, distanceToMarker?_cons, passed]
      dsimp only [Instruction.nestedBehind]
      rw [induction passes]
      simp [Function.comp_def, Nat.add_assoc]
  | conditional _ _ inside behind =>
      -- Inside, the look ahead is one conditional deeper and takes no ELSE for its own.
      rw [List.cons_append, List.append_assoc, List.cons_append, distanceToMarker?,
        inside (fun _ _ => Nat.succ_pos nested), distanceToMarker?, behind passes]
      simp only [Option.map_map, Function.comp_def, List.length_cons, List.length_append]
      congr 1
      funext distance
      omega

theorem distanceToMarker?_marker (balanced : Balanced false program) {marker : Instruction}
    (stops : marker.isMarker stopAtElse nested = true) (rest : Program) :
    distanceToMarker? stopAtElse nested (program ++ marker :: rest) =
      some (program.length + 1) := by
  rw [balanced.distanceToMarker?_append (fun impossible => nomatch impossible),
    distanceToMarker?_cons, if_pos stops, Option.map_some, Nat.add_comm]

theorem isSome_distanceToMarker? (balanced : Balanced elses program) {rest : Program}
    (found : (distanceToMarker? stopAtElse nested rest).isSome) :
    (distanceToMarker? stopAtElse nested (program ++ rest)).isSome := by
  cases stopAtElse with
  | false =>
      have passes : elses = true → false = true → 0 < nested :=
        fun _ impossible => nomatch impossible
      rwa [balanced.distanceToMarker?_append passes, Option.isSome_map]
  | true =>
      induction balanced generalizing nested rest with
      | nil => exact found
      | plain plain _ induction =>
          rw [List.cons_append, distanceToMarker?_cons, Instruction.isMarker_plain plain,
            Instruction.nestedBehind_plain plain]
          simpa using induction found
      | marker _ induction =>
          rw [List.cons_append, distanceToMarker?]
          split
          · rfl
          · simpa using induction found
      | conditional _ _ inside behind =>
          rw [List.cons_append, List.append_assoc, List.cons_append, distanceToMarker?,
            Option.isSome_map]
          apply inside
          rw [distanceToMarker?, Option.isSome_map]
          exact behind found

theorem findsMarkers_append (balanced : Balanced elses program) {rest : Program}
    (ends : elses = true → (distanceToMarker? false 0 rest).isSome)
    (finds : FindsMarkers rest) : FindsMarkers (program ++ rest) := by
  induction balanced generalizing rest with
  | nil => exact finds
  | plain plain _ induction =>
      refine ⟨?_, induction ends finds⟩
      unfold Instruction.findsMarker
      split
      · exact nomatch plain
      · exact nomatch plain
      · rfl
  | marker balanced induction =>
      exact ⟨balanced.isSome_distanceToMarker? (ends rfl), induction ends finds⟩
  | conditional balancedInside _ inside behind =>
      rw [List.cons_append, List.append_assoc, List.cons_append]
      exact ⟨balancedInside.isSome_distanceToMarker? rfl,
        inside (fun _ => rfl) ⟨rfl, behind ends finds⟩⟩

theorem findsMarkers (balanced : Balanced false program) : FindsMarkers program := by
  have finds : FindsMarkers (program ++ []) :=
    balanced.findsMarkers_append (fun impossible => nomatch impossible) trivial
  rwa [List.append_nil] at finds

end Program.Balanced

end Hinting
