/-!
Runs of characters, and the text of whole numbers: decimal digits without a superfluous zero, and a
sign in front of them for the negative ones.
-/

namespace Hinting

/-! ## Runs -/

theorem span_run {belongs : Char → Bool} {run rest : List Char}
    (inside : ∀ character ∈ run, belongs character = true)
    (ends : ∀ character ∈ rest.head?, belongs character = false) :
    (run ++ rest).takeWhile belongs = run ∧ (run ++ rest).dropWhile belongs = rest := by
  rw [List.takeWhile_append_of_pos inside, List.dropWhile_append_of_pos inside]
  cases rest with
  | nil => exact ⟨List.append_nil run, rfl⟩
  | cons character rest =>
      have outside : ¬belongs character = true := by simp [ends character rfl]
      rw [List.takeWhile_cons_of_neg outside, List.dropWhile_cons_of_neg outside]
      exact ⟨List.append_nil run, rfl⟩

theorem span_whole {belongs : Char → Bool} {run : List Char}
    (inside : ∀ character ∈ run, belongs character = true) :
    run.takeWhile belongs = run ∧ run.dropWhile belongs = [] := by
  have span := span_run inside (fun _ (impossible : _ ∈ [].head?) => nomatch impossible)
  rwa [List.append_nil] at span

namespace Numeral

/-! ## Digits -/

theorem head?_toDigits_ne_zero {number : Nat} (positive : 0 < number) :
    (Nat.toDigits 10 number).head? ≠ some '0' := by
  induction number using Nat.strongRecOn with
  | ind number induction =>
      by_cases single : number < 10
      · rw [Nat.toDigits_of_lt_base single]
        intro zero
        have code := congrArg Char.toNat (Option.some.inj zero)
        rw [Nat.toNat_digitChar_of_lt_ten single] at code
        exact absurd code (Nat.ne_of_gt (Nat.lt_add_of_pos_right positive))
      · have leading := induction (number / 10) (by omega) (by omega)
        rw [Nat.toDigits_of_base_le (by decide) (Nat.le_of_not_lt single)]
        cases digits : Nat.toDigits 10 (number / 10) with
        | nil => exact absurd digits Nat.toDigits_ne_nil
        | cons first others =>
            rw [digits] at leading
            exact leading

/-! ## Signs -/

theorem toList_toString (number : Int) :
    (toString number).toList =
      if 0 ≤ number then Nat.toDigits 10 number.toNat
      else '-' :: Nat.toDigits 10 (-number).toNat := by
  rw [Int.toString_eq_repr, Int.repr_eq_if]
  split
  · rw [Nat.repr_eq_ofList_toDigits, String.toList_ofList]
  · rw [String.toList_append, Nat.repr_eq_ofList_toDigits, String.toList_ofList,
      String.toList_ofList, List.singleton_append]

theorem isDigit_or_minus {number : Int} {character : Char}
    (member : character ∈ (toString number).toList) :
    character.isDigit = true ∨ character = '-' := by
  rw [toList_toString] at member
  split at member
  · exact .inl (Nat.isDigit_of_mem_toDigits (by decide) (by decide) member)
  · rcases List.mem_cons.mp member with sign | digit
    · exact .inr sign
    · exact .inl (Nat.isDigit_of_mem_toDigits (by decide) (by decide) digit)

theorem toDigits_ne_minus_cons (number : Nat) (rest : List Char) :
    Nat.toDigits 10 number ≠ '-' :: rest := by
  intro equal
  have member : '-' ∈ Nat.toDigits 10 number := by
    rw [equal]
    exact List.mem_cons_self
  exact nomatch Nat.isDigit_of_mem_toDigits (by decide) (by decide) member

theorem toDigits_injective {left right : Nat}
    (same : Nat.toDigits 10 left = Nat.toDigits 10 right) : left = right := by
  calc left = Nat.ofDigitChars 10 (Nat.toDigits 10 left) 0 := Nat.ofDigitChars_ten_toDigits.symm
    _ = Nat.ofDigitChars 10 (Nat.toDigits 10 right) 0 := by rw [same]
    _ = right := Nat.ofDigitChars_ten_toDigits

theorem toString_injective {left right : Int}
    (same : (toString left).toList = (toString right).toList) : left = right := by
  rw [toList_toString, toList_toString] at same
  split at same
  · split at same
    · have magnitude := toDigits_injective same
      omega
    · exact absurd same (toDigits_ne_minus_cons _ _)
  · split at same
    · exact absurd same.symm (toDigits_ne_minus_cons _ _)
    · have magnitude := toDigits_injective (List.cons.inj same).2
      omega

end Numeral

end Hinting
