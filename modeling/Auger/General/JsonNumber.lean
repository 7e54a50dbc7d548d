import Auger.General.Json

set_option autoImplicit false

/-! Decimal texts that are JSON numbers. -/

namespace Auger.General.Json

/-- A number without its sign. -/
def isUnsigned (text : List Char) : Bool :=
  wholePart (text.takeWhile Char.isDigit) && fractionPart (text.dropWhile Char.isDigit)

theorem isNumber_unsigned {text : List Char} (valid : isUnsigned text = true) : isNumber text = true := by
  cases text with
  | nil => cases valid
  | cons c rest =>
      rw [isNumber]
      · exact valid
      · intro more same
        rw [(List.cons.inj same).1] at valid
        cases valid

theorem isUnsigned_whole {whole : List Char} (digits : ∀ c ∈ whole, c.isDigit = true)
    (valid : wholePart whole = true) : isUnsigned whole = true := by
  have taken : whole.takeWhile Char.isDigit = whole := List.takeWhile_eq_self_iff.mpr digits
  have left : whole.dropWhile Char.isDigit = [] := List.dropWhile_eq_nil_iff.mpr digits
  rw [isUnsigned, taken, left, valid]
  rfl

theorem isUnsigned_fraction {whole fraction : List Char} (digits : ∀ c ∈ whole, c.isDigit = true)
    (valid : wholePart whole = true) (places : ∀ c ∈ fraction, c.isDigit = true) (present : fraction ≠ []) :
    isUnsigned (whole ++ '.' :: fraction) = true := by
  have taken : (whole ++ '.' :: fraction).takeWhile Char.isDigit = whole := by
    rw [List.takeWhile_append_of_pos digits]
    simp
  have left : (whole ++ '.' :: fraction).dropWhile Char.isDigit = '.' :: fraction := by
    rw [List.dropWhile_append_of_pos digits]
    simp
  have all : fraction.takeWhile Char.isDigit = fraction := List.takeWhile_eq_self_iff.mpr places
  have nothing : fraction.dropWhile Char.isDigit = [] := List.dropWhile_eq_nil_iff.mpr places
  rw [isUnsigned, taken, left, valid, fractionPart, all, nothing]
  simp [present, exponentPart]

theorem toDigits_digits (n : Nat) : ∀ c ∈ Nat.toDigits 10 n, c.isDigit = true :=
  fun _ inside => Nat.isDigit_of_mem_toDigits (by decide) (by decide) inside

theorem wholePart_toDigits (n : Nat) : wholePart (Nat.toDigits 10 n) = true := by
  have digit : ∀ d < 10, 0 < d → Nat.digitChar d ≠ '0' := by decide
  induction n using Nat.strongRecOn with
  | ind n ih =>
      rw [Nat.toDigits_eq_if (by decide)]
      split_ifs with small
      · rcases Nat.eq_zero_or_pos n with rfl | positive
        · rfl
        · simp [wholePart, digit n small positive]
      · have earlier := ih (n / 10) (by omega)
        have present : Nat.toDigits 10 (n / 10) ≠ [] := Nat.toDigits_ne_nil
        have nonzero : Nat.toDigits 10 (n / 10) ≠ ['0'] := by
          intro zero
          have value : n / 10 = 0 := by
            rw [← @Nat.ofDigitChars_ten_toDigits (n / 10), zero]
            rfl
          omega
        obtain ⟨c, rest, same⟩ := List.exists_cons_of_ne_nil present
        rw [same] at earlier nonzero ⊢
        simp only [wholePart, Bool.or_eq_true, beq_iff_eq, nonzero, false_or, Bool.and_eq_true] at earlier
        simp only [wholePart, List.cons_append, List.head?_cons] at earlier ⊢
        simp only [earlier.2, Bool.and_true, List.isEmpty_cons, Bool.not_false, Bool.or_true]

theorem toDigits_head {n : Nat} (positive : 0 < n) : (Nat.toDigits 10 n).head? ≠ some '0' := by
  have nonzero : Nat.toDigits 10 n ≠ ['0'] := by
    intro zero
    have value : n = 0 := by
      rw [← @Nat.ofDigitChars_ten_toDigits n, zero]
      rfl
    omega
  have valid := wholePart_toDigits n
  simp only [wholePart, Bool.or_eq_true, beq_iff_eq, nonzero, false_or, Bool.and_eq_true, bne_iff_ne] at valid
  exact valid.2

theorem wholePart_of_head {text : List Char} (head : text.head? ≠ some '0') (present : text ≠ []) :
    wholePart text = true := by
  obtain ⟨c, rest, rfl⟩ := List.exists_cons_of_ne_nil present
  simp only [wholePart, List.isEmpty_cons, Bool.not_false, Bool.true_and, Bool.or_eq_true, bne_iff_ne]
  exact .inr head

theorem wholePart_take {text : List Char} (head : text.head? ≠ some '0') (present : text ≠ []) {m : Nat}
    (positive : 0 < m) : wholePart (text.take m) = true := by
  apply wholePart_of_head
  · rwa [List.head?_take, if_neg (by omega)]
  · simp only [ne_eq, List.take_eq_nil_iff, present, or_false]
    omega

/-- The digits of a number, with zeros in front so that more than `places` stand there. -/
def padded (n places : Nat) : List Char :=
  List.replicate (places + 1 - (Nat.toDigits 10 n).length) '0' ++ Nat.toDigits 10 n

theorem padded_digits (n places : Nat) : ∀ c ∈ padded n places, c.isDigit = true := by
  intro c inside
  rcases List.mem_append.mp inside with zero | digit
  · rw [List.eq_of_mem_replicate zero]
    rfl
  · exact toDigits_digits n c digit

theorem wholePart_padded (n : Nat) {places : Nat} (positive : 0 < places) :
    wholePart ((padded n places).take ((padded n places).length - places)) = true := by
  have present : 0 < (Nat.toDigits 10 n).length := List.length_pos_of_ne_nil Nat.toDigits_ne_nil
  by_cases long : places < (Nat.toDigits 10 n).length
  · have none_added : places + 1 - (Nat.toDigits 10 n).length = 0 := by omega
    have nonzero : 0 < n := by
      rcases Nat.eq_zero_or_pos n with rfl | above
      · have one : (Nat.toDigits 10 0).length = 1 := rfl
        omega
      · exact above
    rw [padded, none_added, List.replicate_zero, List.nil_append]
    exact wholePart_take (toDigits_head nonzero) Nat.toDigits_ne_nil (by omega)
  · obtain ⟨k, added⟩ : ∃ k, places + 1 - (Nat.toDigits 10 n).length = k + 1 := ⟨places - (Nat.toDigits 10 n).length, by omega⟩
    have one : (padded n places).length - places = 1 := by
      rw [padded, List.length_append, List.length_replicate]
      omega
    rw [one, padded, added, List.replicate_succ]
    rfl

theorem isUnsigned_nat (n : Nat) : isUnsigned (toString n).toList = true := by
  rw [Nat.toString_eq_repr, Nat.toList_repr]
  exact isUnsigned_whole (toDigits_digits n) (wholePart_toDigits n)

theorem isNumber_nat (n : Nat) : isNumber (toString n).toList = true := isNumber_unsigned (isUnsigned_nat n)

theorem isNumber_int (v : Int) : isNumber (toString v).toList = true := by
  rw [Int.toString_eq_repr, Int.repr_eq_if]
  split_ifs with positive
  · exact isNumber_nat v.toNat
  · rw [String.toList_append]
    exact isUnsigned_nat (-v).toNat

end Auger.General.Json
