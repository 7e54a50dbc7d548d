import Mathlib

set_option autoImplicit false

/-! Numerals of a fixed length: their lexicographic order is the order of the numbers. -/

namespace Auger.General.Positional

/-- The last `length` digits of a number, most significant first. -/
def digits (base : Nat) : Nat → Nat → List Nat
  | 0, _ => []
  | length + 1, n => n / base ^ length % base :: digits base length n

/-- The number a numeral denotes after the digits read so far. -/
def value (base : Nat) (read : Nat) (numeral : List Nat) : Nat :=
  numeral.foldl (fun value d => value * base + d) read

variable {base : Nat}

theorem digits_length (length n : Nat) : (digits base length n).length = length := by
  induction length with
  | zero => rfl
  | succ length ih => rw [digits, List.length_cons, ih]

theorem digits_lt (positive : 0 < base) (length n : Nat) : ∀ d ∈ digits base length n, d < base := by
  induction length with
  | zero => simp [digits]
  | succ length ih =>
      intro d member
      rcases List.mem_cons.mp member with rfl | later
      · exact Nat.mod_lt _ positive
      · exact ih d later

theorem digits_add_mul (positive : 0 < base) (length high n : Nat) :
    digits base length (high * base ^ length + n) = digits base length n := by
  induction length generalizing high with
  | zero => rfl
  | succ length ih =>
      have split : high * base ^ (length + 1) + n = high * base * base ^ length + n := by
        rw [Nat.pow_succ]
        ring
      have power : 0 < base ^ length := Nat.pow_pos positive
      rw [digits, digits, split, ih (high * base), Nat.add_comm, Nat.add_mul_div_right _ _ power,
        Nat.add_mul_mod_self_right]

theorem digits_strictMono (positive : 0 < base) (length : Nat) {m n : Nat} (below : m < n)
    (fits : n < base ^ length) : digits base length m < digits base length n := by
  induction length generalizing m n with
  | zero =>
      rw [Nat.pow_zero] at fits
      omega
  | succ length ih =>
      have power : 0 < base ^ length := Nat.pow_pos positive
      have leading : n / base ^ length < base := by
        apply Nat.div_lt_of_lt_mul
        rwa [← Nat.pow_succ]
      have order : m / base ^ length ≤ n / base ^ length := Nat.div_le_div_right below.le
      rw [digits, digits, Nat.mod_eq_of_lt leading, Nat.mod_eq_of_lt (by omega), List.cons_lt_cons_iff]
      rcases Nat.lt_or_ge (m / base ^ length) (n / base ^ length) with smaller | same
      · exact .inl smaller
      · right
        have equal : m / base ^ length = n / base ^ length := by omega
        have lower := digits_add_mul positive length (m / base ^ length) (m % base ^ length)
        have upper := digits_add_mul positive length (n / base ^ length) (n % base ^ length)
        rw [Nat.div_add_mod' m] at lower
        rw [Nat.div_add_mod' n] at upper
        refine ⟨equal, ?_⟩
        rw [lower, upper]
        apply ih
        · have left := Nat.div_add_mod' m (base ^ length)
          have right := Nat.div_add_mod' n (base ^ length)
          rw [equal] at left
          omega
        · exact Nat.mod_lt _ power

theorem value_read (read : Nat) (numeral : List Nat) :
    value base read numeral = read * base ^ numeral.length + value base 0 numeral := by
  induction numeral generalizing read with
  | nil => simp [value]
  | cons d rest ih =>
      have step : ∀ r, value base r (d :: rest) = value base (r * base + d) rest := fun r => rfl
      rw [step, step, ih (read * base + d), ih (0 * base + d), List.length_cons, Nat.pow_succ]
      ring

theorem value_lt {numeral : List Nat} (small : ∀ d ∈ numeral, d < base) :
    value base 0 numeral < base ^ numeral.length := by
  induction numeral with
  | nil => simp [value]
  | cons d rest ih =>
      have tail := ih fun e member => small e (List.mem_cons_of_mem _ member)
      have head : d + 1 ≤ base := small d (by simp)
      calc value base 0 (d :: rest) = value base (0 * base + d) rest := rfl
        _ = d * base ^ rest.length + value base 0 rest := by rw [value_read]; ring
        _ < d * base ^ rest.length + base ^ rest.length := by omega
        _ = (d + 1) * base ^ rest.length := by ring
        _ ≤ base * base ^ rest.length := Nat.mul_le_mul_right _ head
        _ = base ^ (d :: rest).length := by rw [List.length_cons, Nat.pow_succ]; ring

theorem digits_value (positive : 0 < base) {numeral : List Nat} (small : ∀ d ∈ numeral, d < base) :
    digits base numeral.length (value base 0 numeral) = numeral := by
  induction numeral with
  | nil => rfl
  | cons d rest ih =>
      have others : ∀ e ∈ rest, e < base := fun e member => small e (List.mem_cons_of_mem _ member)
      have tail := value_lt others
      have whole : value base 0 (d :: rest) = d * base ^ rest.length + value base 0 rest := by
        calc value base 0 (d :: rest) = value base (0 * base + d) rest := rfl
          _ = d * base ^ rest.length + value base 0 rest := by rw [value_read]; ring
      have head : (d * base ^ rest.length + value base 0 rest) / base ^ rest.length = d := by
        rw [Nat.add_comm, Nat.add_mul_div_right _ _ (Nat.pow_pos positive), Nat.div_eq_of_lt tail, Nat.zero_add]
      rw [List.length_cons, digits, whole, head, digits_add_mul positive, ih others,
        Nat.mod_eq_of_lt (small d (by simp))]

end Auger.General.Positional
