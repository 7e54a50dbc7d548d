import Mathlib

set_option autoImplicit false

/-! Base64 as RFC 4648 defines it: four characters of six bits each carry three bytes, and
padding completes the last four. -/

namespace Auger.General.Base64

def sextet (c : Char) : Option Nat :=
  if 'A' ≤ c ∧ c ≤ 'Z' then some (c.toNat - 'A'.toNat)
  else if 'a' ≤ c ∧ c ≤ 'z' then some (c.toNat - 'a'.toNat + 26)
  else if '0' ≤ c ∧ c ≤ '9' then some (c.toNat - '0'.toNat + 52)
  else if c = '+' then some 62
  else if c = '/' then some 63
  else none

def group (s0 s1 s2 s3 : Nat) : Nat := s0 * 2 ^ 18 + s1 * 2 ^ 12 + s2 * 2 ^ 6 + s3

def lastByte (n : Nat) : Option (List UInt8) := if n % 2 ^ 16 = 0 then some [UInt8.ofNat (n / 2 ^ 16)] else none

def lastBytes (n : Nat) : Option (List UInt8) :=
  if n % 2 ^ 8 = 0 then some [UInt8.ofNat (n / 2 ^ 16), UInt8.ofNat (n / 2 ^ 8)] else none

def decodePadded (c0 c1 c2 : Char) : Option (List UInt8) :=
  if c2 = '=' then do lastByte (group (← sextet c0) (← sextet c1) 0 0)
  else do lastBytes (group (← sextet c0) (← sextet c1) (← sextet c2) 0)

/-- The bytes a text stands for, if an encoder can have written it. -/
def decode : List Char → Option (List UInt8)
  | [] => some []
  | c0 :: c1 :: c2 :: c3 :: rest =>
      if c3 = '=' ∧ rest = [] then decodePadded c0 c1 c2
      else do
        let n := group (← sextet c0) (← sextet c1) (← sextet c2) (← sextet c3)
        some (UInt8.ofNat (n / 2 ^ 16) :: UInt8.ofNat (n / 2 ^ 8) :: UInt8.ofNat n :: (← decode rest))
  | _ => none

/-- A text over the standard alphabet, with at most two characters of padding at its end. -/
def Padded (text : List Char) : Prop :=
  ∃ body, ∃ padding ≤ 2, text = body ++ List.replicate padding '=' ∧ ∀ c ∈ body, (sextet c).isSome = true

theorem sextet_ne_padding {c : Char} {s : Nat} (value : sextet c = some s) : c ≠ '=' := by
  rintro rfl
  cases value

theorem group_sextets {n : Nat} (small : n < 2 ^ 24) :
    group (n / 2 ^ 18 % 64) (n / 2 ^ 12 % 64) (n / 2 ^ 6 % 64) (n % 64) = n := by
  rw [group]
  omega

section
variable {n : Nat} {c0 c1 : Char} (small : n < 2 ^ 24) (first : sextet c0 = some (n / 2 ^ 18 % 64))
  (second : sextet c1 = some (n / 2 ^ 12 % 64))
include small first second

theorem decode_one (rest : n % 2 ^ 16 = 0) : decode [c0, c1, '=', '='] = some [UInt8.ofNat (n / 2 ^ 16)] := by
  have third : n / 2 ^ 6 % 64 = 0 := by omega
  have fourth : n % 64 = 0 := by omega
  have whole := group_sextets small
  rw [third, fourth] at whole
  rw [decode, if_pos ⟨rfl, rfl⟩, decodePadded, if_pos rfl, first, second, Option.bind_eq_bind, Option.bind_some,
    Option.bind_some, whole, lastByte, if_pos rest]

variable {c2 : Char} (third : sextet c2 = some (n / 2 ^ 6 % 64))
include third

theorem decode_two (rest : n % 2 ^ 8 = 0) :
    decode [c0, c1, c2, '='] = some [UInt8.ofNat (n / 2 ^ 16), UInt8.ofNat (n / 2 ^ 8)] := by
  have fourth : n % 64 = 0 := by omega
  have whole := group_sextets small
  rw [fourth] at whole
  rw [decode, if_pos ⟨rfl, rfl⟩, decodePadded, if_neg (sextet_ne_padding third), first, second, third,
    Option.bind_eq_bind, Option.bind_some, Option.bind_some, Option.bind_some, whole, lastBytes, if_pos rest]

variable {c3 : Char} (fourth : sextet c3 = some (n % 64))
include fourth

theorem decode_three (rest : List Char) :
    decode (c0 :: c1 :: c2 :: c3 :: rest) = (decode rest).map fun bytes =>
      UInt8.ofNat (n / 2 ^ 16) :: UInt8.ofNat (n / 2 ^ 8) :: UInt8.ofNat n :: bytes := by
  have last := sextet_ne_padding fourth
  rw [decode, if_neg fun both => last both.1, first, second, third, fourth]
  dsimp only [Option.bind_eq_bind, Option.bind_some]
  rw [group_sextets small]
  cases decode rest <;> rfl

end

end Auger.General.Base64
