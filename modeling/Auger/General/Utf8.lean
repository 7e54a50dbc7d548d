import Mathlib.Data.List.Basic

set_option autoImplicit false

/-! Texts as UTF-8 bytes. -/

namespace Auger.General

def utf8 (t : List Char) : List UInt8 := t.flatMap String.utf8EncodeChar

def fromUtf8 (bytes : List UInt8) : Option (List Char) := bytes.toByteArray.utf8Decode?.map Array.toList

theorem fromUtf8_utf8 (t : List Char) : fromUtf8 (utf8 t) = some t := by
  have decoded : (utf8 t).toByteArray.utf8Decode? = some t.toArray := List.utf8Decode?_utf8Encode
  rw [fromUtf8, decoded]
  rfl

@[simp] theorem utf8_nil : utf8 [] = [] := rfl

theorem utf8_append (t later : List Char) : utf8 (t ++ later) = utf8 t ++ utf8 later := List.flatMap_append

theorem utf8_cons (c : Char) (t : List Char) : utf8 (c :: t) = String.utf8EncodeChar c ++ utf8 t := List.flatMap_cons

theorem utf8_ascii {c : Char} (small : c.toNat < 128) (t : List Char) :
    utf8 (c :: t) = UInt8.ofNat c.toNat :: utf8 t := by
  have single : String.utf8EncodeChar c = [UInt8.ofNat c.toNat] := by
    have bound : c.val.toNat ≤ 127 := Nat.le_of_lt_succ small
    simp only [String.utf8EncodeChar, if_pos bound]
    rfl
  rw [utf8_cons, single, List.singleton_append]

theorem utf8EncodeChar_high {c : Char} (large : 128 ≤ c.toNat) :
    ∀ b ∈ String.utf8EncodeChar c, 128 ≤ b.toNat := by
  have above : ¬c.val.toNat ≤ 127 := by
    have same : c.val.toNat = c.toNat := rfl
    omega
  simp only [String.utf8EncodeChar, if_neg above]
  split_ifs
  all_goals
    simp only [List.forall_mem_cons, List.not_mem_nil, false_implies, implies_true, and_true, UInt8.toNat_ofNat']
    omega

/-- A byte that does not continue a character. -/
def startsChar (b : UInt8) : Bool := b < 128 || 192 ≤ b

/-- `str::is_char_boundary`, for what follows a position. -/
def onBoundary : List UInt8 → Bool
  | [] => true
  | b :: _ => startsChar b

theorem onBoundary_utf8 (t : List Char) : onBoundary (utf8 t) = true := by
  cases t with
  | nil => rfl
  | cons c rest =>
      have first : ∃ b more, String.utf8EncodeChar c = b :: more ∧ startsChar b = true := by
        simp only [String.utf8EncodeChar, startsChar, Bool.or_eq_true, decide_eq_true_eq, UInt8.lt_iff_toNat_lt,
          UInt8.le_iff_toNat_le]
        split_ifs
        all_goals
          refine ⟨_, _, rfl, ?_⟩
          simp only [UInt8.toNat_ofNat', UInt8.reduceToNat]
          omega
      obtain ⟨b, more, shape, starts⟩ := first
      rw [utf8_cons, shape]
      exact starts

end Auger.General
