import Auger.Convert
import Auger.General.Base64

set_option autoImplicit false

/-! The text of binary values, read back as base64. -/

namespace Auger

open General

namespace Base64Min

theorem sextet_letter (n : Nat) : Base64.sextet (letter n) = some (n % 64) := by
  have each : (List.range 64).all (fun k => Base64.sextet (alphabet.getD k 'A') == some k) = true := rfl
  have inside : n % 64 ∈ List.range 64 := List.mem_range.mpr (Nat.mod_lt n (by decide))
  exact beq_iff_eq.mp (List.all_eq_true.mp each (n % 64) inside)

theorem letter_standard (n : Nat) : (Base64.sextet (letter n)).isSome = true := by
  rw [sextet_letter]
  rfl

/-- The 24 bits of three bytes. -/
def packed (b0 b1 b2 : UInt8) : Nat := b0.toNat * 2 ^ 16 + b1.toNat * 2 ^ 8 + b2.toNat

theorem packed_lt (b0 b1 b2 : UInt8) : packed b0 b1 b2 < 2 ^ 24 := by
  have high := b0.toNat_lt
  have middle := b1.toNat_lt
  have low := b2.toNat_lt
  rw [packed]
  omega

theorem ofNat_of_mod {n : Nat} {b : UInt8} (same : n % 256 = b.toNat) : UInt8.ofNat n = b := by
  apply UInt8.toNat_inj.mp
  rw [UInt8.toNat_ofNat', same]

theorem packed_high (b0 b1 b2 : UInt8) : UInt8.ofNat (packed b0 b1 b2 / 2 ^ 16) = b0 := by
  have high := b0.toNat_lt
  have middle := b1.toNat_lt
  have low := b2.toNat_lt
  apply ofNat_of_mod
  rw [packed]
  omega

theorem packed_middle (b0 b1 b2 : UInt8) : UInt8.ofNat (packed b0 b1 b2 / 2 ^ 8) = b1 := by
  have middle := b1.toNat_lt
  have low := b2.toNat_lt
  apply ofNat_of_mod
  rw [packed]
  omega

theorem packed_low (b0 b1 b2 : UInt8) : UInt8.ofNat (packed b0 b1 b2) = b2 := by
  have low := b2.toNat_lt
  apply ofNat_of_mod
  rw [packed]
  omega

/-- The decoder undoes the encoder chunk by chunk. -/
theorem decode_encodeBytes (input : List UInt8) : Base64.decode (encodeBytes input) = some input := by
  fun_induction encodeBytes input with
  | case1 b0 b1 b2 rest ih =>
      have carried := Base64.decode_three (packed_lt b0 b1 b2) (sextet_letter _) (sextet_letter _) (sextet_letter _)
        (sextet_letter _) (encodeBytes rest)
      rw [ih, packed_high, packed_middle, packed_low] at carried
      exact carried
  | case2 b0 b1 =>
      have carried := Base64.decode_two (packed_lt b0 b1 0) (sextet_letter _) (sextet_letter _) (sextet_letter _)
        (by rw [packed, UInt8.toNat_zero]; omega)
      rw [packed_high, packed_middle] at carried
      exact carried
  | case3 b0 =>
      have carried := Base64.decode_one (packed_lt b0 0 0) (sextet_letter _) (sextet_letter _)
        (by rw [packed, UInt8.toNat_zero]; omega)
      rw [packed_high] at carried
      exact carried
  | case4 => rw [Base64.decode]

theorem encodeBytes_length (input : List UInt8) : (encodeBytes input).length = 4 * (input.length ⌈/⌉ 3) := by
  rw [Nat.ceilDiv_eq_add_pred_div]
  fun_induction encodeBytes input with
  | case1 b0 b1 b2 rest ih =>
      rw [List.length_append, ih]
      simp only [encodeChunk, List.length_cons, List.length_nil]
      omega
  | case2 b0 b1 => simp [encodeChunk]
  | case3 b0 => simp [encodeChunk]
  | case4 => rfl

theorem encodeBytes_padded (input : List UInt8) : Base64.Padded (encodeBytes input) := by
  fun_induction encodeBytes input with
  | case1 b0 b1 b2 rest ih =>
      obtain ⟨body, padding, few, split, standard⟩ := ih
      refine ⟨encodeChunk b0 (some b1) (some b2) ++ body, padding, few, ?_, ?_⟩
      · rw [split, List.append_assoc]
      · intro c inside
        rcases List.mem_append.mp inside with chunk | later
        · simp only [encodeChunk, Option.isSome_some, if_true, List.mem_cons, List.not_mem_nil, or_false] at chunk
          rcases chunk with rfl | rfl | rfl | rfl <;> exact letter_standard _
        · exact standard c later
  | case2 b0 b1 =>
      refine ⟨(encodeChunk b0 (some b1) none).take 3, 1, by decide, rfl, ?_⟩
      intro c inside
      simp only [encodeChunk, Option.isSome_some, if_true, List.take, List.mem_cons, List.not_mem_nil, or_false] at inside
      rcases inside with rfl | rfl | rfl <;> exact letter_standard _
  | case3 b0 =>
      refine ⟨(encodeChunk b0 none none).take 2, 2, by decide, rfl, ?_⟩
      intro c inside
      simp only [encodeChunk, List.take, List.mem_cons, List.not_mem_nil, or_false] at inside
      rcases inside with rfl | rfl <;> exact letter_standard _
  | case4 => exact ⟨[], 0, by decide, rfl, fun c inside => absurd inside List.not_mem_nil⟩

theorem encode_injective : Function.Injective encode := by
  intro left right same
  have texts : encodeBytes left = encodeBytes right := String.ofList_injective same
  apply Option.some_injective
  calc
    some left = Base64.decode (encodeBytes left) := (decode_encodeBytes left).symm
    _ = Base64.decode (encodeBytes right) := by rw [texts]
    _ = some right := decode_encodeBytes right

/-- The text has four characters for every three bytes begun, over the standard alphabet
with its padding at the end, and stands for its bytes alone. -/
theorem encode_invertible (input : List UInt8) :
    (encode input).length = 4 * (input.length ⌈/⌉ 3) ∧ Base64.Padded (encode input).toList ∧
      Base64.decode (encode input).toList = some input ∧ ∀ other, other ≠ input → encode other ≠ encode input := by
  refine ⟨?_, ?_, ?_, fun other differs => encode_injective.ne differs⟩
  · rw [encode, String.length_ofList]
    exact encodeBytes_length input
  · rw [encode, String.toList_ofList]
    exact encodeBytes_padded input
  · rw [encode, String.toList_ofList]
    exact decode_encodeBytes input

example : encode [102, 111, 111, 98, 97] = "Zm9vYmE=" := by decide

end Base64Min

/-- Two binary values are rendered alike exactly when their bytes agree, whatever their subtypes. -/
theorem renderText_binary_iff (text : BsonText) (subtype subtype' : UInt8) (bytes bytes' : List UInt8)
    (tag tag' : BsonTag) :
    renderText text (.binary subtype bytes) tag = renderText text (.binary subtype' bytes') tag' ↔ bytes = bytes' := by
  rw [renderText, renderText, Option.some.injEq]
  exact Base64Min.encode_injective.eq_iff

end Auger
