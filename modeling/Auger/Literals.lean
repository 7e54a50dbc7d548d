import Auger.DecimalText
import Auger.General.Numeral

set_option autoImplicit false

/-! How the parts a decimal text is split into are those it was written from. -/

namespace Auger

open General

namespace DecimalText

theorem digit_ne {c d : Char} (digit : c.isDigit = true) (other : d.isDigit = false) : c ≠ d := by
  rintro rfl
  rw [digit] at other
  cases other

section
variable {source : String} {layout : Layout}

theorem sign_unmarked (sign : Sign) : ∀ c ∈ sign.text, (c != 'e' && c != 'E') = true := by
  cases sign with
  | absent => exact fun c inside => absurd inside (List.not_mem_nil)
  | _ => simp [Sign.text]

theorem digits_unmarked (digits : Digits) : ∀ c ∈ digits.1, (c != 'e' && c != 'E') = true := by
  intro c inside
  have digit := digits.2 c inside
  simp [digit_ne digit (d := 'e') rfl, digit_ne digit (d := 'E') rfl]

theorem point_unmarked (layout : Layout) : ∀ c ∈ layout.pointText, (c != 'e' && c != 'E') = true := by
  intro c inside
  unfold Layout.pointText at inside
  cases present : layout.fraction with
  | none => simp [present] at inside
  | some digits =>
      simp only [present, Option.map_some, Option.getD_some, List.mem_cons] at inside
      rcases inside with rfl | inside
      · rfl
      · exact digits_unmarked digits c inside

theorem front_unmarked (layout : Layout) :
    ∀ c ∈ layout.sign.text ++ (layout.whole.1 ++ layout.pointText), (c != 'e' && c != 'E') = true := by
  intro c inside
  rcases List.mem_append.mp inside with inside | inside
  · exact sign_unmarked layout.sign c inside
  · rcases List.mem_append.mp inside with inside | inside
    · exact digits_unmarked layout.whole c inside
    · exact point_unmarked layout c inside

theorem mantissa_layout (written : body source = layout.text) :
    mantissa source = layout.sign.text ++ (layout.whole.1 ++ layout.pointText) := by
  rw [mantissa, written, Layout.text, List.takeWhile_append_of_pos (front_unmarked layout), Layout.powerText]
  cases layout.power with
  | none => simp
  | some power =>
      rcases power.marks with mark | mark
      · simp [Power.text, mark]
      · simp [Power.text, mark]

theorem splitSign_text (sign : Sign) {text : List Char} (plain : text.head? ≠ some '-' ∧ text.head? ≠ some '+') :
    F64.splitSign (sign.text ++ text) = (decide (sign = .minus), text) := by
  cases sign with
  | absent =>
      rw [Sign.text, List.nil_append]
      unfold F64.splitSign
      split
      · exact absurd rfl plain.1
      · exact absurd rfl plain.2
      · rfl
  | _ => rfl

theorem digits_plain (digits : Digits) : digits.1.head? ≠ some '-' ∧ digits.1.head? ≠ some '+' := by
  have digit : ∀ c, digits.1.head? = some c → c.isDigit = true :=
    fun c first => digits.2 c (List.mem_of_mem_head? first)
  exact ⟨fun first => absurd (digit '-' first) (by decide), fun first => absurd (digit '+' first) (by decide)⟩

theorem front_plain (layout : Layout) : (layout.whole.1 ++ layout.pointText).head? ≠ some '-' ∧
    (layout.whole.1 ++ layout.pointText).head? ≠ some '+' := by
  cases text : layout.whole.1 with
  | nil =>
      rw [List.nil_append, Layout.pointText]
      cases layout.fraction with
      | none => simp
      | some digits => simp
  | cons c rest =>
      have plain := digits_plain layout.whole
      rw [text] at plain
      exact plain

theorem splitSign_layout (written : body source = layout.text) :
    F64.splitSign (mantissa source) = (decide (layout.sign = .minus), layout.whole.1 ++ layout.pointText) := by
  rw [mantissa_layout written, splitSign_text layout.sign (front_plain layout)]

theorem unsigned_layout (written : body source = layout.text) :
    unsigned source = layout.whole.1 ++ layout.pointText := by
  rw [unsigned, splitSign_layout written]

theorem digits_pointless (digits : Digits) : ∀ c ∈ digits.1, (c != '.') = true := by
  intro c inside
  simp [digit_ne (digits.2 c inside) (d := '.') rfl]

theorem whole_layout (written : body source = layout.text) : whole source = layout.whole.1 := by
  rw [whole, unsigned_layout written, List.takeWhile_append_of_pos (digits_pointless layout.whole), Layout.pointText]
  cases layout.fraction with
  | none => simp
  | some digits => simp

theorem fraction_layout (written : body source = layout.text) : fraction source = layout.places := by
  rw [fraction, unsigned_layout written, List.dropWhile_append_of_pos (digits_pointless layout.whole),
    Layout.pointText, Layout.places]
  cases layout.fraction with
  | none => simp
  | some digits => simp

theorem digits_layout (written : body source = layout.text) :
    ∀ c ∈ whole source ++ fraction source, c.isDigit = true := by
  rw [whole_layout written, fraction_layout written, Layout.places]
  intro c inside
  rcases List.mem_append.mp inside with inside | inside
  · exact layout.whole.2 c inside
  · cases present : layout.fraction with
    | none => simp [present] at inside
    | some digits =>
        rw [present] at inside
        exact digits.2 c inside

theorem coefficient_layout (written : body source = layout.text) : coefficient source = layout.coefficient := by
  rw [coefficient, whole_layout written, fraction_layout written]
  rfl

theorem parseExponent_layout (power : Power) :
    F64.parseExponent (power.sign.text ++ power.digits.1) = some power.value := by
  have digits : power.digits.1.all Char.isDigit = true := List.all_eq_true.mpr power.digits.2
  have present : power.digits.1.isEmpty = false := by simpa using power.written
  simp only [F64.parseExponent, splitSign_text power.sign (digits_plain power.digits), present, digits,
    Bool.not_true, Bool.or_self, Bool.false_eq_true, if_false, Power.value]
  cases power.sign <;> rfl

theorem exponent_layout (written : body source = layout.text) :
    exponent source = if -2 ^ 31 ≤ layout.exponent ∧ layout.exponent < 2 ^ 31 then
      some (Int32.ofInt layout.exponent) else none := by
  have rest : (body source).dropWhile (fun c => c != 'e' && c != 'E') = layout.powerText := by
    rw [written, Layout.text, List.dropWhile_append_of_pos (front_unmarked layout), Layout.powerText]
    cases layout.power with
    | none => simp
    | some power =>
        rcases power.marks with mark | mark
        · simp [Power.text, mark]
        · simp [Power.text, mark]
  rw [exponent, rest, Layout.powerText, Layout.exponent]
  cases layout.power with
  | none => rfl
  | some power =>
      simp only [Option.map_some, Option.getD_some, Power.text, parseI32, parseExponent_layout, Option.bind_some]

end

theorem splitSign_writes (text : List Char) : ∃ sign : Sign, sign.text ++ (F64.splitSign text).2 = text := by
  unfold F64.splitSign
  split
  · exact ⟨.minus, rfl⟩
  · exact ⟨.plus, rfl⟩
  · exact ⟨.absent, rfl⟩

theorem parseI32_writes {text : List Char} {e : Int32} (read : parseI32 text = some e) :
    ∃ (sign : Sign) (digits : Digits), digits.1 ≠ [] ∧ sign.text ++ digits.1 = text := by
  obtain ⟨v, parsed, -⟩ := Option.bind_eq_some_iff.mp read
  obtain ⟨sign, same⟩ := splitSign_writes text
  have accepted : ¬((F64.splitSign text).2.isEmpty || !(F64.splitSign text).2.all Char.isDigit) = true := by
    intro refused
    simp only [F64.parseExponent] at parsed
    rw [if_pos refused] at parsed
    cases parsed
  simp only [Bool.or_eq_true, Bool.not_eq_true', not_or, Bool.not_eq_false, List.isEmpty_iff] at accepted
  exact ⟨sign, ⟨(F64.splitSign text).2, List.all_eq_true.mp accepted.2⟩, accepted.1, same⟩

theorem exists_layout {source : String} (digits : ∀ c ∈ whole source ++ fraction source, c.isDigit = true)
    {e : Int32} (read : exponent source = some e) : ∃ layout : Layout, body source = layout.text := by
  obtain ⟨wholeDigits, places⟩ := List.forall_mem_append.mp digits
  obtain ⟨sign, signed⟩ := splitSign_writes (mantissa source)
  have fraction_written : ∃ fraction : Option Digits,
      whole source ++ ((fraction.map fun digits => '.' :: digits.1).getD []) = unsigned source := by
    have split := List.takeWhile_append_dropWhile (p := (· != '.')) (l := unsigned source)
    cases rest : (unsigned source).dropWhile (· != '.') with
    | nil =>
        refine ⟨none, ?_⟩
        rw [rest] at split
        exact split
    | cons c after =>
        have point : c = '.' := by
          have head := List.head?_dropWhile_not (· != '.') (unsigned source)
          rw [rest] at head
          simpa using head
        have places_eq : fraction source = after := by rw [fraction, rest]; rfl
        rw [places_eq] at places
        refine ⟨some ⟨after, places⟩, ?_⟩
        rw [rest, point] at split
        exact split
  have power_written : ∃ power : Option Power,
      (power.map Power.text).getD [] = (body source).dropWhile fun c => c != 'e' && c != 'E' := by
    rw [exponent] at read
    cases rest : (body source).dropWhile fun c => c != 'e' && c != 'E' with
    | nil => exact ⟨none, rfl⟩
    | cons c after =>
        have mark : c = 'e' ∨ c = 'E' := by
          have head := List.head?_dropWhile_not (fun c => c != 'e' && c != 'E') (body source)
          rw [rest] at head
          simpa [imp_iff_not_or, or_comm] using head
        rw [rest] at read
        obtain ⟨sign, digits, written, same⟩ := parseI32_writes read
        refine ⟨some ⟨c, mark, sign, digits, written⟩, ?_⟩
        rw [← same]
        rfl
  obtain ⟨fraction, points⟩ := fraction_written
  obtain ⟨power, powers⟩ := power_written
  refine ⟨⟨sign, ⟨whole source, wholeDigits⟩, fraction, power⟩, ?_⟩
  rw [Layout.text, Layout.pointText, Layout.powerText, points, powers]
  have front : sign.text ++ unsigned source = mantissa source := signed
  rw [front, mantissa, List.takeWhile_append_dropWhile]

end DecimalText

theorem shifted_value {shift : Int32} {n : Nat} {v : Int} (moved : shifted shift n = some v) :
    v = movePoint n shift.toInt := by
  rw [shifted] at moved
  split_ifs at moved with right
  · obtain ⟨factor, power, product⟩ := Option.bind_eq_some_iff.mp moved
    rw [toU32, if_pos right, Option.bind_some, checkedPow10] at power
    split_ifs at power
    rw [inI128] at product
    split_ifs at product
    rw [← Option.some.inj product, ← Option.some.inj power, movePoint_right right]
    push_cast
    rfl
  · have left : shift.toInt ≤ 0 := by omega
    obtain ⟨factor, power, rfl⟩ := Option.map_eq_some_iff.mp moved
    rw [toU32, toInt_neg_i32] at power
    by_cases least : shift.toInt = -2 ^ 31
    · rw [if_pos least] at power
      cases power
    · rw [if_neg least, if_pos (by omega), Option.bind_some, checkedPow10] at power
      split_ifs at power
      rw [← Option.some.inj power, movePoint_left left, Int.tdiv_eq_ediv_of_nonneg (by omega)]
      push_cast
      rfl

open DecimalText

theorem scaledNumeral_value {source : String} {scale : Int} {e : Int32} {v : Int}
    (digits : ∀ c ∈ whole source ++ fraction source, c.isDigit = true)
    (read : scaledNumeral source scale e = some v) :
    v = if (F64.splitSign (mantissa source)).1 then -(movePoint (coefficient source) (shift source scale e) : Int)
      else movePoint (coefficient source) (shift source scale e) := by
  have word : ¬(F64.asciiLower (unsigned source) == "infinity".toList ||
      F64.asciiLower (unsigned source) == "inf".toList) = true := by
    intro word
    rw [scaledNumeral, if_pos word] at read
    cases read
  have accepted : ¬(!(whole source).all Char.isDigit || !(fraction source).all Char.isDigit) = true := by
    have parts := List.forall_mem_append.mp digits
    simp [List.all_eq_true.mpr parts.1, List.all_eq_true.mpr parts.2]
  rw [scaledNumeral, if_neg word, if_neg accepted] at read
  obtain ⟨value, accumulated, moved⟩ := Option.bind_eq_some_iff.mp read
  obtain ⟨magnitude, shifted, signed⟩ := Option.map_eq_some_iff.mp moved
  have coefficient_read : value = (coefficient source : Nat) := by
    have fits := accumulateDigits_eq digits (show 0 < 2 ^ 127 by decide)
    rw [show ((0 : Nat) : Int) = 0 from rfl, accumulated, inI128_nat] at fits
    split_ifs at fits
    exact Option.some.inj fits
  rw [coefficient_read] at shifted
  rw [← signed, shifted_value shifted]
  rfl

instance (source : String) (scale : Int) (e : Int32) : Decidable (MovedBy source scale e) :=
  inferInstanceAs (Decidable (_ ∧ _ ∧ _))

/-- A decimal text laid out with an exponent in range: what it is read as. -/
theorem parseDecimal_layout {source : String} {layout : Layout} (written : body source = layout.text)
    {e : Int32} (read : exponent source = some e) (scale : Int) :
    parseDecimal source scale =
      if layout.text ≠ [] ∧ layout.coefficient < 2 ^ 127 ∧ MovedBy source scale e then
        some (layout.sign.apply (movePoint layout.coefficient (shift source scale e) : Int)) else none := by
  have digits := digits_layout written
  have present := parseDecimal_isSome source scale
  have fits : Fits source scale ↔ layout.text ≠ [] ∧ layout.coefficient < 2 ^ 127 ∧ MovedBy source scale e := by
    constructor
    · intro fits
      obtain ⟨other, same, moved⟩ := fits.moved
      rw [read] at same
      cases same
      exact ⟨written ▸ fits.written, coefficient_layout written ▸ fits.small, moved⟩
    · rintro ⟨text, small, moved⟩
      exact ⟨written ▸ text, digits, coefficient_layout written ▸ small, e, read, moved⟩
  rw [fits] at present
  split_ifs with accepted
  · obtain ⟨v, value⟩ := Option.isSome_iff_exists.mp (present.mpr accepted)
    have parts := parseDecimal_parts source scale
    rw [value] at parts
    split_ifs at parts
    rw [read, Option.bind_some] at parts
    rw [value, scaledNumeral_value digits parts.symm, splitSign_layout written, coefficient_layout written]
    cases layout.sign <;> rfl
  · exact Option.not_isSome_iff_eq_none.mp fun some => accepted (present.mp some)

end Auger
