import Auger.Exactness
import Auger.Literals

set_option autoImplicit false

/-! Which literals a decimal column reads as the number they denote. -/

namespace Auger

open General DecimalText

theorem trim_solid {text : List Char} (solid : ∀ c ∈ text, isRustWhitespace c = false) : trim text = text := by
  have kept : ∀ {t : List Char}, (∀ c ∈ t, isRustWhitespace c = false) → t.dropWhile isRustWhitespace = t := by
    intro t solid
    cases t with
    | nil => rfl
    | cons c rest => rw [List.dropWhile_cons_of_neg (by simp [solid c (List.mem_cons_self ..)])]
  have backward : ∀ c ∈ text.reverse, isRustWhitespace c = false := fun c inside => solid c (List.mem_reverse.mp inside)
  rw [trim, kept solid, kept backward, List.reverse_reverse]

theorem digit_solid {c : Char} (digit : c.isDigit = true) : isRustWhitespace c = false := by
  simp only [Char.isDigit, Bool.and_eq_true, decide_eq_true_eq] at digit
  have low : 48 ≤ c.toNat := digit.1
  have high : c.toNat ≤ 57 := digit.2
  unfold isRustWhitespace
  simp only [Bool.or_eq_false_iff, Bool.and_eq_false_iff, decide_eq_false_iff_not, beq_eq_false_iff_ne]
  omega

theorem sign_solid (sign : Sign) : ∀ c ∈ sign.text, isRustWhitespace c = false := by
  cases sign with
  | absent => exact fun c inside => absurd inside List.not_mem_nil
  | _ =>
      intro c inside
      rw [List.mem_singleton.mp inside]
      rfl

theorem power_solid (power : Power) : ∀ c ∈ power.text, isRustWhitespace c = false := by
  intro c inside
  simp only [Power.text, List.mem_cons, List.mem_append] at inside
  rcases inside with rfl | signed | digit
  · rcases power.marks with mark | mark
    · rw [mark]
      rfl
    · rw [mark]
      rfl
  · exact sign_solid power.sign c signed
  · exact digit_solid (power.digits.2 c digit)

theorem layout_solid (layout : Layout) : ∀ c ∈ layout.text, isRustWhitespace c = false := by
  intro c inside
  simp only [Layout.text, Layout.pointText, Layout.powerText, List.mem_append] at inside
  rcases inside with (signed | digit | point) | power
  · exact sign_solid layout.sign c signed
  · exact digit_solid (layout.whole.2 c digit)
  · cases present : layout.fraction with
    | none => simp [present] at point
    | some digits =>
        simp only [present, Option.map_some, Option.getD_some, List.mem_cons] at point
        rcases point with rfl | digit
        · rfl
        · exact digit_solid (digits.2 c digit)
  · cases present : layout.power with
    | none => simp [present] at power
    | some written =>
        rw [present] at power
        exact power_solid written c power

theorem body_layout (layout : Layout) : body (String.ofList layout.text) = layout.text := by
  rw [body, String.toList_ofList, trim_solid (layout_solid layout)]

/-- How far the point of a literal moves at a scale. -/
def distance (layout : Layout) (scale : Int) : Int := scale + layout.exponent - layout.places.length

/-- An `i32` with the same bits. -/
def wrapI32 (v : Int) : Int := v.bmod (2 ^ 32)

theorem shift_layout {source : String} {layout : Layout} (written : body source = layout.text) (scale : Int) :
    shift source scale (Int32.ofInt layout.exponent) = wrapI32 (distance layout scale) := by
  have together : Int32.ofInt scale + Int32.ofInt layout.exponent - Int32.ofNat layout.places.length =
      Int32.ofInt (distance layout scale) := by
    rw [distance, Int32.ofInt_sub, Int32.ofInt_add]
    rfl
  rw [shift, fraction_layout written, together, Int32.toInt_ofInt]
  rfl

/-- A distance that wraps back to a short one was far to the left. -/
theorem far_of_wrapped {places : Int} (bounded : places < 2 ^ 31 + 38) (wrapped : wrapI32 places ≠ places)
    (near : -38 ≤ wrapI32 places ∧ wrapI32 places ≤ 38) : places ≤ -39 := by
  have turns := Int.bmod_add_bdiv places (2 ^ 32)
  rw [← wrapI32] at turns
  omega

theorem movePoint_far {coefficient : Nat} (small : coefficient < 2 ^ 127) {places : Int} (far : places ≤ -39) :
    movePoint coefficient places = 0 := by
  rw [movePoint_eq_zero]
  calc
    coefficient < 10 ^ 39 := lt_trans small (by norm_num)
    _ ≤ 10 ^ (-places).toNat := Nat.pow_le_pow_right (by decide) (by omega)

/-- The parser's acceptance of a coefficient moved by a wrapped distance. -/
def Accepts (coefficient : Nat) (places : Int) : Prop :=
  coefficient < 2 ^ 127 ∧ -38 ≤ wrapI32 places ∧ wrapI32 places ≤ 38 ∧
    coefficient * 10 ^ (wrapI32 places).toNat < 2 ^ 127

instance (coefficient : Nat) (places : Int) : Decidable (Accepts coefficient places) :=
  inferInstanceAs (Decidable (_ ∧ _ ∧ _ ∧ _))

theorem Accepts.fits {coefficient : Nat} {places : Int} (accepted : Accepts coefficient places) :
    movePoint coefficient (wrapI32 places) < 2 ^ 127 := by
  obtain ⟨small, -, -, moved⟩ := accepted
  rcases le_total 0 (wrapI32 places) with right | left
  · rw [movePoint_right right]
    exact moved
  · exact lt_of_le_of_lt (movePoint_le left coefficient) small

/-- The coefficient fits, the point moves at most 38 places, and where the distance wrapped
neither it nor the one meant leaves anything of the coefficient. -/
def Kept (coefficient : Nat) (places : Int) : Prop :=
  coefficient < 2 ^ 127 ∧ -38 ≤ wrapI32 places ∧ wrapI32 places ≤ 38 ∧
    (wrapI32 places = places ∨ coefficient < 10 ^ (-wrapI32 places).toNat)

theorem Kept.accepts {coefficient : Nat} {places : Int} (bounded : places < 2 ^ 31 + 38)
    (fits : movePoint coefficient places < 2 ^ 127) (kept : Kept coefficient places) :
    Accepts coefficient places ∧ movePoint coefficient (wrapI32 places) = movePoint coefficient places := by
  obtain ⟨small, low, high, exact_or_nothing⟩ := kept
  have same : movePoint coefficient (wrapI32 places) = movePoint coefficient places := by
    by_cases wrapped : wrapI32 places = places
    · rw [wrapped]
    · have nothing := exact_or_nothing.resolve_left wrapped
      rw [movePoint_far small (far_of_wrapped bounded wrapped ⟨low, high⟩), movePoint_eq_zero]
      exact nothing
  refine ⟨⟨small, low, high, ?_⟩, same⟩
  rcases le_total 0 (wrapI32 places) with right | left
  · rw [← movePoint_right right, same]
    exact fits
  · have still : (wrapI32 places).toNat = 0 := by omega
    rw [still, Nat.pow_zero, Nat.mul_one]
    exact small

theorem Accepts.kept {coefficient : Nat} {places : Int} (bounded : places < 2 ^ 31 + 38)
    (accepted : Accepts coefficient places)
    (same : movePoint coefficient (wrapI32 places) = movePoint coefficient places) : Kept coefficient places := by
  obtain ⟨small, low, high, -⟩ := accepted
  refine ⟨small, low, high, ?_⟩
  by_cases wrapped : wrapI32 places = places
  · exact .inl wrapped
  · right
    rw [← movePoint_eq_zero, same]
    exact movePoint_far small (far_of_wrapped bounded wrapped ⟨low, high⟩)

theorem not_accepts_large {coefficient : Nat} {places : Int} (bounded : places < 2 ^ 31 + 38)
    (large : 2 ^ 127 ≤ movePoint coefficient places) : ¬Accepts coefficient places := by
  intro accepted
  have fits := accepted.fits
  obtain ⟨small, low, high, -⟩ := accepted
  by_cases wrapped : wrapI32 places = places
  · rw [wrapped] at fits
    omega
  · rw [movePoint_far small (far_of_wrapped bounded wrapped ⟨low, high⟩)] at large
    exact absurd large (by decide)

noncomputable def truncatedAt (layout : Layout) (scale : Int) : Option Int :=
  let t := towardZero (layout.value * 10 ^ scale)
  if t.natAbs < 2 ^ 127 then some t else none

theorem natAbs_truncated (layout : Layout) (scale : Int) :
    (towardZero (layout.value * 10 ^ scale)).natAbs = movePoint layout.coefficient (distance layout scale) := by
  rw [Layout.truncated, Sign.natAbs_apply, distance]

theorem truncatedAt_eq (layout : Layout) (scale : Int) :
    truncatedAt layout scale =
      if movePoint layout.coefficient (distance layout scale) < 2 ^ 127 then
        some (layout.sign.apply (movePoint layout.coefficient (distance layout scale) : Int)) else none := by
  rw [truncatedAt, natAbs_truncated, Layout.truncated, distance]

theorem numeral_text (numeral : Numeral) : numeral.1.text ≠ [] := by
  intro blank
  simp only [Layout.text, List.append_eq_nil_iff] at blank
  apply numeral.2
  obtain ⟨⟨-, noDigits, noPoint⟩, -⟩ := blank
  have noPlaces : numeral.1.places = [] := by
    rw [Layout.pointText] at noPoint
    rw [Layout.places]
    cases present : numeral.1.fraction with
    | none => rfl
    | some digits => simp [present] at noPoint
  rw [noDigits, noPlaces]
  rfl

section
variable (numeral : Numeral) (scale : Int)

theorem parseDecimal_numeral {source : String} (written : body source = numeral.1.text)
    (range : -2 ^ 31 ≤ numeral.1.exponent ∧ numeral.1.exponent < 2 ^ 31) :
    parseDecimal source scale =
      if Accepts numeral.1.coefficient (distance numeral.1 scale) then
        some (numeral.1.sign.apply (movePoint numeral.1.coefficient (wrapI32 (distance numeral.1 scale)) : Int))
      else none := by
  have read := exponent_layout written
  rw [if_pos range] at read
  have accepts : (numeral.1.text ≠ [] ∧ numeral.1.coefficient < 2 ^ 127 ∧
      MovedBy source scale (Int32.ofInt numeral.1.exponent)) ↔
      Accepts numeral.1.coefficient (distance numeral.1 scale) := by
    rw [MovedBy, shift_layout written, coefficient_layout written]
    exact and_iff_right (numeral_text numeral)
  rw [parseDecimal_layout written read, shift_layout written]
  simp only [accepts]

/-- A literal is read as its truncated value exactly when that does not fit an `i128`, or
its digits and the places its point moves do. -/
theorem parseDecimal_truncates_iff (low : 0 ≤ scale) (high : scale ≤ 38)
    (range : -2 ^ 31 ≤ numeral.1.exponent ∧ numeral.1.exponent < 2 ^ 31) :
    parseDecimal (String.ofList numeral.1.text) scale = truncatedAt numeral.1 scale ↔
      2 ^ 127 ≤ (towardZero (numeral.1.value * 10 ^ scale)).natAbs ∨
        Kept numeral.1.coefficient (distance numeral.1 scale) := by
  have bounded : distance numeral.1 scale < 2 ^ 31 + 38 := by
    rw [distance]
    omega
  rw [parseDecimal_numeral numeral scale (body_layout numeral.1) range, truncatedAt_eq, natAbs_truncated]
  by_cases large : 2 ^ 127 ≤ movePoint numeral.1.coefficient (distance numeral.1 scale)
  · rw [if_neg (not_accepts_large bounded large), if_neg (not_lt.mpr large)]
    exact iff_of_true rfl (.inl large)
  · have fits := not_le.mp large
    rw [if_pos fits]
    constructor
    · intro same
      split_ifs at same with accepted
      have moved := Sign.apply_injective _ (Option.some.inj same)
      exact .inr (accepted.kept bounded (Int.ofNat.inj moved))
    · intro condition
      obtain ⟨accepted, same⟩ := (condition.resolve_left large).accepts bounded fits
      rw [if_pos accepted, same]

end

def sixty : Power := ⟨'e', .inl rfl, .minus, ⟨['6', '0'], by simp⟩, by simp⟩

def tiny : Numeral := ⟨⟨.absent, ⟨['1'], by simp⟩, none, some sixty⟩, by simp [Layout.Written]⟩

def price : Numeral :=
  ⟨⟨.minus, ⟨['1', '2'], by simp⟩, some ⟨['3', '4', '5'], by simp⟩, none⟩, by simp [Layout.Written]⟩

theorem parseDecimal_truncates_iff_price : parseDecimal "-12.345" 2 = truncatedAt price.1 2 :=
  (parseDecimal_truncates_iff price 2 (by decide) (by decide) (by decide)).mpr
    (.inr ⟨by decide, by decide, by decide, .inl (by decide)⟩)

theorem parseDecimal_loses : ¬∀ (numeral : Numeral) (scale : Int), 0 ≤ scale → scale ≤ 38 →
    -2 ^ 31 ≤ numeral.1.exponent ∧ numeral.1.exponent < 2 ^ 31 →
      parseDecimal (String.ofList numeral.1.text) scale = truncatedAt numeral.1 scale := by
  intro holds
  have same := holds tiny 10 (by decide) (by decide) (by decide)
  have lost : parseDecimal (String.ofList tiny.1.text) 10 = none := by decide
  have zero : movePoint tiny.1.coefficient (distance tiny.1 10) = 0 := by decide
  rw [lost, truncatedAt_eq, zero, if_pos (by decide)] at same
  cases same

/-- A text that is not a decimal literal. -/
def NotNumeral (text : List Char) : Prop := ∀ numeral : Numeral, text ≠ numeral.1.text

/-- A sign, a point or an exponent without a digit before it, the exponent near the scale. -/
def Digitless (text : List Char) (scale : Int) : Prop :=
  ∃ layout : Layout, text = layout.text ∧ text ≠ [] ∧ ¬layout.Written ∧
    -38 ≤ scale + layout.exponent ∧ scale + layout.exponent ≤ 38

theorem wrapI32_near {v : Int} (low : -2 ^ 31 ≤ v) (high : v < 2 ^ 31) : wrapI32 v = v := by
  apply Int.bmod_eq_of_le <;> omega

theorem digitless_parts {layout : Layout} (blank : ¬layout.Written) (scale : Int) :
    layout.coefficient = 0 ∧ distance layout scale = scale + layout.exponent := by
  have nothing : layout.whole.1 ++ layout.places = [] := not_not.mp blank
  refine ⟨?_, ?_⟩
  · rw [Layout.coefficient, nothing]
    rfl
  · rw [distance, (List.append_eq_nil_iff.mp nothing).2]
    simp

theorem digitless_read {source : String} {scale : Int8} (digitless : Digitless (body source) scale.toInt) :
    parseDecimal source scale.toInt = some 0 := by
  obtain ⟨layout, written, present, blank, low, high⟩ := digitless
  have least := scale.le_toInt
  have most := scale.toInt_lt
  have read := exponent_layout written
  rw [if_pos (by omega)] at read
  obtain ⟨zero, moved⟩ := digitless_parts blank scale.toInt
  have shifted : shift source scale.toInt (Int32.ofInt layout.exponent) = scale.toInt + layout.exponent := by
    rw [shift_layout written, moved, wrapI32_near (by omega) (by omega)]
  have accepted : layout.text ≠ [] ∧ layout.coefficient < 2 ^ 127 ∧
      MovedBy source scale.toInt (Int32.ofInt layout.exponent) := by
    refine ⟨written ▸ present, ?_, ?_⟩
    · rw [zero]
      decide
    · rw [MovedBy, shifted, coefficient_layout written, zero, Nat.zero_mul]
      exact ⟨low, high, by decide⟩
  rw [parseDecimal_layout written read, if_pos accepted, zero]
  have nothing : ∀ places, movePoint 0 places = 0 :=
    fun places => (movePoint_eq_zero 0).mpr (Nat.pow_pos (by decide))
  rw [nothing]
  cases layout.sign <;> rfl

theorem digitless_of_read {source : String} {scale : Int8} (foreign : NotNumeral (body source))
    (read : (parseDecimal source scale.toInt).isSome = true) : Digitless (body source) scale.toInt := by
  have fits := (parseDecimal_isSome source scale.toInt).mp read
  obtain ⟨e, exponent_read, low, high, -⟩ := fits.moved
  obtain ⟨layout, written⟩ := exists_layout fits.digits exponent_read
  have blank : ¬layout.Written := fun digit => foreign ⟨layout, digit⟩ written
  have least := scale.le_toInt
  have most := scale.toInt_lt
  have same := exponent_layout written
  rw [exponent_read] at same
  split_ifs at same with range
  rw [Option.some.inj same, shift_layout written, (digitless_parts blank scale.toInt).2] at low high
  have turns := Int.bmod_add_bdiv (scale.toInt + layout.exponent) (2 ^ 32)
  rw [← wrapI32] at turns
  exact ⟨layout, written, fits.written, blank, by omega, by omega⟩

/-- A text that is no literal is read as NULL unless it is one without its digits. -/
theorem parseDecimal_refuses_iff (text : BsonText) (source : String) (scale : Int8)
    (foreign : NotNumeral (trim source.toList)) :
    (parseDecimal source scale.toInt = none ∧ asDecimal text scale.toInt (some (.string source)) = none) ↔
      ¬Digitless (trim source.toList) scale.toInt := by
  have stored : asDecimal text scale.toInt (some (.string source)) = parseDecimal source scale.toInt := rfl
  rw [stored, and_self]
  constructor
  · intro refused digitless
    rw [digitless_read digitless] at refused
    cases refused
  · intro other
    exact Option.not_isSome_iff_eq_none.mp fun read => other (digitless_of_read foreign read)

theorem not_laid_out (source : String) {c : Char} (inside : c ∈ whole source ++ fraction source)
    (letter : c.isDigit = false) (layout : Layout) : body source ≠ layout.text := by
  intro written
  rw [digits_layout written c inside] at letter
  cases letter

theorem notNumeral_of_blank {source : String} (blank : whole source ++ fraction source = []) :
    NotNumeral (body source) := by
  intro numeral written
  rw [whole_layout written, fraction_layout written] at blank
  exact numeral.2 blank

theorem parseDecimal_refuses_iff_comma : parseDecimal "12,50" 2 = none := by
  have foreign : ∀ layout : Layout, body "12,50" ≠ layout.text :=
    not_laid_out "12,50" (c := ',') (by decide) rfl
  have refused := (parseDecimal_refuses_iff plainText "12,50" 2 fun numeral => foreign numeral.1).mpr
    fun digitless => foreign digitless.choose digitless.choose_spec.1
  exact refused.1

theorem parseDecimal_reads_point : ¬∀ (text : BsonText) (source : String) (scale : Int8),
    NotNumeral (trim source.toList) →
      parseDecimal source scale.toInt = none ∧ asDecimal text scale.toInt (some (.string source)) = none := by
  intro holds
  have refused := (holds plainText "." 10 (notNumeral_of_blank rfl)).1
  have read : parseDecimal "." (10 : Int8).toInt = some 0 := by decide
  rw [read] at refused
  cases refused

end Auger
