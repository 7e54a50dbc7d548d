import Auger.Exactness
import Auger.General.Positional

set_option autoImplicit false

/-! Object ids and their hexadecimal texts: the order of the ids is the order of the
texts they render as, whatever a literal was spelled like. -/

namespace Auger

open General

theorem textBytes_ofList (l : List Char) :
    textBytes (String.ofList l) = l.flatMap fun c => (String.utf8EncodeChar c).map UInt8.toNat := by
  simp only [textBytes, String.toUTF8_eq_toByteArray, String.toByteArray_ofList, List.utf8Encode,
    List.toList_data_toByteArray, List.map_flatMap]

theorem textBytes_injective {s t : String} (same : textBytes s = textBytes t) : s = t := by
  have bytes : s.toUTF8.data.toList = t.toUTF8.data.toList :=
    List.map_injective_iff.mpr (fun _ _ => UInt8.toNat_inj.mp) same
  rw [String.toUTF8_eq_toByteArray, String.toUTF8_eq_toByteArray] at bytes
  exact String.toByteArray_inj.mp (ByteArray.ext (Array.toList_inj.mp bytes))

theorem eq_of_cmp {a b : List Nat} (equal : cmp a b = .eq) : a = b := by
  rcases lt_trichotomy a b with below | same | above
  · simp [cmp, cmpUsing, below] at equal
  · exact same
  · simp [cmp, cmpUsing, above, above.not_gt] at equal

namespace ObjectId

def hexText (numeral : List Nat) : String := String.ofList (numeral.map hexDigit)

theorem toHex_digits (id : ObjectId) : id.toHex = hexText (Positional.digits 16 24 id.value.toNat) := rfl

theorem value_lt (id : ObjectId) : id.value.toNat < 16 ^ 24 := id.value.isLt

theorem hexDigit_lower : ∀ n < 16, ¬('A' ≤ hexDigit n ∧ hexDigit n ≤ 'F') := by decide

theorem hexDigit_bytes : ∀ n < 16,
    (String.utf8EncodeChar (hexDigit n)).map UInt8.toNat = [(hexDigit n).toNat] := by decide

theorem hexDigit_mono : ∀ n < 16, ∀ m < n, (hexDigit m).toNat < (hexDigit n).toNat := by decide

theorem hexDigit_hexValue {c : Char} {n : Nat} (digit : hexValue c = some n)
    (lower : ¬('A' ≤ c ∧ c ≤ 'F')) : hexDigit n = c := by
  have decimal : ∀ m, 48 ≤ m → m ≤ 57 → hexDigit (m - 48) = Char.ofNat m := by
    intro m low high
    interval_cases m <;> rfl
  have letter : ∀ m, 97 ≤ m → m ≤ 102 → hexDigit (m - 97 + 10) = Char.ofNat m := by
    intro m low high
    interval_cases m <;> rfl
  unfold hexValue at digit
  rw [if_neg lower] at digit
  split_ifs at digit with isDecimal isLetter
  · rw [← Option.some.inj digit]
    exact (decimal c.toNat isDecimal.1 isDecimal.2).trans (Char.ofNat_toNat c)
  · rw [← Option.some.inj digit]
    exact (letter c.toNat isLetter.1 isLetter.2).trans (Char.ofNat_toNat c)

theorem hexValue_lt {c : Char} {n : Nat} (digit : hexValue c = some n) : n < 16 := by
  unfold hexValue at digit
  split_ifs at digit with decimal lower upper
  · have high : c.toNat ≤ 57 := decimal.2
    have value := Option.some.inj digit
    have zero : '0'.toNat = 48 := rfl
    omega
  · have high : c.toNat ≤ 102 := lower.2
    have value := Option.some.inj digit
    have a : 'a'.toNat = 97 := rfl
    omega
  · have high : c.toNat ≤ 70 := upper.2
    have value := Option.some.inj digit
    have a : 'A'.toNat = 65 := rfl
    omega

theorem numeral_lt {text : List Char} {numeral : List Nat}
    (read : List.Forall₂ (fun c d => hexValue c = some d) text numeral) : ∀ d ∈ numeral, d < 16 := by
  induction read with
  | nil => simp
  | cons digit _ ih =>
      intro d member
      rcases List.mem_cons.mp member with rfl | later
      · exact hexValue_lt digit
      · exact ih d later

theorem parse_digits {s : String} {id : ObjectId} (parsed : parse s = some id) :
    s.toList.length = 24 ∧ List.Forall₂ (fun c d => hexValue c = some d) s.toList
      (Positional.digits 16 24 id.value.toNat) := by
  unfold parse at parsed
  split_ifs at parsed with length
  simp only [Option.bind_eq_bind, Option.bind_eq_some_iff, Option.some.injEq] at parsed
  obtain ⟨numeral, mapped, rfl⟩ := parsed
  have read := mapM_forall₂ mapped
  have small := numeral_lt read
  have digits : numeral.length = 24 := read.length_eq.symm.trans length
  have fits : Positional.value 16 0 numeral < 2 ^ 96 := by
    have below := Positional.value_lt small
    rwa [digits] at below
  have whole : (BitVec.ofNat 96 (Positional.value 16 0 numeral)).toNat = Positional.value 16 0 numeral := by
    rw [BitVec.toNat_ofNat, Nat.mod_eq_of_lt fits]
  have same : Positional.digits 16 24 (BitVec.ofNat 96 (Positional.value 16 0 numeral)).toNat = numeral := by
    rw [whole, ← digits, Positional.digits_value (by decide) small]
  exact ⟨length, same.symm ▸ read⟩

theorem toHex_lower (id : ObjectId) : ∀ c ∈ id.toHex.toList, ¬('A' ≤ c ∧ c ≤ 'F') := by
  intro c member
  rw [toHex_digits, hexText, String.toList_ofList] at member
  obtain ⟨d, digit, rfl⟩ := List.mem_map.mp member
  exact hexDigit_lower d (Positional.digits_lt (by decide) _ _ d digit)

theorem textBytes_hexText {numeral : List Nat} (small : ∀ d ∈ numeral, d < 16) :
    textBytes (hexText numeral) = numeral.map fun d => (hexDigit d).toNat := by
  rw [hexText, textBytes_ofList]
  induction numeral with
  | nil => rfl
  | cons d rest ih =>
      rw [List.map_cons, List.flatMap_cons, hexDigit_bytes d (small d (by simp)),
        ih fun e member => small e (List.mem_cons_of_mem _ member)]
      rfl

theorem map_hexDigit_lt {left right : List Nat} (smallRight : ∀ d ∈ right, d < 16) (below : left < right) :
    (left.map fun d => (hexDigit d).toNat) < right.map fun d => (hexDigit d).toNat := by
  induction left generalizing right with
  | nil =>
      cases right with
      | nil => exact absurd below (lt_irrefl _)
      | cons d rest => simp
  | cons c left ih =>
      cases right with
      | nil => simp at below
      | cons d right =>
          have others : ∀ e ∈ right, e < 16 := fun e member => smallRight e (List.mem_cons_of_mem _ member)
          rw [List.cons_lt_cons_iff] at below
          rw [List.map_cons, List.map_cons, List.cons_lt_cons_iff]
          rcases below with smaller | ⟨rfl, later⟩
          · exact .inl (hexDigit_mono d (smallRight d (by simp)) c smaller)
          · exact .inr ⟨rfl, ih others later⟩

theorem toHex_lt {a b : ObjectId} (below : a.value.toNat < b.value.toNat) :
    textBytes a.toHex < textBytes b.toHex := by
  have small : ∀ id : ObjectId, ∀ d ∈ Positional.digits 16 24 id.value.toNat, d < 16 :=
    fun id => Positional.digits_lt (by decide) 24 _
  rw [toHex_digits, toHex_digits, textBytes_hexText (small a), textBytes_hexText (small b)]
  exact map_hexDigit_lt (small b) (Positional.digits_strictMono (by decide) 24 below b.value_lt)

theorem cmp_toHex (a b : ObjectId) :
    cmp (textBytes a.toHex) (textBytes b.toHex) = cmp a.value.toNat b.value.toNat := by
  rcases lt_trichotomy a.value.toNat b.value.toNat with below | equal | above
  · simp [cmp, cmpUsing, below, toHex_lt below]
  · have same : a = b := by
      cases a
      cases b
      exact congrArg ObjectId.mk (BitVec.eq_of_toNat_eq equal)
    rw [same]
    simp [cmp, cmpUsing]
  · simp [cmp, cmpUsing, above, above.not_gt, toHex_lt above, (toHex_lt above).not_gt]

end ObjectId

theorem objectId_embeds (x y : Nat) : ([35, (x : ℚ)] : List ℚ) < [35, (y : ℚ)] ↔ x < y := by
  simp [List.cons_lt_cons_iff]

theorem objectId_mirrors (id stored : ObjectId) :
    Mirrors (.objectId id) (.text id.toHex) (.objectId stored) (.text stored.toHex) :=
  mirrors_of_order (a := stored.value.toNat) (b := id.value.toNat) (fun n : Nat => ([35, (n : ℚ)] : List ℚ))
    objectId_embeds
    (by simp [Bson.sortKey, Bson.typeClass, Bson.payload]) (by simp [Bson.sortKey, Bson.typeClass, Bson.payload])
    rfl rfl (by rw [sqlCompare, ObjectId.cmp_toHex])

def isUpperHex (c : Char) : Prop := 'A' ≤ c ∧ c ≤ 'F'

instance (c : Char) : Decidable (isUpperHex c) := inferInstanceAs (Decidable (_ ∧ _))

/-- Reading along with an id's text, an upper-case letter of the literal is met
opposite a letter before the two texts part. -/
def shadowed : List Char → List Char → Bool
  | d :: text, c :: spelled =>
      if isUpperHex c then decide ('a' ≤ d) else decide (d = c) && shadowed text spelled
  | _, _ => false

theorem shadowed_lower {text spelled : List Char} (lower : ∀ c ∈ spelled, ¬isUpperHex c) :
    shadowed text spelled = false := by
  induction text generalizing spelled with
  | nil => rfl
  | cons d text ih =>
      cases spelled with
      | nil => rfl
      | cons c spelled =>
          rw [shadowed, if_neg (lower c (by simp)), ih fun e member => lower e (List.mem_cons_of_mem _ member),
            Bool.and_false]

theorem cmp_cons (x y : Nat) (xs ys : List Nat) :
    cmp (x :: xs) (y :: ys) = if x < y then .lt else if y < x then .gt else cmp xs ys := by
  rcases lt_trichotomy x y with below | rfl | above
  · simp [cmp, cmpUsing, List.cons_lt_cons_iff, below]
  · simp [cmp, cmpUsing]
  · simp [cmp, cmpUsing, List.cons_lt_cons_iff, above, above.not_gt, above.ne']

/-- An upper-case letter stands below every letter of an id's text, and above its digits. -/
theorem upperHex_between {c : Char} {n : Nat} (digit : ObjectId.hexValue c = some n) (upper : isUpperHex c) :
    (∀ d < 16, 'a' ≤ ObjectId.hexDigit d → c.toNat < (ObjectId.hexDigit d).toNat) ∧
      ∀ d < 16, ¬ 'a' ≤ ObjectId.hexDigit d →
        (ObjectId.hexDigit d).toNat < c.toNat ∧ (ObjectId.hexDigit d).toNat < (ObjectId.hexDigit n).toNat := by
  have low : 65 ≤ c.toNat := upper.1
  have high : c.toNat ≤ 70 := upper.2
  have letters : ∀ d < 16, 'a' ≤ ObjectId.hexDigit d → 97 ≤ (ObjectId.hexDigit d).toNat := by decide
  have digits : ∀ d < 16, ¬ 'a' ≤ ObjectId.hexDigit d → (ObjectId.hexDigit d).toNat ≤ 57 := by decide
  have value : n = c.toNat - 55 := by
    have notDigit : ¬('0' ≤ c ∧ c ≤ '9') := fun inside => by
      have bound : c.toNat ≤ 57 := inside.2
      omega
    have notLower : ¬('a' ≤ c ∧ c ≤ 'f') := fun inside => by
      have bound : 97 ≤ c.toNat := inside.1
      omega
    simp only [ObjectId.hexValue, if_neg notDigit, if_neg notLower, if_pos (show 'A' ≤ c ∧ c ≤ 'F' from upper),
      Option.some.injEq] at digit
    have a : 'A'.toNat = 65 := rfl
    omega
  have code : ∀ m, 10 ≤ m → m ≤ 15 → 97 ≤ (ObjectId.hexDigit m).toNat := by
    intro m least most
    interval_cases m <;> decide
  have above := code n (by omega) (by omega)
  constructor
  · intro d small letter
    have := letters d small letter
    omega
  · intro d small notLetter
    have := digits d small notLetter
    omega

theorem cmp_spelled {spelled : List Char} {numeral : List Nat}
    (read : List.Forall₂ (fun c d => ObjectId.hexValue c = some d) spelled numeral) {stored : List Nat}
    (small : ∀ d ∈ stored, d < 16) (length : stored.length = spelled.length) :
    cmp (stored.map fun d => (ObjectId.hexDigit d).toNat) (spelled.map Char.toNat) =
      if shadowed (stored.map ObjectId.hexDigit) spelled then .gt
      else cmp (stored.map fun d => (ObjectId.hexDigit d).toNat) (numeral.map fun d => (ObjectId.hexDigit d).toNat) := by
  induction read generalizing stored with
  | nil =>
      cases stored with
      | nil => rfl
      | cons d stored => cases length
  | @cons c n spelled numeral digit _ ih =>
      cases stored with
      | nil => cases length
      | cons d stored =>
          have head : d < 16 := small d (by simp)
          have tail := ih (fun e member => small e (List.mem_cons_of_mem _ member)) (Nat.succ.inj length)
          simp only [List.map_cons, cmp_cons, shadowed]
          by_cases upper : isUpperHex c
          · obtain ⟨letters, digits⟩ := upperHex_between digit upper
            rw [if_pos upper]
            by_cases letter : 'a' ≤ ObjectId.hexDigit d
            · have above := letters d head letter
              rw [if_pos (decide_eq_true letter), if_neg above.not_gt, if_pos above]
            · have below := digits d head letter
              have notShadowed : ¬decide ('a' ≤ ObjectId.hexDigit d) = true := by rwa [decide_eq_true_eq]
              rw [if_pos below.1, if_neg notShadowed, if_pos below.2]
          · have same := ObjectId.hexDigit_hexValue digit upper
            rw [if_neg upper, same]
            by_cases equal : ObjectId.hexDigit d = c
            · simp [equal, tail]
            · have differ : (ObjectId.hexDigit d).toNat ≠ c.toNat := by
                intro codes
                exact equal (Char.toNat_inj.mp codes)
              rcases lt_or_gt_of_ne differ with below | above
              · simp [equal, below]
              · simp [equal, above, above.not_gt]

theorem textBytes_spelled {spelled : List Char} {numeral : List Nat}
    (read : List.Forall₂ (fun c d => ObjectId.hexValue c = some d) spelled numeral) :
    textBytes (String.ofList spelled) = spelled.map Char.toNat := by
  rw [textBytes_ofList]
  induction read with
  | nil => rfl
  | @cons c n _ _ digit _ ih =>
      have ascii : (String.utf8EncodeChar c).map UInt8.toNat = [c.toNat] := by
        by_cases upper : isUpperHex c
        · have upperCodes : ∀ m, 65 ≤ m → m ≤ 70 →
              (String.utf8EncodeChar (Char.ofNat m)).map UInt8.toNat = [(Char.ofNat m).toNat] := by
            intro m low high
            interval_cases m <;> decide
          have known := upperCodes c.toNat upper.1 upper.2
          rwa [Char.ofNat_toNat] at known
        · rw [← ObjectId.hexDigit_hexValue digit upper]
          exact ObjectId.hexDigit_bytes n (ObjectId.hexValue_lt digit)
      rw [List.flatMap_cons, ih, ascii, List.map_cons]
      rfl

/-- SQL's order of an id's text and a literal: above where the literal is shadowed, and
elsewhere the order of the ids. -/
theorem cmp_literal {s : String} {id : ObjectId} (parsed : ObjectId.parse s = some id) (stored : ObjectId) :
    cmp (textBytes stored.toHex) (textBytes s) =
      if shadowed stored.toHex.toList s.toList then .gt else cmp stored.value.toNat id.value.toNat := by
  obtain ⟨length, read⟩ := ObjectId.parse_digits parsed
  have small : ∀ o : ObjectId, ∀ d ∈ Positional.digits 16 24 o.value.toNat, d < 16 :=
    fun o => Positional.digits_lt (by decide) 24 _
  have text : textBytes s = s.toList.map Char.toNat := by
    have spelled := textBytes_spelled read
    rwa [String.ofList_toList] at spelled
  have order := cmp_spelled read (small stored) (by rw [Positional.digits_length, length])
  rw [← ObjectId.cmp_toHex, text, ObjectId.toHex_digits, ObjectId.toHex_digits,
    ObjectId.textBytes_hexText (small stored), ObjectId.textBytes_hexText (small id), order, ObjectId.hexText,
    String.toList_ofList]

theorem objectId_accepts {op : Operator} {mongoOp : String} (named : mongoOperator op = some mongoOp)
    (id stored : ObjectId) :
    comparisonAccepts mongoOp (.objectId id) [.objectId stored] =
      op.holds (cmp stored.value.toNat id.value.toNat) := by
  have mirrors := (objectId_mirrors id stored).comparison named
  rw [sqlTest, sqlCompare, ObjectId.cmp_toHex, Option.map_some, Option.some.injEq] at mirrors
  apply Bool.eq_iff_iff.mpr
  rw [← mirrors]
  simp [Bson.isNull]

/-- A pushed comparison with a literal spelled `s` and SQL's comparison with its text
agree on a stored id if and only if the literal is not shadowed by the id's text, or the
operator holds of the ids as it does of `greater`; and they agree on every id under every
operator if and only if the literal is spelled without upper-case letters. -/
theorem objectId_order_iff (scalar : ScalarValue) (s : String) (id : ObjectId)
    (spelled : scalar = .utf8 (some s) ∨ scalar = .largeUtf8 (some s))
    (pushed : scalarToBson scalar .objectId = some (.objectId id)) :
    (∀ (stored : ObjectId) (op : Operator) (mongoOp : String), mongoOperator op = some mongoOp →
      ((comparisonAccepts mongoOp (.objectId id) [.objectId stored] = true ↔
          sqlTest op (.text stored.toHex) (.text s) = some true) ↔
        (shadowed stored.toHex.toList s.toList = true →
          op.holds (cmp stored.value.toNat id.value.toNat) = op.holds .gt))) ∧
    ((∀ (stored : ObjectId) (op : Operator) (mongoOp : String), mongoOperator op = some mongoOp →
      (comparisonAccepts mongoOp (.objectId id) [.objectId stored] = true ↔
        sqlTest op (.text stored.toHex) (.text s) = some true)) ↔
      ∀ c ∈ s.toList, ¬isUpperHex c) := by
  have parsed : ObjectId.parse s = some id := by
    rcases spelled with rfl | rfl <;>
      simpa only [scalarToBson, if_true, Option.map_eq_some_iff, Bson.objectId.injEq, exists_eq_right] using pushed
  have each : ∀ (stored : ObjectId) (op : Operator) (mongoOp : String), mongoOperator op = some mongoOp →
      ((comparisonAccepts mongoOp (.objectId id) [.objectId stored] = true ↔
          sqlTest op (.text stored.toHex) (.text s) = some true) ↔
        (shadowed stored.toHex.toList s.toList = true →
          op.holds (cmp stored.value.toNat id.value.toNat) = op.holds .gt)) := by
    intro stored op mongoOp named
    rw [objectId_accepts named, sqlTest, sqlCompare, cmp_literal parsed stored, Option.map_some,
      Option.some.injEq, ← Bool.eq_iff_iff]
    cases shadowed stored.toHex.toList s.toList <;> simp
  refine ⟨each, ?_, ?_⟩
  · intro agree c member
    have equal : comparisonAccepts "$eq" (.objectId id) [.objectId id] = true := by
      simp [comparisonAccepts, equalTo]
    have same := (agree id .eq "$eq" rfl).mp equal
    have text : cmp (textBytes id.toHex) (textBytes s) = .eq := by
      simpa [sqlTest, sqlCompare, Operator.holds] using same
    rw [← textBytes_injective (eq_of_cmp text)] at member
    exact id.toHex_lower c member
  · intro lower stored op mongoOp named
    rw [each stored op mongoOp named, shadowed_lower lower]
    exact fun contra => Bool.noConfusion contra

/-- An id whose first digit is a letter, in upper case. -/
def loudLiteral : String := "A00000000000000000000000"

theorem objectId_literal_misses : ¬∀ (s : String) (id stored : ObjectId) (op : Operator) (mongoOp : String),
    scalarToBson (.utf8 (some s)) .objectId = some (.objectId id) → mongoOperator op = some mongoOp →
    (comparisonAccepts mongoOp (.objectId id) [.objectId stored] = true ↔
      sqlTest op (.text stored.toHex) (.text s) = some true) := by
  intro claimed
  obtain ⟨id, parsed⟩ := Option.isSome_iff_exists.mp (show (ObjectId.parse loudLiteral).isSome = true by decide)
  have pushed : scalarToBson (.utf8 (some loudLiteral)) .objectId = some (.objectId id) := by
    simp [scalarToBson, parsed]
  have equal : comparisonAccepts "$eq" (.objectId id) [.objectId id] = true := by
    simp [comparisonAccepts, equalTo]
  have same := (claimed loudLiteral id id .eq "$eq" pushed rfl).mp equal
  have text : cmp (textBytes id.toHex) (textBytes loudLiteral) = .eq := by
    simpa [sqlTest, sqlCompare, Operator.holds] using same
  have lower := id.toHex_lower
  rw [textBytes_injective (eq_of_cmp text)] at lower
  exact lower 'A' (by decide) (by decide)

def quietLiteral : String := "aaaaaaaaaaaaaaaaaaaaaaaa"

theorem objectId_order_iff_quiet :
    ∃ id, ObjectId.parse quietLiteral = some id ∧
      ∀ (stored : ObjectId) (op : Operator) (mongoOp : String), mongoOperator op = some mongoOp →
        (comparisonAccepts mongoOp (.objectId id) [.objectId stored] = true ↔
          sqlTest op (.text stored.toHex) (.text quietLiteral) = some true) := by
  obtain ⟨id, parsed⟩ := Option.isSome_iff_exists.mp
    (show (ObjectId.parse quietLiteral).isSome = true by decide)
  have pushed : scalarToBson (.utf8 (some quietLiteral)) .objectId = some (.objectId id) := by
    simp [scalarToBson, parsed]
  have lower : ∀ c ∈ quietLiteral.toList, ¬isUpperHex c := by
    intro c member
    have letters : quietLiteral.toList = List.replicate 24 'a' := by simp [quietLiteral]
    rw [letters] at member
    rw [List.eq_of_mem_replicate member]
    decide
  exact ⟨id, parsed, (objectId_order_iff (.utf8 (some quietLiteral)) quietLiteral id (.inl rfl) pushed).2.mpr lower⟩

end Auger
