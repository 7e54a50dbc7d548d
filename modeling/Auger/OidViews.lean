import Mathlib

set_option autoImplicit false

/-! The object ids of the `pg_catalog` views, and the join of relations with their columns. -/

namespace Auger

section
variable {σ β : Type} {step : σ → β → σ}

/-- Where every step can be undone, different states stay different. -/
theorem foldl_injective (reversible : ∀ b, Function.Injective fun s => step s b) (symbols : List β) :
    Function.Injective fun s => symbols.foldl step s := by
  induction symbols with
  | nil => exact fun _ _ same => same
  | cons b rest ih => exact fun _ _ same => reversible b (ih same)

/-- Where a step moreover tells symbols apart, one symbol exchanged for another changes the hash. -/
theorem foldl_exchanged (reversible : ∀ b, Function.Injective fun s => step s b)
    (tells : ∀ s, Function.Injective (step s)) {front back : List β} {b c : β} {start : σ}
    (same : (front ++ b :: back).foldl step start = (front ++ c :: back).foldl step start) : b = c := by
  rw [List.foldl_append, List.foldl_append, List.foldl_cons, List.foldl_cons] at same
  exact tells _ (foldl_injective reversible back same)

end

def absorb (hash : UInt32) (byte : UInt8) : UInt32 := (hash ^^^ byte.toUInt32) * 0x01000193

def nameBytes (name : String) : List UInt8 := name.toUTF8.data.toList

/-- FNV-1a, folded into the positive half of `int4`. -/
def fnvOid (name : String) : Int32 :=
  (((nameBytes name).foldl absorb 0x811c9dc5) &&& 0x7fffffff).toInt32

/-- The bits of a hash that an oid keeps. -/
def kept (hash : UInt32) : BitVec 31 := hash.toBitVec.setWidth 31

/-- The step on the kept bits alone. -/
def absorbKept (hash : BitVec 31) (byte : UInt8) : BitVec 31 :=
  (hash ^^^ byte.toBitVec.setWidth 31) * 0x01000193#31

theorem kept_absorb (hash : UInt32) (byte : UInt8) : kept (absorb hash byte) = absorbKept (kept hash) byte := by
  rw [kept, absorb, UInt32.toBitVec_mul, UInt32.toBitVec_xor, BitVec.setWidth_mul _ _ (by decide), BitVec.setWidth_xor,
    UInt8.toBitVec_toUInt32, BitVec.setWidth_setWidth_of_le _ (by decide)]
  rfl

theorem kept_fold (bytes : List UInt8) (hash : UInt32) :
    kept (bytes.foldl absorb hash) = bytes.foldl absorbKept (kept hash) :=
  (List.foldl_hom kept fun s b => (kept_absorb s b).symm).symm

theorem prime_unit : 0x01000193#31 * 0x359c449b#31 = 1#31 := by decide

theorem mul_prime_injective {x y : BitVec 31} (same : x * 0x01000193#31 = y * 0x01000193#31) : x = y := by
  have divided := congrArg (· * 0x359c449b#31) same
  simpa only [BitVec.mul_assoc, prime_unit, BitVec.mul_one] using divided

theorem absorbKept_reversible (byte : UInt8) : Function.Injective fun hash => absorbKept hash byte :=
  fun _ _ same => BitVec.xor_left_inj _ |>.mp (mul_prime_injective same)

theorem absorbKept_tells (hash : BitVec 31) : Function.Injective (absorbKept hash) := by
  intro b c same
  have widened : b.toBitVec.setWidth 31 = c.toBitVec.setWidth 31 :=
    (BitVec.xor_right_inj _).mp (mul_prime_injective same)
  have narrowed := congrArg (BitVec.setWidth 8) widened
  rw [BitVec.setWidth_setWidth_of_le _ (by decide), BitVec.setWidth_setWidth_of_le _ (by decide), BitVec.setWidth_eq,
    BitVec.setWidth_eq] at narrowed
  exact UInt8.toBitVec_inj.mp narrowed

theorem kept_masked (hash : UInt32) : (hash &&& 0x7fffffff).toInt32.toBitVec.setWidth 31 = kept hash := by
  have ones : (0x7fffffff : UInt32).toBitVec.setWidth 31 = BitVec.allOnes 31 := rfl
  have bits : (hash &&& 0x7fffffff).toInt32.toBitVec = hash.toBitVec &&& (0x7fffffff : UInt32).toBitVec := rfl
  rw [bits, BitVec.setWidth_and, ones, BitVec.and_allOnes, kept]

/-- Equal oids are equal hashes of the kept bits. -/
theorem fnvOid_kept {name other : String} (same : fnvOid name = fnvOid other) :
    (nameBytes name).foldl absorbKept (kept 0x811c9dc5) = (nameBytes other).foldl absorbKept (kept 0x811c9dc5) := by
  rw [← kept_fold, ← kept_fold, ← kept_masked, ← kept_masked]
  exact congrArg (fun oid : Int32 => oid.toBitVec.setWidth 31) same

theorem nameBytes_injective : Function.Injective nameBytes := by
  intro name other same
  exact String.toByteArray_inj.mp (ByteArray.ext (Array.toList_inj.mp same))

theorem fnvOid_nonneg (name : String) : 0 ≤ (fnvOid name).toInt := by
  have small (hash : UInt32) : 2 * (hash &&& 0x7fffffff).toInt32.toBitVec.toNat < 2 ^ 32 := by
    have bits : (hash &&& 0x7fffffff).toInt32.toBitVec.toNat = hash.toNat &&& 0x7fffffff := rfl
    have most : hash.toNat &&& 0x7fffffff ≤ 0x7fffffff := Nat.and_le_right
    omega
  have value : (fnvOid name).toInt = (fnvOid name).toBitVec.toNat := BitVec.toInt_eq_toNat_of_lt (small _)
  omega

/-- An oid is never negative, and names that differ in a single byte have different ones. -/
theorem oid_one_byte : (∀ name, 0 ≤ (fnvOid name).toInt) ∧
    ∀ (name other : String) (front back : List UInt8) (b c : UInt8), nameBytes name = front ++ b :: back →
      nameBytes other = front ++ c :: back → fnvOid name = fnvOid other → name = other := by
  refine ⟨fnvOid_nonneg, ?_⟩
  intro name other front back b c first second same
  have folds := fnvOid_kept same
  rw [first, second] at folds
  have symbol := foldl_exchanged absorbKept_reversible absorbKept_tells folds
  exact nameBytes_injective (by rw [first, second, symbol])

theorem oid_one_byte_monthly : fnvOid "shop.orders_1" ≠ fnvOid "shop.orders_2" := by
  intro same
  have names := oid_one_byte.2 _ _ (nameBytes "shop.orders_") [] 49 50 (by decide) (by decide) same
  exact absurd names (by decide)

section
variable {α β γ δ : Type}

def joinOn (condition : α → β → Bool) (xs : List α) (ys : List β) : List (α × β) :=
  xs.flatMap fun x => (ys.filter (condition x)).map (Prod.mk x)

theorem joinOn_map (f : α → γ) (g : β → δ) (condition : γ → δ → Bool) (xs : List α) (ys : List β) :
    joinOn condition (xs.map f) (ys.map g) =
      (joinOn (fun x y => condition (f x) (g y)) xs ys).map (Prod.map f g) := by
  rw [joinOn, joinOn, List.flatMap_map, List.map_flatMap]
  apply List.flatMap_congr
  intro x _
  rw [List.filter_map, List.map_map, List.map_map]
  rfl

theorem joinOn_congr {first second : α → β → Bool} {xs : List α} {ys : List β}
    (same : ∀ x ∈ xs, ∀ y ∈ ys, first x y = second x y) : joinOn first xs ys = joinOn second xs ys := by
  apply List.flatMap_congr
  intro x here
  rw [List.filter_congr (same x here)]

theorem length_joinOn (condition : α → β → Bool) (xs : List α) (ys : List β) :
    (joinOn condition xs ys).length = (xs.map fun x => ys.countP (condition x)).sum := by
  rw [joinOn, List.length_flatMap]
  congr 1
  apply List.map_congr_left
  intro x _
  rw [List.length_map, List.countP_eq_length_filter]

theorem countP_lt_of_weaker {strong weak : β → Bool} {ys : List β}
    (weaker : ∀ y ∈ ys, strong y = true → weak y = true) {y : β} (there : y ∈ ys) (through : weak y = true)
    (blocked : ¬strong y = true) : ys.countP strong < ys.countP weak := by
  obtain ⟨front, back, rfl⟩ := List.append_of_mem there
  have first : front.countP strong ≤ front.countP weak := List.countP_mono_left fun z inside =>
    weaker z (List.mem_append_left _ inside)
  have last : back.countP strong ≤ back.countP weak := List.countP_mono_left fun z inside =>
    weaker z (List.mem_append_right _ (List.mem_cons_of_mem y inside))
  rw [List.countP_append, List.countP_append, List.countP_cons_of_neg blocked, List.countP_cons_of_pos through]
  omega

theorem joinOn_weaker {strong weak : α → β → Bool} {xs : List α} {ys : List β}
    (weaker : ∀ x ∈ xs, ∀ y ∈ ys, strong x y = true → weak x y = true)
    (many : (joinOn weak xs ys).length = (joinOn strong xs ys).length) :
    ∀ x ∈ xs, ∀ y ∈ ys, weak x y = true → strong x y = true := by
  intro x here y there through
  by_contra blocked
  have each : ∀ z ∈ xs, ys.countP (strong z) ≤ ys.countP (weak z) := fun z inside =>
    List.countP_mono_left (weaker z inside)
  have more := countP_lt_of_weaker (weaker x here) there through blocked
  have less := List.sum_lt_sum (fun z => ys.countP (strong z)) (fun z => ys.countP (weak z)) each ⟨x, here, more⟩
  rw [length_joinOn, length_joinOn] at many
  omega

end

structure InfoTable where
  tableSchema : String
  tableName : String
  tableType : String
  deriving DecidableEq

structure InfoColumn where
  tableSchema : String
  tableName : String
  columnName : String
  ordinalPosition : Int32
  isNullable : String
  dataType : String
  deriving DecidableEq

/-- A row of `pg_catalog.pg_class`; the ACL is always null. -/
structure PgClass where
  oid : Int32
  relname : String
  relnamespace : Int32
  reltype : Int64
  relowner : Int64
  relkind : String
  reltuples : Int64
  relpages : Int64
  relhasindex : Bool
  relisshared : Bool
  relhasrules : Bool
  relhastriggers : Bool
  relrowsecurity : Bool

/-- A row of `pg_catalog.pg_attribute`. -/
structure PgAttribute where
  attrelid : Int32
  attname : String
  atttypid : Int64
  attnum : Int32
  atttypmod : Int32
  attnotnull : Bool
  attisdropped : Bool
  atthasdef : Bool
  attndims : Int64
  augerType : String

def qualifiedName (schema name : String) : String := schema ++ "." ++ name

def classRow (t : InfoTable) : PgClass :=
  ⟨fnvOid (qualifiedName t.tableSchema t.tableName), t.tableName, fnvOid t.tableSchema, 0, 10,
    if t.tableType = "VIEW" then "v" else "r", -1, 0, false, false, false, false, false⟩

def attributeRow (c : InfoColumn) : PgAttribute :=
  ⟨fnvOid (qualifiedName c.tableSchema c.tableName), c.columnName, 0, c.ordinalPosition, -1, c.isNullable == "NO",
    false, false, 0, c.dataType⟩

def pgClass (tables : List InfoTable) : List PgClass := tables.map classRow

def pgAttribute (columns : List InfoColumn) : List PgAttribute := columns.map attributeRow

def relationColumns (tables : List InfoTable) (columns : List InfoColumn) : List (PgClass × PgAttribute) :=
  joinOn (fun relation column => decide (column.attrelid = relation.oid)) (pgClass tables) (pgAttribute columns)

def InfoColumn.isOf (column : InfoColumn) (table : InfoTable) : Bool :=
  decide (column.tableSchema = table.tableSchema ∧ column.tableName = table.tableName)

/-- Each relation with the columns that name it. -/
def namedColumns (tables : List InfoTable) (columns : List InfoColumn) : List (PgClass × PgAttribute) :=
  (joinOn (fun table column => column.isOf table) tables columns).map (Prod.map classRow attributeRow)

/-- What `information_schema` holds: no table twice, and every column of a listed table. -/
structure InfoSound (tables : List InfoTable) (columns : List InfoColumn) : Prop where
  unique : ∀ t ∈ tables, ∀ u ∈ tables, t.tableSchema = u.tableSchema → t.tableName = u.tableName → t = u
  listed : ∀ c ∈ columns, ∃ t ∈ tables, c.isOf t = true

def tableOid (t : InfoTable) : Int32 := fnvOid (qualifiedName t.tableSchema t.tableName)

/-- No listed table shares its oid with another one that has a column. -/
def OidsApart (tables : List InfoTable) (columns : List InfoColumn) : Prop :=
  ∀ t ∈ tables, ∀ u ∈ tables, (∃ c ∈ columns, c.isOf u = true) → tableOid t = tableOid u → t = u

theorem isOf_oid {c : InfoColumn} {t : InfoTable} (own : c.isOf t = true) :
    (attributeRow c).attrelid = tableOid t := by
  obtain ⟨schemas, names⟩ := of_decide_eq_true own
  rw [attributeRow, tableOid, schemas, names]

theorem isOf_same {c : InfoColumn} {tables : List InfoTable} {columns : List InfoColumn}
    (sound : InfoSound tables columns) {t u : InfoTable} (first : t ∈ tables) (second : u ∈ tables)
    (own : c.isOf t = true) (other : c.isOf u = true) : t = u := by
  obtain ⟨schemas, names⟩ := of_decide_eq_true own
  obtain ⟨schemas', names'⟩ := of_decide_eq_true other
  exact sound.unique t first u second (schemas.symm.trans schemas') (names.symm.trans names')

/-- Joined on oids, relations come with their own columns and no others, exactly where none of
them shares its oid with another one that has a column. -/
theorem relation_columns_iff {tables : List InfoTable} {columns : List InfoColumn}
    (sound : InfoSound tables columns) :
    (relationColumns tables columns).Perm (namedColumns tables columns) ↔ OidsApart tables columns := by
  have mapped : relationColumns tables columns =
      (joinOn (fun t c => decide ((attributeRow c).attrelid = tableOid t)) tables columns).map
        (Prod.map classRow attributeRow) := joinOn_map classRow attributeRow _ tables columns
  rw [mapped, namedColumns]
  constructor
  · rintro same t first u second ⟨c, inside, own⟩ shared
    have many := same.length_eq
    rw [List.length_map, List.length_map] at many
    have strict := joinOn_weaker (fun t _ c _ own => decide_eq_true (isOf_oid own)) many
    have claimed := strict t first c inside (decide_eq_true ((isOf_oid own).trans shared.symm))
    exact isOf_same sound first second claimed own
  · intro apart
    apply List.Perm.of_eq
    congr 1
    apply joinOn_congr
    intro t first c inside
    obtain ⟨u, second, own⟩ := sound.listed c inside
    rw [Bool.eq_iff_iff, decide_eq_true_iff, isOf_oid own]
    constructor
    · intro shared
      rw [apart t first u second ⟨c, inside, own⟩ shared.symm]
      exact own
    · intro claimed
      rw [isOf_same sound second first own claimed]

/-- The orders of two months, and a view of the engine's own, listed without columns. -/
def monthlyTables : List InfoTable :=
  [⟨"shop", "orders_1", "BASE TABLE"⟩, ⟨"shop", "orders_2", "BASE TABLE"⟩, ⟨"information_schema", "tables", "VIEW"⟩]

def monthlyColumns : List InfoColumn :=
  [⟨"shop", "orders_1", "_id", 0, "NO", "Utf8"⟩, ⟨"shop", "orders_2", "_id", 0, "NO", "Utf8"⟩]

theorem monthly_sound : InfoSound monthlyTables monthlyColumns := by
  constructor <;> decide

theorem relation_columns_iff_monthly :
    (relationColumns monthlyTables monthlyColumns).Perm (namedColumns monthlyTables monthlyColumns) := by
  have apart : OidsApart monthlyTables monthlyColumns := by
    unfold OidsApart
    decide +kernel
  exact (relation_columns_iff monthly_sound).mpr apart

end Auger
