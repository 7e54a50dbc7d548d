import Auger.Convert
import Auger.General.Kleene
import Mathlib

set_option autoImplicit false

/-! The part of DataFusion's expression language the planner hands over, and
what SQL says it evaluates to on a row. -/

namespace Auger

open General

/-- A 32-bit float literal, by its bit pattern. -/
structure F32 where
  bits : BitVec 32
  deriving DecidableEq, Repr

/-- The widening cast to `f64`, which is exact. -/
def F32.toF64 (x : F32) : F64 :=
  let exponent := x.bits.toNat / 2 ^ 23 % 2 ^ 8
  let fraction := x.bits.toNat % 2 ^ 23
  if exponent = 255 then
    if fraction = 0 then F64.infinity x.bits.msb else F64.nan
  else
    let magnitude := if exponent = 0 then fraction else (2 ^ 23 + fraction) * 2 ^ (exponent - 1)
    F64.ofRatio x.bits.msb magnitude (2 ^ 149)

inductive ScalarValue
  | null
  | boolean (value : Option Bool)
  | float32 (value : Option F32)
  | float64 (value : Option F64)
  | decimal128 (value : Option Int) (precision : Nat) (scale : Int)
  | decimal256 (value : Option Int) (precision : Nat) (scale : Int)
  | int8 (value : Option Int8)
  | int16 (value : Option Int16)
  | int32 (value : Option Int32)
  | int64 (value : Option Int64)
  | uint8 (value : Option UInt8)
  | uint16 (value : Option UInt16)
  | uint32 (value : Option UInt32)
  | uint64 (value : Option UInt64)
  | utf8 (value : Option String)
  | largeUtf8 (value : Option String)
  | binary (value : Option (List UInt8))
  | date32 (days : Option Int32)
  | date64 (millis : Option Int64)
  | timestampSecond (value : Option Int64) (timezone : Option String)
  | timestampMillisecond (value : Option Int64) (timezone : Option String)
  | timestampMicrosecond (value : Option Int64) (timezone : Option String)
  | timestampNanosecond (value : Option Int64) (timezone : Option String)
  /-- A literal of any other type, by whether it is NULL. -/
  | other (isNull : Bool)
  deriving Repr

namespace ScalarValue

def isNull : ScalarValue → Bool
  | .null => true
  | .boolean v => v.isNone
  | .float32 v => v.isNone
  | .float64 v => v.isNone
  | .decimal128 v _ _ => v.isNone
  | .decimal256 v _ _ => v.isNone
  | .int8 v => v.isNone
  | .int16 v => v.isNone
  | .int32 v => v.isNone
  | .int64 v => v.isNone
  | .uint8 v => v.isNone
  | .uint16 v => v.isNone
  | .uint32 v => v.isNone
  | .uint64 v => v.isNone
  | .utf8 v => v.isNone
  | .largeUtf8 v => v.isNone
  | .binary v => v.isNone
  | .date32 v => v.isNone
  | .date64 v => v.isNone
  | .timestampSecond v _ => v.isNone
  | .timestampMillisecond v _ => v.isNone
  | .timestampMicrosecond v _ => v.isNone
  | .timestampNanosecond v _ => v.isNone
  | .other isNull => isNull

def dataType : ScalarValue → Option DataType
  | .boolean _ => some .boolean
  | .int32 _ => some .int32
  | .int64 _ => some .int64
  | .float64 _ => some .float64
  | .utf8 _ => some .utf8
  | .binary _ => some .binary
  | .decimal128 _ precision scale => some (.decimal128 precision scale)
  | .timestampMillisecond _ timezone => some (.timestamp .millisecond timezone)
  | _ => none

/-- The value of a literal of a column type. -/
def toCell : ScalarValue → Cell
  | .boolean v => Cell.ofOption .boolean v
  | .int8 v => Cell.ofOption (fun v => .int v.toInt) v
  | .int16 v => Cell.ofOption (fun v => .int v.toInt) v
  | .int32 v => Cell.ofOption (fun v => .int v.toInt) v
  | .int64 v => Cell.ofOption (fun v => .int v.toInt) v
  | .float64 v => Cell.ofOption .float v
  | .utf8 v => Cell.ofOption .text v
  | .largeUtf8 v => Cell.ofOption .text v
  | .binary v => Cell.ofOption .bytes v
  | .decimal128 v _ scale => Cell.ofOption (.decimal · scale) v
  | .timestampMillisecond v _ => Cell.ofOption (fun v => .timestamp v.toInt) v
  | _ => .null

end ScalarValue

inductive Operator
  | eq | notEq | lt | ltEq | gt | gtEq | and | or
  | other (symbol : String)
  deriving DecidableEq, Repr

inductive Expr
  | column (name : String)
  | literal (value : ScalarValue)
  | alias (expr : Expr) (name : String)
  | binaryExpr (left : Expr) (op : Operator) (right : Expr)
  | not (inner : Expr)
  | isNull (inner : Expr)
  | isNotNull (inner : Expr)
  | isTrue (inner : Expr)
  | isFalse (inner : Expr)
  | isNotTrue (inner : Expr)
  | isNotFalse (inner : Expr)
  | between (expr : Expr) (negated : Bool) (low high : Expr)
  | inList (expr : Expr) (list : List Expr) (negated : Bool)
  | like (negated : Bool) (expr pattern : Expr) (escape : Option Char) (caseInsensitive : Bool)
  | similarTo (negated : Bool) (expr pattern : Expr) (escape : Option Char)
  | cast (expr : Expr) (dataType : DataType)
  | scalarFunction (name : String) (args : List Expr)
  /-- An expression of any other kind, by its display text. -/
  | other (display : String)
  deriving Repr

/-- NULL, or values SQL does not compare with each other, give no ordering. -/
def sqlCompare : Cell → Cell → Option Ordering
  | .boolean a, .boolean b => some (cmp a b)
  | .int a, .int b => some (cmp a b)
  | .float a, .float b => some (cmp a.totalKey b.totalKey)
  | .text a, .text b => some (cmp (textBytes a) (textBytes b))
  | .bytes a, .bytes b => some (cmp (a.map UInt8.toNat) (b.map UInt8.toNat))
  | .timestamp a, .timestamp b => some (cmp a b)
  | .decimal a s, .decimal b t => if s = t then some (cmp a b) else none
  | _, _ => none

def Operator.holds : Operator → Ordering → Bool
  | .eq, o => o == .eq
  | .notEq, o => o != .eq
  | .lt, o => o == .lt
  | .ltEq, o => o != .gt
  | .gt, o => o == .gt
  | .gtEq, o => o != .lt
  | _, _ => false

def sqlTest (op : Operator) (a b : Cell) : Kleene.Truth := (sqlCompare a b).map op.holds

def Cell.truth : Cell → Kleene.Truth
  | .boolean b => some b
  | _ => none

def Cell.ofTruth (t : Kleene.Truth) : Cell := Cell.ofOption .boolean t

@[simp] theorem Cell.truth_ofTruth (t : Kleene.Truth) : (Cell.ofTruth t).truth = t := by
  rcases t with _ | _ <;> rfl

section
-- The meaning of the expressions the translator does not look into.
variable (external : Expr → Row → Cell)

mutual
/-- What an expression evaluates to on a row. -/
def Expr.eval (row : Row) : Expr → Cell
  | .column name => (row.lookup name).getD .null
  | .literal value => value.toCell
  | .alias expr _ => expr.eval row
  | .binaryExpr left .and right =>
      Cell.ofTruth (Kleene.conj (left.eval row).truth (right.eval row).truth)
  | .binaryExpr left .or right =>
      Cell.ofTruth (Kleene.disj (left.eval row).truth (right.eval row).truth)
  | .binaryExpr left (.other symbol) right => external (.binaryExpr left (.other symbol) right) row
  | .binaryExpr left op right => Cell.ofTruth (sqlTest op (left.eval row) (right.eval row))
  | .not inner => Cell.ofTruth (Kleene.neg (inner.eval row).truth)
  | .isNull inner => .boolean (inner.eval row).isNull
  | .isNotNull inner => .boolean !(inner.eval row).isNull
  | .isTrue inner => .boolean ((inner.eval row).truth == some true)
  | .isFalse inner => .boolean ((inner.eval row).truth == some false)
  | .isNotTrue inner => .boolean ((inner.eval row).truth != some true)
  | .isNotFalse inner => .boolean ((inner.eval row).truth != some false)
  | .between expr negated low high =>
      let inside := Kleene.conj (sqlTest .gtEq (expr.eval row) (low.eval row))
        (sqlTest .ltEq (expr.eval row) (high.eval row))
      Cell.ofTruth (if negated then Kleene.neg inside else inside)
  | .inList expr list negated =>
      let found := Kleene.disjList (evalEquals row (expr.eval row) list)
      Cell.ofTruth (if negated then Kleene.neg found else found)
  | .scalarFunction name args =>
      match args with
      | [base, .literal (.utf8 (some key))] =>
          if name = "get_field" then (base.eval row).getField key
          else external (.scalarFunction name args) row
      | _ => external (.scalarFunction name args) row
  | expr => external expr row
def evalEquals (row : Row) (value : Cell) : List Expr → List Kleene.Truth
  | [] => []
  | item :: rest => sqlTest .eq value (item.eval row) :: evalEquals row value rest
end

def Expr.truth (row : Row) (expr : Expr) : Kleene.Truth := (expr.eval external row).truth

end

end Auger
