import Auger.Convert
import Mathlib.Data.List.Lex

set_option autoImplicit false

/-! What MongoDB does with the documents this program sends: the cross-type
order of values, dotted paths, and the operators of `$match`. -/

namespace Auger

namespace Bson

def typeClass : Bson → Nat
  | .minKey => 0
  | .undefined | .null => 5
  | .double _ | .int32 _ | .int64 _ | .decimal128 _ => 10
  | .string _ | .symbol _ => 15
  | .document _ => 20
  | .array _ => 25
  | .binary _ _ => 30
  | .objectId _ => 35
  | .boolean _ => 40
  | .dateTime _ => 45
  | .timestamp _ _ => 47
  | .regularExpression _ _ => 50
  | .dbPointer _ _ => 55
  | .javaScriptCode _ => 60
  | .javaScriptCodeWithScope _ _ => 65
  | .maxKey => 127

def isNaN : Bson → Bool
  | .double x => x.isNan
  | .decimal128 .nan => true
  | _ => false

/-- The class within which `$match` orders values: NaN has one of its own, right below
the other numbers. -/
def matchClass (value : Bson) : Nat := 2 * value.typeClass + if value.isNaN then 0 else 1

/-- What a path can go on through. -/
def isNested : Bson → Bool
  | .document _ | .array _ => true
  | _ => false

end Bson

def byteTokens : List Nat → List ℚ
  | [] => [0]
  | b :: rest => ((b + 1 : Nat) : ℚ) :: byteTokens rest

def textTokens (s : String) : List ℚ := byteTokens (textBytes s)

/-- A double on the number line: NaN below everything, then the infinities outside. -/
def F64.numberTokens (x : F64) : List ℚ :=
  if x.isNan then [0]
  else if x.isInfinite then (if x.negative then [1] else [3])
  else [2, x.toRat]

def decimalRat (negative : Bool) (coefficient : Nat) (exponent : Int) : ℚ :=
  let signed : Int := if negative then -(coefficient : Int) else coefficient
  if 0 ≤ exponent then ((signed * 10 ^ exponent.toNat : Int) : ℚ)
  else mkRat signed (10 ^ (-exponent).toNat)

def Decimal128.numberTokens : Decimal128 → List ℚ
  | .nan => [0]
  | .infinity negative => if negative then [1] else [3]
  | .finite negative coefficient exponent => [2, decimalRat negative coefficient exponent]

mutual
/-- Tokens whose lexicographic order is MongoDB's order within one class. -/
def Bson.payload : Bson → List ℚ
  | .double x => x.numberTokens
  | .int32 v => [2, (v.toInt : ℚ)]
  | .int64 v => [2, (v.toInt : ℚ)]
  | .decimal128 d => d.numberTokens
  | .string s => textTokens s
  | .symbol s => textTokens s
  | .document fields => fieldTokens fields
  | .array items => itemTokens items
  | .binary subtype bytes =>
      ((bytes.length : Nat) : ℚ) :: ((subtype.toNat : Nat) : ℚ) :: bytes.map fun b => ((b.toNat : Nat) : ℚ)
  | .objectId id => [((id.value.toNat : Nat) : ℚ)]
  | .boolean b => [if b then 1 else 0]
  | .dateTime millis => [(millis.toInt : ℚ)]
  | .timestamp time increment => [((time.toNat : Nat) : ℚ), ((increment.toNat : Nat) : ℚ)]
  | .regularExpression pattern options => textTokens pattern ++ textTokens options
  | .dbPointer collection id => textTokens collection ++ [((id.value.toNat : Nat) : ℚ)]
  | .javaScriptCode code => textTokens code
  | .javaScriptCodeWithScope code scope => textTokens code ++ fieldTokens scope
  | .null | .undefined | .maxKey | .minKey => []
def fieldTokens : List (String × Bson) → List ℚ
  | [] => [0]
  | (key, value) :: rest =>
      1 :: ((value.typeClass : Nat) : ℚ) :: textTokens key ++ value.payload ++ fieldTokens rest
def itemTokens : List Bson → List ℚ
  | [] => [0]
  | value :: rest => 1 :: ((value.typeClass : Nat) : ℚ) :: value.payload ++ itemTokens rest
end

/-- The cross-type sort key: the class first, then the order within it. -/
def Bson.sortKey (value : Bson) : List ℚ := ((value.typeClass : Nat) : ℚ) :: value.payload

/-- A reached value matches through itself and, for an array, through its items. -/
def leafCandidates : Bson → List Bson
  | .array items => .array items :: items
  | value => [value]

/-- The values MongoDB tests at a path below `value`; an absent one counts as null.
Arrays met on the way are searched through their embedded documents, and a part that
is a position in the array also names the item there. -/
def reach : List String → Bson → List Bson
  | [], value => leafCandidates value
  | part :: parts, .document fields =>
      match fields.lookup part with
      | some next => reach parts next
      | none => [.null]
  | part :: parts, .array items =>
      items.zipIdx.flatMap fun (item, i) =>
        (match item with
          | .document fields =>
              match fields.lookup part with
              | some next => reach parts next
              | none => [.null]
          | _ => []) ++
        if part = toString i then
          if parts.isEmpty then [item] else if item.isNested then reach parts item else []
        else []
  | _ :: _, _ => [.null]

def reachPath (doc : Fields) (path : String) : List Bson := reach (pathParts path) (.document doc)

/-- Equality within a class; null, undefined and absent are one value. -/
def equalTo (operand candidate : Bson) : Bool := decide (candidate.sortKey = operand.sortKey)

/-- An order comparison accepts only values of the operand's own class. -/
def belowOperand (operand candidate : Bson) : Bool :=
  decide (candidate.matchClass = operand.matchClass ∧ candidate.sortKey < operand.sortKey)

def aboveOperand (operand candidate : Bson) : Bool :=
  decide (candidate.matchClass = operand.matchClass ∧ operand.sortKey < candidate.sortKey)

/-- The comparison operators; an unknown operator accepts nothing. -/
def comparisonAccepts (op : String) (operand : Bson) (candidates : List Bson) : Bool :=
  if op = "$eq" then candidates.any (equalTo operand)
  else if op = "$ne" then !candidates.any (equalTo operand)
  else if op = "$lt" then candidates.any (belowOperand operand)
  else if op = "$lte" then candidates.any fun c => equalTo operand c || belowOperand operand c
  else if op = "$gt" then candidates.any (aboveOperand operand)
  else if op = "$gte" then candidates.any fun c => equalTo operand c || aboveOperand operand c
  else false

/-- The regular-expression engine: pattern, options, subject. -/
structure RegexEngine where
  isMatch : String → String → String → Bool

def Bson.asText : Bson → Option String
  | .string s => some s
  | _ => none

section
variable (regex : RegexEngine)

def regexAccepts (pattern options : String) : Bson → Bool
  | .string s => regex.isMatch pattern options s
  | _ => false

def startsWithDollar (key : String) : Bool := key.toList.head? == some '$'

/-- A condition value that holds operators rather than a literal. -/
def isOperatorDoc : Fields → Bool
  | (key, _) :: _ => startsWithDollar key
  | [] => false

def optionsOf (ops : Fields) : String := ((ops.lookup "$options").bind Bson.asText).getD ""

mutual
/-- One operator against the values reached; `ops` is the document it stands in. -/
def operatorAccepts (op : String) (ops : Fields) : Bson → List Bson → Bool
  | .array values, candidates =>
      if op = "$in" then values.any fun v => candidates.any (equalTo v)
      else if op = "$nin" then !(values.any fun v => candidates.any (equalTo v))
      else comparisonAccepts op (.array values) candidates
  | .document inner, candidates =>
      if op = "$not" then !operatorsAccept inner inner candidates
      else comparisonAccepts op (.document inner) candidates
  | operand, candidates =>
      if op = "$regex" then candidates.any (regexAccepts regex (operand.asText.getD "") (optionsOf ops))
      else if op = "$options" then true
      else comparisonAccepts op operand candidates
def operatorsAccept (ops : Fields) : Fields → List Bson → Bool
  | [], _ => true
  | (op, operand) :: rest, candidates =>
      operatorAccepts op ops operand candidates && operatorsAccept ops rest candidates
end

/-- The condition standing at a path. -/
def conditionAccepts : Bson → List Bson → Bool
  | .document ops, candidates =>
      if isOperatorDoc ops then operatorsAccept regex ops ops candidates
      else candidates.any (equalTo (.document ops))
  | literal, candidates => candidates.any (equalTo literal)

mutual
def accepts : Fields → Fields → Bool
  | [], _ => true
  | (key, condition) :: rest, doc => clauseAccepts key condition doc && accepts rest doc
def clauseAccepts (key : String) : Bson → Fields → Bool
  | .array clauses, doc =>
      if key = "$and" then allAccept clauses doc
      else if key = "$or" then anyAccepts clauses doc
      else if key = "$nor" then !anyAccepts clauses doc
      else !startsWithDollar key && conditionAccepts regex (.array clauses) (reachPath doc key)
  | condition, doc =>
      !startsWithDollar key && conditionAccepts regex condition (reachPath doc key)
def allAccept : List Bson → Fields → Bool
  | [], _ => true
  | .document clause :: rest, doc => accepts clause doc && allAccept rest doc
  | _ :: _, _ => false
def anyAccepts : List Bson → Fields → Bool
  | [], _ => false
  | .document clause :: rest, doc => accepts clause doc || anyAccepts rest doc
  | _ :: _, _ => false
end

end

end Auger
