import Auger.Expr

set_option autoImplicit false

/-! Translation of DataFusion predicates into MongoDB `$match` documents. -/

namespace Auger

/-- A predicate translated into a Mongo filter document. -/
structure Translated where
  filter : Fields
  /-- The filter is claimed equivalent to the SQL predicate. -/
  exact : Bool
  deriving Repr

namespace Translated

def withExactness (t : Translated) (exact : Bool) : Translated :=
  { filter := t.filter, exact := t.exact && exact }

end Translated

/-- A column reference resolved against the inferred schema. -/
structure ColumnRef where
  path : String
  tag : BsonTag
  dataType : DataType
  mixed : Bool
  deriving Repr

def flip : Operator → Operator
  | .lt => .gt
  | .ltEq => .gtEq
  | .gt => .lt
  | .gtEq => .ltEq
  | other => other

def isLiteral : Expr → Bool
  | .literal _ => true
  | _ => false

/-- Wrap a negated predicate so that documents missing the field are excluded. -/
def excludeNull (path : String) (inner : Fields) : Fields :=
  [("$and", .array [.document inner, .document [(path, .document [("$ne", .null)])]])]

def columnRefOf (field : Field) : ColumnRef :=
  { path := fieldPath field
    tag := BsonTag.of field
    dataType := field.dataType
    mixed := fieldIsMixed field }

def resolveChild (parent : ColumnRef) (key : String) : Option ColumnRef :=
  match parent.dataType with
  | .struct children =>
      (findField key children).map fun child =>
        let c := columnRefOf child
        let path := if c.path = child.name then parent.path ++ "." ++ child.name else c.path
        { c with path, mixed := c.mixed || parent.mixed }
  | _ => none

/-- Resolve an expression to a Mongo field path, following struct field access. -/
def resolveColumn (schema : Schema) : Expr → Option ColumnRef
  | .column name => (findField name schema).map columnRefOf
  | .alias expr _ => resolveColumn schema expr
  | .cast expr dataType =>
      (resolveColumn schema expr).bind fun inner =>
        if dataType = inner.dataType then some inner else none
  | .scalarFunction name args =>
      match args with
      | [base, .literal (.utf8 (some key))] =>
          if name = "get_field" then (resolveColumn schema base).bind fun parent => resolveChild parent key
          else none
      | _ => none
  | _ => none

/-- Emit an integer in the width the column actually stores. -/
def intLiteral (v : Int64) (tag : BsonTag) : Bson :=
  match tag with
  | .int32 =>
      match toI32 v with
      | some small => .int32 small
      | none => .int64 v
  | .double => .double (F64.ofInt v.toInt)
  | _ => .int64 v

def u64ToI64 (v : UInt64) : Option Int64 :=
  if v.toNat < 2 ^ 63 then some (Int64.ofNat v.toNat) else none

def divEuclid (v : Int64) (divisor : Int) : Int64 := Int64.ofInt (v.toInt / divisor)

def scalarToBson (scalar : ScalarValue) (tag : BsonTag) : Option Bson :=
  match scalar with
  | .utf8 (some s) | .largeUtf8 (some s) =>
      if tag = .objectId then (ObjectId.parse s).map .objectId else some (.string s)
  | .boolean (some b) => some (.boolean b)
  | .int8 (some v) => some (intLiteral v.toInt64 tag)
  | .int16 (some v) => some (intLiteral v.toInt64 tag)
  | .int32 (some v) => some (intLiteral v.toInt64 tag)
  | .int64 (some v) => some (intLiteral v tag)
  | .uint8 (some v) => some (intLiteral (Int64.ofNat v.toNat) tag)
  | .uint16 (some v) => some (intLiteral (Int64.ofNat v.toNat) tag)
  | .uint32 (some v) => some (intLiteral (Int64.ofNat v.toNat) tag)
  | .uint64 (some v) => (u64ToI64 v).map fun v => intLiteral v tag
  | .float32 (some v) => some (.double v.toF64)
  | .float64 (some v) => some (.double v)
  | .timestampMillisecond (some ms) _ => some (.dateTime ms)
  | .timestampMicrosecond (some us) _ => some (.dateTime (divEuclid us 1000))
  | .timestampNanosecond (some ns) _ => some (.dateTime (divEuclid ns 1000000))
  | .timestampSecond (some s) _ => (checkedMul64 s.toInt 1000).map .dateTime
  | .date32 (some days) => (checkedMul64 days.toInt 86400000).map .dateTime
  | .date64 (some ms) => some (.dateTime ms)
  -- NULL literals, decimals and every other literal stay with DataFusion.
  | _ => none

/-- Convert a literal expression into the BSON representation the column uses. -/
def literalOf (expr : Expr) (column : ColumnRef) : Option Bson :=
  match expr with
  | .literal scalar => scalarToBson scalar column.tag
  | _ => none

def requireBool (c : ColumnRef) : Option Unit := if c.dataType = .boolean then some () else none

def boolTest (schema : Schema) (expr : Expr) (want : Bool) : Option Translated := do
  let c ← resolveColumn schema expr
  requireBool c
  some { filter := [(c.path, .boolean want)], exact := !c.mixed }

/-- `IS NOT TRUE` and `IS NOT FALSE`: the other truth value, or null. -/
def boolComplement (schema : Schema) (expr : Expr) (other : Bool) : Option Translated := do
  let c ← resolveColumn schema expr
  requireBool c
  some
    { filter := [("$or", .array [.document [(c.path, .boolean other)], .document [(c.path, .null)]])]
      exact := true }

def pushEscaped (c : Char) : List Char :=
  if c ∈ ".^$*+?()[]{}|\\/".toList then ['\\', c] else [c]

/-- The loop of `like_to_regex`; `none` on an unpaired escape. -/
def likeBody (escape : Option Char) : List Char → Option (List Char)
  | [] => some []
  | c :: rest =>
      if some c = escape then
        match rest with
        | [] => none
        | next :: rest => (likeBody escape rest).map (pushEscaped next ++ ·)
      else
        (likeBody escape rest).map
          ((if c = '%' then ".*".toList else if c = '_' then ['.'] else pushEscaped c) ++ ·)

/-- Convert a SQL `LIKE` pattern into an anchored regular expression. -/
def likeToRegex (pattern : String) (escape : Option Char) : Option String :=
  (likeBody escape pattern.toList).map fun body => String.ofList ('^' :: body ++ ['$'])

def patternText : Expr → Option String
  | .literal (.utf8 (some s)) | .literal (.largeUtf8 (some s)) => some s
  | _ => none

def translateLike (schema : Schema) (negated : Bool) (expr pattern : Expr) (escape : Option Char)
    (caseInsensitive : Bool) : Option Translated := do
  let c ← resolveColumn schema expr
  if c.dataType = .utf8 ∨ c.dataType = .largeUtf8 then
    let text ← patternText pattern
    let regex ← likeToRegex text escape
    let options := if caseInsensitive then "is" else "s"
    let matcher : Bson := .document [("$regex", .string regex), ("$options", .string options)]
    let filter :=
      if negated then excludeNull c.path [(c.path, .document [("$not", matcher)])]
      else [(c.path, matcher)]
    some { filter, exact := !c.mixed }
  else none

def mongoOperator : Operator → Option String
  | .eq => some "$eq"
  | .notEq => some "$ne"
  | .lt => some "$lt"
  | .ltEq => some "$lte"
  | .gt => some "$gt"
  | .gtEq => some "$gte"
  | _ => none

/-- `column <op> literal`, after the sides are put in that order. -/
def translateComparison (schema : Schema) (columnExpr : Expr) (op : Operator) (literalExpr : Expr) :
    Option Translated := do
  let c ← resolveColumn schema columnExpr
  let value ← literalOf literalExpr c
  let mongoOp ← mongoOperator op
  let base : Fields := [(c.path, .document [(mongoOp, value)])]
  some { filter := if op = .notEq then excludeNull c.path base else base, exact := !c.mixed }

/-- `{path: {$ne: null}}` for every column referenced, `none` at any other leaf. -/
def collectGuards (schema : Schema) : Expr → Option (List Fields)
  | .column name => guard (.column name)
  | .scalarFunction name args => guard (.scalarFunction name args)
  | .literal _ => some []
  | .binaryExpr left _ right => do
      let l ← collectGuards schema left
      let r ← collectGuards schema right
      some (l ++ r)
  | .not inner | .isNull inner | .isNotNull inner | .isTrue inner | .isFalse inner
  | .isNotTrue inner | .isNotFalse inner => collectGuards schema inner
  | .between expr _ low high => do
      let e ← collectGuards schema expr
      let l ← collectGuards schema low
      let h ← collectGuards schema high
      some (e ++ l ++ h)
  | .inList expr _ _ => collectGuards schema expr
  | .like _ expr _ _ _ => collectGuards schema expr
  | .alias expr _ => collectGuards schema expr
  | _ => none
where
  guard (expr : Expr) : Option (List Fields) :=
    (resolveColumn schema expr).map fun c => [[(c.path, .document [("$ne", .null)])]]

/-- Translate a single predicate; `none` means it cannot be expressed. -/
def translate (schema : Schema) : Expr → Option Translated
  | .binaryExpr left .and right =>
      match translate schema left, translate schema right with
      | some a, some b =>
          some
            { filter := [("$and", .array [.document a.filter, .document b.filter])]
              exact := a.exact && b.exact }
      | some a, none => some (a.withExactness false)
      | none, some b => some (b.withExactness false)
      | none, none => none
  | .binaryExpr left .or right => do
      let a ← translate schema left
      let b ← translate schema right
      some
        { filter := [("$or", .array [.document a.filter, .document b.filter])]
          exact := a.exact && b.exact }
  | .binaryExpr left op right =>
      match isLiteral left, isLiteral right with
      | false, true => translateComparison schema left op right
      | true, false => translateComparison schema right (flip op) left
      | _, _ => none
  | .not inner => do
      let t ← translate schema inner
      let guards ← collectGuards schema inner
      let clauses := .document [("$nor", .array [.document t.filter])] :: guards.map .document
      some { filter := [("$and", .array clauses)], exact := t.exact }
  | .isNull inner => do
      let c ← resolveColumn schema inner
      some { filter := [(c.path, .null)], exact := true }
  | .isNotNull inner => do
      let c ← resolveColumn schema inner
      some { filter := [(c.path, .document [("$ne", .null)])], exact := true }
  | .isTrue inner => boolTest schema inner true
  | .isFalse inner => boolTest schema inner false
  | .isNotTrue inner => boolComplement schema inner false
  | .isNotFalse inner => boolComplement schema inner true
  | .between expr negated low high => do
      let c ← resolveColumn schema expr
      let lo ← literalOf low c
      let hi ← literalOf high c
      let filter :=
        if negated then
          excludeNull c.path
            [("$or", .array [.document [(c.path, .document [("$lt", lo)])],
              .document [(c.path, .document [("$gt", hi)])]])]
        else [(c.path, .document [("$gte", lo), ("$lte", hi)])]
      some { filter, exact := !c.mixed }
  | .inList expr list negated => do
      let c ← resolveColumn schema expr
      let values ← list.mapM fun item => literalOf item c
      let filter :=
        if negated then excludeNull c.path [(c.path, .document [("$nin", .array values)])]
        else [(c.path, .document [("$in", .array values)])]
      some { filter, exact := !c.mixed }
  | .like negated expr pattern escape caseInsensitive =>
      translateLike schema negated expr pattern escape caseInsensitive
  | .column name => boolTest schema (.column name) true
  | .alias expr _ => translate schema expr
  | _ => none

/-- Combine per-filter translations into a single `$match` document. -/
def combine (translations : List Translated) : Option Fields :=
  match translations with
  | [] => none
  | [t] => some t.filter
  | _ => some [("$and", .array (translations.map fun t => .document t.filter))]

end Auger
