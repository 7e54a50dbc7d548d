import Auger.Convert
import Mathlib.Data.List.DropRight
import Mathlib.Data.List.Infix

set_option autoImplicit false

/-! The compatibility surface for PostgreSQL clients: how a payload is split into
statements, and which statements are answered or rewritten before the engine sees them. -/

namespace Auger

abbrev Text := List Char

namespace Text

def trimStart (t : Text) : Text := t.dropWhile isRustWhitespace

def trimSemicolons (t : Text) : Text := t.rdropWhile (· == ';')

def upper (t : Text) : Text := t.map Char.toUpper

def lower (t : Text) : Text := t.map Char.toLower

def firstWord (t : Text) : Text := (trimStart t).takeWhile fun c => !isRustWhitespace c

def contains (t : Text) (needle : String) : Prop := needle.toList <:+: t

instance (t : Text) (needle : String) : Decidable (t.contains needle) :=
  inferInstanceAs (Decidable (_ <:+: _))

end Text

open Text

/-- A statement that is more than whitespace. -/
def pushStatement (current : Text) (later : List Text) : List Text :=
  if trim current = [] then later else trim current :: later

/-- The loop of `split_statements`, with the statement read so far and the open quotes. -/
def splitLoop (current : Text) (inSingle inDouble : Bool) : Text → List Text
  | [] => pushStatement current []
  | c :: rest =>
      if c = '\'' ∧ !inDouble then
        -- Two adjacent quotes are an escaped quote, not a close.
        if inSingle ∧ rest.head? = some '\'' then splitLoop (current ++ [c, '\'']) inSingle inDouble (rest.drop 1)
        else splitLoop (current ++ [c]) (!inSingle) inDouble rest
      else if c = '"' ∧ !inSingle then splitLoop (current ++ [c]) inSingle (!inDouble) rest
      else if c = ';' ∧ !inSingle ∧ !inDouble then pushStatement current (splitLoop [] inSingle inDouble rest)
      else splitLoop (current ++ [c]) inSingle inDouble rest
termination_by t => t.length
decreasing_by all_goals simp only [List.length_cons, List.length_drop]; omega

def splitStatements (sql : Text) : List Text := splitLoop [] false false sql

/-- The outcome of intercepting a session statement. -/
inductive Intercepted
  /-- Acknowledged with the command tag; no rows. -/
  | tag (tag : String)
  /-- Executed normally, after replacing it with this SQL. -/
  | rewritten (sql : Text)
  deriving DecidableEq, Repr

def serverVersion : String := "16.6"

/-- The variables a driver reads on connect: spelling, column and value. -/
def showDefaults : List (String × String × String) :=
  [("transaction isolation level", "transaction_isolation", "read committed"),
    ("server_version", "server_version", serverVersion),
    ("server_encoding", "server_encoding", "UTF8"),
    ("client_encoding", "client_encoding", "UTF8"),
    ("standard_conforming_strings", "standard_conforming_strings", "on"),
    ("timezone", "TimeZone", "UTC"), ("time zone", "TimeZone", "UTC"),
    ("datestyle", "DateStyle", "ISO, MDY"),
    ("search_path", "search_path", "\"$user\", public"),
    ("is_superuser", "is_superuser", "off")]

def rewriteShow (sql : Text) : Intercepted :=
  let arg := lower (trim (trimSemicolons (trim ((sql.dropWhile fun c => !isRustWhitespace c).drop 1))))
  let (col, val) := (showDefaults.lookup (String.ofList arg)).getD ("value", "")
  .rewritten ("SELECT '".toList ++ val.toList ++ "' AS \"".toList ++ col.toList ++ ['"'])

/-- System-catalog relations emulated as views in the `pg_catalog` schema. -/
def pgCatalogRelations : List String :=
  ["pg_namespace", "pg_class", "pg_attribute", "pg_type", "pg_index", "pg_roles"]

def qualifier : Text := "pg_catalog.".toList

def identStart (c : Char) : Bool := c.isAlpha || c == '_'

def identChar (c : Char) : Bool := c.isAlphanum || c == '_'

/-- The character before continues an identifier or qualifies one. -/
def attached (prev : Char) : Bool := prev == '.' || identChar prev

def isRelation (ident : Text) : Bool := pgCatalogRelations.any fun r => lower ident == r.toList

/-- The scan of `qualify_bare_pg_catalog`. It is over bytes in the source; bytes outside
ASCII are copied and neither start, continue nor qualify an identifier, as the
characters they encode here. -/
def qualifyLoop (prev : Char) (inQuote : Bool) : Text → Text
  | [] => []
  | c :: rest =>
      if inQuote then c :: qualifyLoop c (c != '\'') rest
      else if c = '\'' then c :: qualifyLoop c true rest
      else if identStart c && !attached prev then
        let ident := c :: rest.takeWhile identChar
        (if isRelation ident then qualifier else []) ++ ident ++
          qualifyLoop (ident.getLastD c) false (rest.dropWhile identChar)
      else c :: qualifyLoop c false rest
termination_by t => t.length
decreasing_by
  all_goals simp only [List.length_cons]
  all_goals first
    | omega
    | exact Nat.lt_succ_of_le (List.dropWhile_sublist _).length_le

/-- Qualify bare references to the emulated `pg_catalog` relations. -/
def qualifyBarePgCatalog (sql : Text) : Text := qualifyLoop ' ' false sql

section
-- `char::is_alphanumeric`, Unicode's classes of letters and numbers.
variable (isAlphanumeric : Char → Bool)

/-- Looking ahead over an identifier, an open parenthesis follows. -/
def isCall (after : Text) : Bool :=
  (trimStart (after.dropWhile fun c => isAlphanumeric c || c == '_')).head? == some '('

/-- Remove `pg_catalog.` qualifiers that precede a function call. -/
def stripPgCatalogPrefix : Text → Text
  | [] => []
  | c :: rest =>
      if qualifier.isPrefixOf (lower (c :: rest)) then
        let after := rest.drop 10
        if isCall isAlphanumeric (lower after) then stripPgCatalogPrefix after
        else c :: rest.take 10 ++ stripPgCatalogPrefix after
      else c :: stripPgCatalogPrefix rest
termination_by t => t.length
decreasing_by all_goals simp only [List.length_cons, List.length_drop]; omega

def sessionTags : List (String × String) :=
  [("SET", "SET"), ("RESET", "RESET"), ("DISCARD", "DISCARD ALL"), ("LISTEN", "LISTEN"), ("UNLISTEN", "UNLISTEN"),
    ("BEGIN", "BEGIN"), ("START", "BEGIN"), ("COMMIT", "COMMIT"), ("END", "COMMIT"), ("ROLLBACK", "ROLLBACK"),
    ("ABORT", "ROLLBACK"), ("SAVEPOINT", "SAVEPOINT"), ("RELEASE", "RELEASE")]

def mutations : List String :=
  ["INSERT", "UPDATE", "DELETE", "MERGE", "TRUNCATE", "DROP", "ALTER", "GRANT", "REVOKE"]

def rewriteCatalog (trimmed : Text) : Text :=
  qualifyBarePgCatalog
    (if (upper trimmed).contains "PG_CATALOG." then stripPgCatalogPrefix isAlphanumeric trimmed else trimmed)

/-- Handle statements that a query engine has no business executing; `none` means that
the caller runs the statement. -/
def intercept (sql : Text) : Option Intercepted :=
  let trimmed := trim (trimSemicolons (trim sql))
  if trimmed = [] then some (.tag "EMPTY")
  else
    let first := String.ofList (firstWord (upper trimmed))
    match sessionTags.lookup first with
    | some tag => some (.tag tag)
    | none =>
        if first = "SHOW" then some (rewriteShow trimmed)
        else if first ∈ mutations then none
        else if (upper trimmed).contains "PG_" then
          let rewritten := rewriteCatalog isAlphanumeric trimmed
          if rewritten ≠ trimmed then some (.rewritten rewritten) else none
        else none

end

end Auger
