import Auger.Console
import Auger.Wire

set_option autoImplicit false

/-! The answer of the query console: the rows it keeps of what the engine fetched, and
whether it says that there were more. -/

namespace Auger

open Text

/-- What the console calls of arrow. -/
structure Display where
  /-- `ArrayFormatter::try_new` and its `value`, the text of each row. -/
  arrayFormatter : OutputArray → Except String (Nat → String)
  /-- `to_string` of a data type. -/
  typeName : OutputType → String

inductive Work
  | elapsed
  | failed (error : String)
  | collected (batches : List OutputBatch)

/-- The answer, but for the time it took. -/
structure QueryResponse where
  columns : List String
  types : List String
  rows : List (List String)
  rowCount : Nat
  truncated : Bool
  deriving DecidableEq, Repr

/-- The rows kept so far, and whether the loops were left because another one came. -/
structure KeptRows where
  rows : List (List String)
  truncated : Bool

/-- One past the cap, so that the client can be told the result was truncated. -/
def ConsoleQuery.fetch (q : ConsoleQuery) : Option Nat := if q.bounded then some (q.cap + 1) else none

/-- The loop over the rows of a batch, by the numbers of those left. -/
def rowLoop (cap : Nat) (fmts : List (Nat → String)) : List Nat → List (List String) → KeptRows
  | [], rows => ⟨rows, false⟩
  | r :: rest, rows =>
      if cap ≤ rows.length then ⟨rows, true⟩
      else rowLoop cap fmts rest (rows ++ [fmts.map fun f => f r])

section
variable (display : Display)

/-- The loop over the batches; the loop inside may leave both. -/
def batchLoop (cap : Nat) : List OutputBatch → List (List String) → Except ApiError KeptRows
  | [], rows => .ok ⟨rows, false⟩
  | batch :: rest, rows =>
      match batch.columns.mapM display.arrayFormatter with
      | .error e => .error ⟨500, e⟩
      | .ok fmts =>
          let kept := rowLoop cap fmts (List.range batch.numRows) rows
          if kept.truncated then .ok kept else batchLoop cap rest kept.rows

/-- The end of `query`, from the engine's answer to the client's. -/
def respond (q : ConsoleQuery) : Work → Except ApiError QueryResponse
  | .elapsed => .error ⟨504, "query exceeded " ++ toString q.timeout ++ "s"⟩
  | .failed e => .error ⟨400, e⟩
  | .collected batches =>
      let schema := (batches.head?.map OutputBatch.schema).getD []
      (batchLoop display q.cap batches []).map fun kept =>
        { columns := schema.map Prod.fst
          types := schema.map fun field => display.typeName field.2
          rows := kept.rows
          rowCount := kept.rows.length
          truncated := kept.truncated }

/-- The rows of a batch as arrow displays them. -/
def batchTexts (batch : OutputBatch) : Except String (List (List String)) :=
  (batch.columns.mapM display.arrayFormatter).map fun fmts =>
    (List.range batch.numRows).map fun r => fmts.map fun f => f r

/-- Batches arrow can display, which divide the first rows of the result among them. -/
def Fetched (limit : Option Nat) (result : List (List String)) (batches : List OutputBatch) : Prop :=
  ∃ texts, List.Forall₂ (fun batch rows => batchTexts display batch = .ok rows) batches texts ∧
    texts.flatten = match limit with
      | some n => result.take n
      | none => result

end

theorem rowLoop_eq {cap : Nat} (fmts : List (Nat → String)) (numbers : List Nat) {rows : List (List String)}
    (room : rows.length ≤ cap) :
    rowLoop cap fmts numbers rows =
      ⟨(rows ++ numbers.map fun r => fmts.map fun f => f r).take cap, decide (cap < rows.length + numbers.length)⟩ := by
  induction numbers generalizing rows with
  | nil =>
      rw [rowLoop, List.map_nil, List.append_nil, List.take_of_length_le room, List.length_nil, Nat.add_zero,
        decide_eq_false (not_lt.mpr room)]
  | cons r rest ih =>
      rw [rowLoop, List.map_cons, List.length_cons]
      by_cases full : cap ≤ rows.length
      · have same : cap = rows.length := le_antisymm full room
        have more : cap < rows.length + (rest.length + 1) := by omega
        rw [if_pos full, List.take_left' same.symm, decide_eq_true more]
      · have grown : (rows ++ [fmts.map fun f => f r]).length = rows.length + 1 := List.length_append
        have count : rows.length + 1 + rest.length = rows.length + (rest.length + 1) := by omega
        rw [if_neg full, ih (by omega), List.append_assoc, List.singleton_append, grown, count]

section
variable {display : Display}

theorem batchTexts_formatters {batch : OutputBatch} {texts : List (List String)}
    (shown : batchTexts display batch = .ok texts) :
    ∃ fmts, batch.columns.mapM display.arrayFormatter = .ok fmts ∧
      texts = (List.range batch.numRows).map fun r => fmts.map fun f => f r := by
  rw [batchTexts] at shown
  cases formatted : batch.columns.mapM display.arrayFormatter with
  | error e =>
      rw [formatted] at shown
      cases shown
  | ok fmts =>
      rw [formatted] at shown
      exact ⟨fmts, rfl, (Except.ok.inj shown).symm⟩

theorem batchLoop_step {cap : Nat} {batch : OutputBatch} {texts : List (List String)}
    (shown : batchTexts display batch = .ok texts) (rest : List OutputBatch) {rows : List (List String)}
    (room : rows.length ≤ cap) :
    batchLoop display cap (batch :: rest) rows =
      if cap < rows.length + texts.length then .ok ⟨(rows ++ texts).take cap, true⟩
      else batchLoop display cap rest (rows ++ texts) := by
  obtain ⟨fmts, formatted, rfl⟩ := batchTexts_formatters shown
  have kept := rowLoop_eq fmts (List.range batch.numRows) room
  rw [batchLoop, formatted]
  dsimp only
  rw [kept, List.length_map]
  by_cases excess : cap < rows.length + (List.range batch.numRows).length
  · rw [decide_eq_true excess, if_pos rfl, if_pos excess]
  · rw [decide_eq_false excess, if_neg Bool.false_ne_true, if_neg excess, List.take_of_length_le]
    rw [List.length_append, List.length_map]
    exact not_lt.mp excess

theorem batchLoop_eq {cap : Nat} {batches : List OutputBatch} {texts : List (List (List String))}
    (shown : List.Forall₂ (fun batch rows => batchTexts display batch = .ok rows) batches texts)
    {rows : List (List String)} (room : rows.length ≤ cap) :
    batchLoop display cap batches rows =
      .ok ⟨(rows ++ texts.flatten).take cap, decide (cap < rows.length + texts.flatten.length)⟩ := by
  induction shown generalizing rows with
  | nil =>
      rw [batchLoop, List.flatten_nil, List.append_nil, List.take_of_length_le room, List.length_nil, Nat.add_zero,
        decide_eq_false (not_lt.mpr room)]
  | @cons batch first rest later one _ ih =>
      rw [batchLoop_step one rest room, List.flatten_cons, List.length_append, ← List.append_assoc, ← Nat.add_assoc]
      by_cases excess : cap < rows.length + first.length
      · have enough : cap ≤ (rows ++ first).length := by
          rw [List.length_append]
          exact excess.le
        rw [if_pos excess, List.take_append_of_le_length enough, decide_eq_true (Nat.lt_add_right _ excess)]
      · have still : (rows ++ first).length ≤ cap := by
          rw [List.length_append]
          exact not_lt.mp excess
        rw [if_neg excess, ih still, List.length_append]

/-- A batch that cannot be displayed is an error once it is reached, also behind a full answer. -/
theorem batchLoop_unshown {cap : Nat} {before : List OutputBatch} {texts : List (List (List String))}
    (shown : List.Forall₂ (fun batch rows => batchTexts display batch = .ok rows) before texts)
    {batch : OutputBatch} {e : String} (unshown : batch.columns.mapM display.arrayFormatter = .error e)
    (after : List OutputBatch) {rows : List (List String)} (reached : rows.length + texts.flatten.length ≤ cap) :
    batchLoop display cap (before ++ batch :: after) rows = .error ⟨500, e⟩ := by
  induction shown generalizing rows with
  | nil => rw [List.nil_append, batchLoop, unshown]
  | @cons one first rest later displayed _ ih =>
      rw [List.flatten_cons, List.length_append] at reached
      rw [List.cons_append, batchLoop_step displayed _ (by omega), if_neg (by omega)]
      apply ih
      rw [List.length_append]
      omega

theorem respond_fetched {q : ConsoleQuery} {result : List (List String)} {batches : List OutputBatch}
    (fetched : Fetched display q.fetch result batches) :
    ∃ response, respond display q (.collected batches) = .ok response ∧
      response.rows = result.take (min result.length q.cap) ∧ response.rowCount = min result.length q.cap ∧
      (response.truncated = true ↔ q.cap < result.length) := by
  obtain ⟨texts, shown, divided⟩ := fetched
  have kept := batchLoop_eq shown (show ([] : List (List String)).length ≤ q.cap from Nat.zero_le _)
  have rows : texts.flatten.take q.cap = result.take (min result.length q.cap) ∧
      (q.cap < texts.flatten.length ↔ q.cap < result.length) := by
    rw [divided, ConsoleQuery.fetch, min_comm, ← List.take_eq_take_min]
    by_cases bounded : q.bounded = true
    · rw [if_pos bounded]
      dsimp only
      rw [List.take_take, min_eq_left (Nat.le_succ q.cap), List.length_take]
      exact ⟨rfl, by omega⟩
    · rw [if_neg bounded]
      exact ⟨rfl, Iff.rfl⟩
  refine ⟨_, by rw [respond, kept]; rfl, rows.1, ?_, ?_⟩
  · change (texts.flatten.take q.cap).length = _
    rw [rows.1, List.length_take]
    omega
  · rw [decide_eq_true_iff, List.length_nil, Nat.zero_add]
    exact rows.2

end

theorem query_caps {config : ServerConfig} {req : QueryRequest} {q : ConsoleQuery}
    (accepted : query config req = .ok q) :
    q.cap = max 1 (min (req.limit.getD defaultRows) maxRows) ∧
      q.bounded = decide (String.ofList (upper (firstWord (bareStatement req.sql))) ∈ ["SELECT", "WITH"]) := by
  rw [query] at accepted
  dsimp only at accepted
  split_ifs at accepted
  all_goals
    rw [← Except.ok.inj accepted]
    constructor
    · with_reducible rfl
    · with_reducible rfl

/-- A `SELECT` or a `WITH` is answered with the first rows of its result, as many as the
clamped limit allows, and is marked as truncated exactly when the result has more. -/
theorem query_truncates (config : ServerConfig) (req : QueryRequest) (q : ConsoleQuery)
    (accepted : query config req = .ok q)
    (reads : String.ofList (upper (firstWord (bareStatement req.sql))) ∈ ["SELECT", "WITH"]) (display : Display)
    (result : List (List String)) (batches : List OutputBatch) (fetched : Fetched display q.fetch result batches) :
    q.cap = max 1 (min (req.limit.getD 1000) 10000) ∧ q.fetch = some (q.cap + 1) ∧
      ∃ response, respond display q (.collected batches) = .ok response ∧
        response.rows = result.take (min result.length q.cap) ∧ response.rowCount = min result.length q.cap ∧
        (response.truncated = true ↔ q.cap < result.length) := by
  obtain ⟨cap, bounded⟩ := query_caps accepted
  rw [decide_eq_true reads] at bounded
  refine ⟨cap, ?_, respond_fetched fetched⟩
  rw [ConsoleQuery.fetch, if_pos bounded]

/-- Texts are displayed as they are. -/
def textDisplay : Display where
  arrayFormatter
    | .utf8 values => .ok fun row => (values[row]?.join).getD ""
    | _ => .error "unsupported"
  typeName _ := "Utf8"

def names (values : List String) : OutputBatch where
  schema := [("name", .utf8)]
  columns := [.utf8 (values.map some)]
  numRows := values.length
  types := rfl
  valid := by simp [OutputType.Valid]

/-- Three rows under a limit of two, the third in a batch behind an empty one. -/
theorem query_truncates_names :
    ∃ response, respond textDisplay ⟨"SELECT name FROM users".toList, 2, true, 30⟩
        (.collected [names ["Ann", "Bob"], names [], names ["Cid"]]) = .ok response ∧
      response.rows = [["Ann"], ["Bob"]] ∧ response.rowCount = 2 ∧ (response.truncated = true ↔ 2 < 3) := by
  have fetched : Fetched textDisplay (some 3) [["Ann"], ["Bob"], ["Cid"]]
      [names ["Ann", "Bob"], names [], names ["Cid"]] :=
    ⟨[[["Ann"], ["Bob"]], [], [["Cid"]]], .cons rfl (.cons rfl (.cons rfl .nil)), rfl⟩
  exact (query_truncates ⟨true, 0⟩ ⟨"SELECT name FROM users;".toList, some 2⟩ _ rfl (by decide) textDisplay
    [["Ann"], ["Bob"], ["Cid"]] _ fetched).2.2

end Auger
