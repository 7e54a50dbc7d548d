import Auger.Gateway
import Auger.Splitting

set_option autoImplicit false

/-! Statements acknowledged without running them, in the runs of all clients. -/

namespace Auger

open General Text

section
variable (isAlphanumeric : Char → Bool)

def Message.forEngine (message : Message) : List Text :=
  message.statements.filter fun statement => (handedText isAlphanumeric statement).isSome

/-- The payloads the engine is left with; who sent one does not matter. -/
def engineWork (messages : List (Nat × Message)) : List (List Text) :=
  (messages.map fun sent => sent.2.forEngine isAlphanumeric).filter fun payload => !payload.isEmpty

variable {σ : Type} (ctx : SessionContext σ)

def Server.engine (server : Server σ) : σ × List Call :=
  (server.session, server.calls.filter fun call => call.handed.isSome)

def enginePayload (engine : σ × List Call) (payload : List Text) : σ × List Call :=
  ((runAll isAlphanumeric ctx engine.1 payload).1, engine.2 ++ (runAll isAlphanumeric ctx engine.1 payload).2.1)

theorem run_acknowledged {sql : Text} (acknowledged : handedText isAlphanumeric sql = none) (session : σ) :
    ∃ tag, run isAlphanumeric ctx session sql = (session, ⟨sql, none, .ok (.execution tag)⟩) := by
  rw [handedText] at acknowledged
  rw [run]
  cases intercepted : intercept isAlphanumeric sql with
  | none =>
      rw [intercepted] at acknowledged
      cases acknowledged
  | some outcome =>
      cases outcome with
      | tag tag => exact ⟨tag, rfl⟩
      | rewritten text =>
          rw [intercepted] at acknowledged
          cases acknowledged

/-- A payload does to the engine what its statements for the engine do: one that is only
acknowledged fails nowhere, so that none behind it is left out. -/
theorem runAll_thinned (session : σ) (statements : List Text) :
    let thinned := statements.filter fun statement => (handedText isAlphanumeric statement).isSome
    (runAll isAlphanumeric ctx session statements).1 = (runAll isAlphanumeric ctx session thinned).1 ∧
      ((runAll isAlphanumeric ctx session statements).2.1.filter fun call => call.handed.isSome) =
        (runAll isAlphanumeric ctx session thinned).2.1 := by
  induction statements generalizing session with
  | nil => exact ⟨rfl, rfl⟩
  | cons statement rest ih =>
      cases handed : handedText isAlphanumeric statement with
      | none =>
          obtain ⟨tag, here⟩ := run_acknowledged isAlphanumeric ctx handed session
          obtain ⟨same, calls⟩ := ih session
          rw [List.filter_cons_of_neg (by simp [handed]), runAll, here]
          exact ⟨same, calls⟩
      | some text =>
          rw [List.filter_cons_of_pos (by simp [handed])]
          have kept : ∀ later : List Call,
              (((run isAlphanumeric ctx session statement).2 :: later).filter fun call => call.handed.isSome) =
                (run isAlphanumeric ctx session statement).2 :: later.filter fun call => call.handed.isSome := by
            intro later
            rw [List.filter_cons_of_pos]
            rw [(run_handed isAlphanumeric ctx session statement).2, handed]
            rfl
          obtain ⟨same, calls⟩ := ih (run isAlphanumeric ctx session statement).1
          simp only [runAll]
          cases (run isAlphanumeric ctx session statement).2.answer with
          | error e => exact ⟨rfl, kept []⟩
          | ok response => exact ⟨same, (kept _).trans (congrArg _ calls)⟩

theorem doQuery_thinned (session : σ) (message : Message) :
    (doQuery isAlphanumeric ctx session message).1 =
        (runAll isAlphanumeric ctx session (message.forEngine isAlphanumeric)).1 ∧
      ((doQuery isAlphanumeric ctx session message).2.1.filter fun call => call.handed.isSome) =
        (runAll isAlphanumeric ctx session (message.forEngine isAlphanumeric)).2.1 := by
  cases message with
  | simple query => exact runAll_thinned isAlphanumeric ctx session (splitStatements query)
  | extended statement parameters =>
      rw [doQuery, Message.forEngine, Message.statements]
      split_ifs with bound
      · exact ⟨rfl, rfl⟩
      · -- One statement is a payload of one.
        have alone := runAll_thinned isAlphanumeric ctx session [statement]
        rw [← alone.1, ← alone.2, runAll]
        dsimp only
        cases (run isAlphanumeric ctx session statement).2.answer with
        | error e => exact ⟨rfl, rfl⟩
        | ok response => exact ⟨rfl, rfl⟩

variable {isAlphanumeric} {ctx}

theorem run_engine (server : Server σ) (messages : List (Nat × Message)) :
    (Schedule.run (Server.step isAlphanumeric ctx) server messages).engine =
      Schedule.run (enginePayload isAlphanumeric ctx) server.engine (engineWork isAlphanumeric messages) := by
  induction messages generalizing server with
  | nil => rfl
  | cons sent rest ih =>
      obtain ⟨session, calls⟩ := doQuery_thinned isAlphanumeric ctx server.session sent.2
      have step : (server.step isAlphanumeric ctx sent).engine =
          enginePayload isAlphanumeric ctx server.engine (sent.2.forEngine isAlphanumeric) := by
        simp only [Server.engine, Server.step, enginePayload, List.filter_append, session, calls]
      rw [Schedule.run_cons, ih, step, engineWork, engineWork, List.map_cons]
      cases left : sent.2.forEngine isAlphanumeric with
      | nil => rw [List.filter_cons_of_neg (by simp), enginePayload, runAll, List.append_nil]
      | cons first later => rw [List.filter_cons_of_pos (by simp), Schedule.run_cons]

/-- The calls of a payload are those of single statements, each on some session. -/
theorem runAll_runs (session : σ) (statements : List Text) :
    ∀ call ∈ (runAll isAlphanumeric ctx session statements).2.1,
      ∃ reached statement, call = (run isAlphanumeric ctx reached statement).2 := by
  induction statements generalizing session with
  | nil =>
      intro call member
      cases member
  | cons statement rest ih =>
      intro call member
      simp only [runAll] at member
      cases answered : (run isAlphanumeric ctx session statement).2.answer with
      | error e =>
          rw [answered] at member
          exact ⟨session, statement, List.mem_singleton.mp member⟩
      | ok response =>
          rw [answered] at member
          obtain rfl | later := List.mem_cons.mp member
          · exact ⟨session, statement, rfl⟩
          · exact ih _ call later

theorem doQuery_runs (session : σ) (message : Message) :
    ∀ call ∈ (doQuery isAlphanumeric ctx session message).2.1,
      ∃ reached statement, call = (run isAlphanumeric ctx reached statement).2 := by
  cases message with
  | simple query => exact runAll_runs session (splitStatements query)
  | extended statement parameters =>
      intro call member
      rw [doQuery] at member
      split_ifs at member with bound
      · cases member
      · exact ⟨session, statement, List.mem_singleton.mp member⟩

/-- What was not handed to the engine was answered with a tag. -/
def Tagged (calls : List Call) : Prop :=
  ∀ call ∈ calls, call.handed = none → ∃ tag, call.answer = .ok (.execution tag)

theorem step_tagged {server : Server σ} (sent : Nat × Message) (before : Tagged server.calls) :
    Tagged (server.step isAlphanumeric ctx sent).calls := by
  intro call member kept
  obtain earlier | now := List.mem_append.mp member
  · exact before call earlier kept
  · obtain ⟨reached, statement, rfl⟩ := doQuery_runs server.session sent.2 call now
    rw [(run_handed isAlphanumeric ctx reached statement).2] at kept
    obtain ⟨tag, here⟩ := run_acknowledged isAlphanumeric ctx kept reached
    rw [here]
    exact ⟨tag, rfl⟩

/-- The statements that are only acknowledged are inert in every run of all clients: runs
that leave the same payloads for the engine hand it the same texts, with the same answers
and the same session behind them, whoever sends what else in between. -/
theorem session_inert (ctx : SessionContext σ) (session : σ) (messages others : List (Nat × Message))
    (same : engineWork isAlphanumeric messages = engineWork isAlphanumeric others) :
    (Schedule.run (Server.step isAlphanumeric ctx) (.start session) messages).engine =
        (Schedule.run (Server.step isAlphanumeric ctx) (.start session) others).engine ∧
      Tagged (Schedule.run (Server.step isAlphanumeric ctx) (.start session) messages).calls := by
  refine ⟨by rw [run_engine, run_engine, same], ?_⟩
  refine Schedule.run_keeps (fun server : Server σ => Tagged server.calls) (fun _ sent => step_tagged sent) messages ?_
  intro call member
  cases member

end

/-- Settings and a transaction of one client between the statements of another. -/
def chatter : List (Nat × Message) :=
  [(1, .simple "BEGIN; SET search_path = 'a;b';".toList), (2, .extended "SAVEPOINT s".toList 0),
    (1, .simple "SELECT 1; COMMIT; SELECT 2".toList), (2, .extended "SELECT 3".toList 1)]

/-- An engine that counts the statements it is handed. -/
def countingEngine : SessionContext Nat where
  sql := fun count _ => (count + 1, .ok ())

theorem session_inert_chatter :
    (Schedule.run (Server.step Char.isAlphanum countingEngine) (.start 0) chatter).engine =
        (Schedule.run (Server.step Char.isAlphanum countingEngine) (.start 0)
          [(3, .simple "SELECT 1;SELECT 2".toList)]).engine ∧
      Tagged (Schedule.run (Server.step Char.isAlphanum countingEngine) (.start 0) chatter).calls := by
  apply session_inert
  simp only [engineWork, chatter, Message.forEngine, Message.statements, splitStatements_eq, List.map]
  decide

theorem splitStatements_append {t : Text} (closed : Quote.none.read t = .none) (rest : Text) :
    splitStatements (t ++ ';' :: rest) = splitStatements t ++ splitStatements rest := by
  rw [splitStatements_eq, splitStatements_eq, splitStatements_eq]
  exact quoteSplitter.split_append closed rest

section
variable {isAlphanumeric : Char → Bool} {σ : Type}

theorem forEngine_append {t : Text} (closed : Quote.none.read t = .none) (rest : Text) :
    (Message.simple (t ++ ';' :: rest)).forEngine isAlphanumeric =
      (Message.simple t).forEngine isAlphanumeric ++ (Message.simple rest).forEngine isAlphanumeric := by
  simp only [Message.forEngine, Message.statements, splitStatements_append closed, List.filter_append]

theorem engineWork_append (first second : List (Nat × Message)) :
    engineWork isAlphanumeric (first ++ second) =
      engineWork isAlphanumeric first ++ engineWork isAlphanumeric second := by
  simp only [engineWork, List.map_append, List.filter_append]

/-- No transaction is one: in every run, a payload between statements that begin and end
a transaction, or set what they like, does what the payload does without them, and a
rollback takes none of it back. -/
theorem transaction_inert (ctx : SessionContext σ) (session : σ) (earlier later : List (Nat × Message))
    (client : Nat) {opening body closing : Text}
    (opened : Quote.none.read opening = .none) (ended : Quote.none.read body = .none)
    (begins : (Message.simple opening).forEngine isAlphanumeric = [])
    (ends : (Message.simple closing).forEngine isAlphanumeric = []) :
    (Schedule.run (Server.step isAlphanumeric ctx) (.start session)
        (earlier ++ (client, .simple (opening ++ ';' :: (body ++ ';' :: closing))) :: later)).engine =
      (Schedule.run (Server.step isAlphanumeric ctx) (.start session)
        (earlier ++ (client, .simple body) :: later)).engine := by
  have left : (Message.simple (opening ++ ';' :: (body ++ ';' :: closing))).forEngine isAlphanumeric =
      (Message.simple body).forEngine isAlphanumeric := by
    rw [forEngine_append opened, forEngine_append ended, begins, ends, List.nil_append, List.append_nil]
  rw [run_engine, run_engine, engineWork_append, engineWork_append, engineWork, engineWork, engineWork, List.map_cons,
    List.map_cons, left]

end

theorem transaction_inert_rollback :
    (Schedule.run (Server.step Char.isAlphanum countingEngine) (.start 0)
        ([] ++ (1, .simple ("BEGIN; SET a = ';'".toList ++ ';' :: ("SELECT 'it''s; fine'; SELECT 2".toList ++
          ';' :: " ROLLBACK".toList))) :: chatter)).engine =
      (Schedule.run (Server.step Char.isAlphanum countingEngine) (.start 0)
        ([] ++ (1, .simple "SELECT 'it''s; fine'; SELECT 2".toList) :: chatter)).engine := by
  apply transaction_inert
  · decide
  · decide
  · rw [Message.forEngine, Message.statements, splitStatements_eq]
    decide
  · rw [Message.forEngine, Message.statements, splitStatements_eq]
    decide

end Auger
