import Auger.Gateway
import Auger.General.KeyMap
import Auger.General.Utf8

set_option autoImplicit false

/-! Logging in: the messages a client is sent for the name it gives and for the password it
answers with. -/

namespace Auger

open General

inductive AuthMode
  | trust | md5 | scram
  deriving DecidableEq, Repr

inductive FrontendMessage
  | startup (user : Option String)
  | password (response : List UInt8)

inductive BackendMessage
  | authenticationOk
  | authenticationMd5Password (salt : List UInt8)
  | parameterStatus (name value : String)
  | readyForQuery
  | errorResponse (info : ErrorInfo)
  deriving DecidableEq, Repr

structure Pgwire where
  /-- The digest of a user, a password and a salt. -/
  hashMd5Password : String → String → List UInt8 → String
  /-- The error of a wrong response under a name. -/
  invalidPassword : String → ErrorInfo
  /-- The messages of a finished startup. -/
  finishAuthentication : List BackendMessage

/-- A password as pgwire compares it, and the salt it was hashed with. -/
structure Password where
  salt : Option (List UInt8)
  password : List UInt8

/-- Password lookup for the `md5` and `scram` modes. -/
structure ConfiguredAuth where
  users : KeyMap String

inductive StartupVariant
  | trust
  | md5 (auth : ConfiguredAuth)

def startupHandler (mode : AuthMode) (users : KeyMap String) : StartupVariant :=
  match mode with
  | .trust => .trust
  | .md5 | .scram => .md5 ⟨users⟩

/-- How far a connection has come. -/
inductive Startup
  | connected
  | challenged (user : Option String) (cached : Password)
  | established
  | closed

section
variable (pgwire : Pgwire)

/-- The digest under a user's password, as it is compared. -/
def digest (user password : String) (salt : List UInt8) : List UInt8 :=
  utf8 (pgwire.hashMd5Password user password salt).toList

def ConfiguredAuth.getPassword (auth : ConfiguredAuth) (login : Option String) : Except ErrorInfo Password :=
  let user := login.getD ""
  match auth.users.get user with
  | none => .error ⟨"FATAL", "28P01", "password authentication failed for user \"" ++ user ++ "\""⟩
  | some password =>
      let salt := List.replicate 4 0
      .ok ⟨some salt, digest pgwire user password salt⟩

/-- `on_startup`: one message of the client, and what it is sent for it. -/
def StartupVariant.onStartup : StartupVariant → Startup → FrontendMessage → Startup × List BackendMessage
  | .trust, .connected, .startup _ => (.established, pgwire.finishAuthentication)
  -- pgwire looks the password up on the startup message and forwards an error at once.
  | .md5 auth, .connected, .startup user =>
      match auth.getPassword pgwire user with
      | .error info => (.closed, [.errorResponse info])
      | .ok cached => (.challenged user cached, [.authenticationMd5Password (cached.salt.getD [])])
  | .md5 _, .challenged user cached, .password response =>
      if response = cached.password then (.established, pgwire.finishAuthentication)
      else (.closed, [.errorResponse (pgwire.invalidPassword (user.getD ""))])
  | _, state, _ => (state, [])

end

def reply (answer : List UInt8 → List UInt8) : BackendMessage → Option FrontendMessage
  | .authenticationMd5Password salt => some (.password (answer salt))
  | _ => none

/-- All the messages a client is sent from a state on, with its own still to be handled. -/
inductive Exchange (handle : Startup → FrontendMessage → Startup × List BackendMessage)
    (answer : List UInt8 → List UInt8) : Startup → List FrontendMessage → List BackendMessage → Prop
  | quiet (state : Startup) : Exchange handle answer state [] []
  | turn {state : Startup} {message : FrontendMessage} {pending : List FrontendMessage} {rest : List BackendMessage}
      (later : Exchange handle answer (handle state message).1
        (pending ++ (handle state message).2.filterMap (reply answer)) rest) :
      Exchange handle answer state (message :: pending) ((handle state message).2 ++ rest)

/-- The messages of a login under a name. -/
def LoginTrace (pgwire : Pgwire) (mode : AuthMode) (users : KeyMap String) (user : String)
    (answer : List UInt8 → List UInt8) (trace : List BackendMessage) : Prop :=
  Exchange ((startupHandler mode users).onStartup pgwire) answer .connected [.startup (some user)] trace

/-- Every challenge is answered wrongly. -/
def WrongAnswer (pgwire : Pgwire) (users : KeyMap String) (user : String) (answer : List UInt8 → List UInt8) : Prop :=
  ∀ password salt, users.get user = some password → answer salt ≠ digest pgwire user password salt

/-- Messages that are the same up to the user name in an error. -/
inductive Alike (left right : String) : BackendMessage → BackendMessage → Prop
  | same (message : BackendMessage) : Alike left right message message
  | named (severity code before after : String) :
      Alike left right (.errorResponse ⟨severity, code, before ++ left ++ after⟩)
        (.errorResponse ⟨severity, code, before ++ right ++ after⟩)

/-- The logins under two names cannot be told apart. -/
def Indistinguishable (pgwire : Pgwire) (mode : AuthMode) (users : KeyMap String) (left right : String)
    (answer answer' : List UInt8 → List UInt8) : Prop :=
  ∀ trace trace', LoginTrace pgwire mode users left answer trace → LoginTrace pgwire mode users right answer' trace' →
    List.Forall₂ (Alike left right) trace trace'

section
variable {handle : Startup → FrontendMessage → Startup × List BackendMessage} {answer : List UInt8 → List UInt8}

theorem exchange_quiet {state : Startup} {trace : List BackendMessage} :
    Exchange handle answer state [] trace ↔ trace = [] := by
  constructor
  · intro exchange
    cases exchange with
    | quiet => rfl
  · rintro rfl
    exact .quiet state

theorem exchange_turn {state state' : Startup} {message : FrontendMessage} {pending : List FrontendMessage}
    {sent trace : List BackendMessage} (handled : handle state message = (state', sent)) :
    Exchange handle answer state (message :: pending) trace ↔
      ∃ rest, trace = sent ++ rest ∧ Exchange handle answer state' (pending ++ sent.filterMap (reply answer)) rest := by
  have first : (handle state message).1 = state' := by rw [handled]
  have second : (handle state message).2 = sent := by rw [handled]
  constructor
  · intro exchange
    cases exchange with
    | turn later =>
        rw [first, second] at later
        exact ⟨_, by rw [second], later⟩
  · rintro ⟨rest, rfl, later⟩
    rw [← first, ← second] at later
    rw [← second]
    exact .turn later

theorem exchange_last {state state' : Startup} {message : FrontendMessage} {sent trace : List BackendMessage}
    (handled : handle state message = (state', sent)) (silent : sent.filterMap (reply answer) = []) :
    Exchange handle answer state [message] trace ↔ trace = sent := by
  rw [exchange_turn handled, silent]
  constructor
  · rintro ⟨rest, rfl, later⟩
    rw [exchange_quiet.mp later, List.append_nil]
  · rintro rfl
    exact ⟨[], (List.append_nil _).symm, .quiet state'⟩

end

section
variable {pgwire : Pgwire} {mode : AuthMode} {users : KeyMap String} {user : String} {answer : List UInt8 → List UInt8}
  (secured : mode ≠ .trust)
include secured

theorem startupHandler_secured : startupHandler mode users = .md5 ⟨users⟩ := by
  cases mode with
  | trust => exact absurd rfl secured
  | md5 => rfl
  | scram => rfl

/-- A name that is not configured is refused before any challenge. -/
theorem loginTrace_unknown (absent : users.get user = none) {trace : List BackendMessage} :
    LoginTrace pgwire mode users user answer trace ↔
      trace = [.errorResponse ⟨"FATAL", "28P01", "password authentication failed for user \"" ++ user ++ "\""⟩] := by
  rw [LoginTrace, startupHandler_secured secured]
  apply exchange_last
  · rw [StartupVariant.onStartup, ConfiguredAuth.getPassword]
    simp only [Option.getD_some, absent]
    rfl
  · rfl

/-- A configured name is challenged, and refused after the response. -/
theorem loginTrace_known {password : String} (found : users.get user = some password)
    (wrong : WrongAnswer pgwire users user answer) {trace : List BackendMessage} :
    LoginTrace pgwire mode users user answer trace ↔
      trace = [.authenticationMd5Password [0, 0, 0, 0], .errorResponse (pgwire.invalidPassword user)] := by
  have looked : ConfiguredAuth.getPassword pgwire ⟨users⟩ (some user) =
      .ok ⟨some [0, 0, 0, 0], digest pgwire user password [0, 0, 0, 0]⟩ := by
    simp only [ConfiguredAuth.getPassword, Option.getD_some, found]
    rfl
  have challenged : StartupVariant.onStartup pgwire (.md5 ⟨users⟩) .connected (.startup (some user)) =
      (.challenged (some user) ⟨some [0, 0, 0, 0], digest pgwire user password [0, 0, 0, 0]⟩,
        [.authenticationMd5Password [0, 0, 0, 0]]) := by
    simp only [StartupVariant.onStartup, looked, Option.getD_some]
  have refused : StartupVariant.onStartup pgwire (.md5 ⟨users⟩)
      (.challenged (some user) ⟨some [0, 0, 0, 0], digest pgwire user password [0, 0, 0, 0]⟩)
      (.password (answer [0, 0, 0, 0])) = (.closed, [.errorResponse (pgwire.invalidPassword user)]) := by
    simp only [StartupVariant.onStartup, if_neg (wrong password [0, 0, 0, 0] found), Option.getD_some]
  rw [LoginTrace, startupHandler_secured secured, exchange_turn challenged]
  constructor
  · rintro ⟨rest, rfl, later⟩
    rw [(exchange_last refused rfl).mp later]
    rfl
  · rintro rfl
    exact ⟨_, rfl, (exchange_last refused rfl).mpr rfl⟩

end

/-- Two names are told apart exactly when one of them is configured and the other is not,
where pgwire's own error says no more than the name. -/
theorem indistinguishable_iff {pgwire : Pgwire} {mode : AuthMode} (secured : mode ≠ .trust) {users : KeyMap String}
    {left right : String} {answer answer' : List UInt8 → List UInt8}
    (named : Alike left right (.errorResponse (pgwire.invalidPassword left))
      (.errorResponse (pgwire.invalidPassword right)))
    (wrong : WrongAnswer pgwire users left answer) (wrong' : WrongAnswer pgwire users right answer') :
    Indistinguishable pgwire mode users left right answer answer' ↔
      (users.get left).isSome = (users.get right).isSome := by
  cases known : users.get left with
  | none =>
      have first := @loginTrace_unknown pgwire mode users left answer secured known
      cases known' : users.get right with
      | none =>
          apply iff_of_true _ rfl
          intro trace trace' logged logged'
          rw [first.mp logged, (loginTrace_unknown secured known').mp logged']
          exact .cons (.named "FATAL" "28P01" "password authentication failed for user \"" "\"") .nil
      | some password =>
          apply iff_of_false _ Bool.false_ne_true
          intro alike
          have lengths := (alike _ _ (first.mpr rfl) ((loginTrace_known secured known' wrong').mpr rfl)).length_eq
          cases lengths
  | some password =>
      have first := @loginTrace_known pgwire mode users left answer secured password known wrong
      cases known' : users.get right with
      | none =>
          apply iff_of_false _ Bool.false_ne_true.symm
          intro alike
          have lengths := (alike _ _ (first.mpr rfl) ((loginTrace_unknown secured known').mpr rfl)).length_eq
          cases lengths
      | some password' =>
          apply iff_of_true _ rfl
          intro trace trace' logged logged'
          rw [first.mp logged, (loginTrace_known secured known' wrong').mp logged']
          exact .cons (.same _) (.cons named .nil)

/-- Whatever the table, a configured name and another one are told apart by a wrong
response, since only the configured one is ever challenged. -/
theorem login_reveals (pgwire : Pgwire) (mode : AuthMode) (secured : mode ≠ .trust) (users : KeyMap String)
    (user stranger password : String) (found : users.get user = some password) (absent : users.get stranger = none)
    (answer answer' : List UInt8 → List UInt8) (wrong : WrongAnswer pgwire users user answer) :
    ¬Indistinguishable pgwire mode users user stranger answer answer' := by
  intro alike
  have known := (@loginTrace_known pgwire mode users user answer secured password found wrong _).mpr rfl
  have unknown := (@loginTrace_unknown pgwire mode users stranger answer' secured absent _).mpr rfl
  have lengths := (alike _ _ known unknown).length_eq
  cases lengths

/-- The digest of the one configured user, under a salt of zeros. -/
def samplePgwire : Pgwire where
  hashMd5Password _ _ _ := "md5d5892e05ed854e3687f1ffefc3977bf9"
  invalidPassword user := ⟨"FATAL", "28P01", "password authentication failed for user \"" ++ user ++ "\""⟩
  finishAuthentication := [.authenticationOk, .readyForQuery]

def sampleUsers : KeyMap String := KeyMap.empty.insert "alice" "secret"

theorem samplePgwire_wrong (user : String) : WrongAnswer samplePgwire sampleUsers user fun _ => [] := by
  intro password salt _ same
  change [] = utf8 "md5d5892e05ed854e3687f1ffefc3977bf9".toList at same
  exact absurd same (by decide)

theorem login_reveals_alice :
    ¬Indistinguishable samplePgwire .scram sampleUsers "alice" "mallory" (fun _ => []) (fun _ => []) :=
  login_reveals samplePgwire .scram (by decide) sampleUsers "alice" "mallory" "secret" rfl rfl _ _
    (samplePgwire_wrong "alice")

/-- Of two strangers neither is challenged. -/
example : Indistinguishable samplePgwire .md5 sampleUsers "mallory" "trudy" (fun _ => []) (fun _ => []) :=
  (indistinguishable_iff (by decide) (.named "FATAL" "28P01" "password authentication failed for user \"" "\"")
    (samplePgwire_wrong _) (samplePgwire_wrong _)).mpr rfl

/-- Probing tells the configured name from the other. -/
theorem login_probed : ¬∀ (pgwire : Pgwire) (mode : AuthMode), mode ≠ .trust → ∀ (users : KeyMap String)
    (user stranger password : String), users.get user = some password → users.get stranger = none →
    ∀ answer answer' : List UInt8 → List UInt8, WrongAnswer pgwire users user answer →
      WrongAnswer pgwire users stranger answer' →
      Indistinguishable pgwire mode users user stranger answer answer' := by
  intro all
  have alike := all samplePgwire .md5 (by decide) sampleUsers "alice" "mallory" "secret" rfl rfl (fun _ => [])
    (fun _ => []) (samplePgwire_wrong _) (samplePgwire_wrong _)
  have same := (indistinguishable_iff (by decide)
    (.named "FATAL" "28P01" "password authentication failed for user \"" "\"") (samplePgwire_wrong _)
    (samplePgwire_wrong _)).mp alike
  exact absurd same (by decide)

end Auger
