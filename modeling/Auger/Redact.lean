import Auger.General.SplitOnce
import Auger.Statements

set_option autoImplicit false

/-! Connection strings as they reach logs, errors and the health endpoint. -/

namespace Auger

open General

/-- Strip credentials from a connection string. -/
def redact (uri : Text) : Text :=
  match splitOnce "://".toList uri with
  | none => uri
  | some (scheme, rest) =>
      match splitOnce ['@'] rest with
      | some (_, host) => scheme ++ "://***@".toList ++ host
      | none => uri

/-- A connection string with credentials. -/
def withCredentials (scheme credentials rest : Text) : Text :=
  scheme ++ "://".toList ++ (credentials ++ '@' :: rest)

/-- No `@` stands behind a `://` of the scheme's own. -/
def PlainScheme (scheme : Text) : Prop :=
  ∀ parts, splitOnce "://".toList scheme = some parts → '@' ∉ parts.2

/-- What credentials hold behind their first `@`, if they have one. -/
def behindAt (credentials : Text) : Option Text := (splitOnce ['@'] credentials).map Prod.snd

def shown (credentials rest : Text) : Text :=
  match behindAt credentials with
  | some more => more ++ '@' :: rest
  | none => rest

theorem split_credentials (credentials rest : Text) :
    ∃ hidden, splitOnce ['@'] (credentials ++ '@' :: rest) = some (hidden, shown credentials rest) := by
  by_cases inside : '@' ∈ credentials
  · obtain ⟨parts, split⟩ := Option.isSome_iff_exists.mp (splitOnce_single_some inside)
    refine ⟨parts.1, ?_⟩
    rw [splitOnce_append split, shown, behindAt, split]
    rfl
  · have absent := splitOnce_single_none inside
    refine ⟨credentials, ?_⟩
    rw [splitOnce_single_skip inside, shown, behindAt, absent]
    simp [splitOnce, List.isPrefixOf]

theorem shown_inj {first second : Text} (rest : Text) :
    shown first rest = shown second rest ↔ behindAt first = behindAt second := by
  constructor
  · intro same
    rw [shown, shown] at same
    cases one : behindAt first <;> cases two : behindAt second <;> rw [one, two] at same
    case mp.some.some => rw [List.append_cancel_right same]
    all_goals
      have length := congrArg List.length same
      simp only [List.length_append, List.length_cons] at length
      omega
  · intro same
    rw [shown, shown, same]

/-- Behind a plain scheme the redacted text is what is shown of the credentials. -/
theorem redact_plain {scheme : Text} (plain : PlainScheme scheme) :
    ∃ first, ∀ credentials rest, redact (withCredentials scheme credentials rest) =
      first ++ "://***@".toList ++ shown credentials rest := by
  cases own : splitOnce "://".toList scheme with
  | none =>
      refine ⟨scheme, fun credentials rest => ?_⟩
      obtain ⟨hidden, split⟩ := split_credentials credentials rest
      have behind := splitOnce_behind own (by decide) (credentials ++ '@' :: rest)
      rw [redact, withCredentials, behind]
      simp only [split]
  | some parts =>
      refine ⟨parts.1, fun credentials rest => ?_⟩
      obtain ⟨hidden, split⟩ := split_credentials credentials rest
      have absent : '@' ∉ parts.2 ++ "://".toList := by
        rw [List.mem_append, not_or]
        exact ⟨plain parts own, by decide⟩
      have behind := splitOnce_append own ("://".toList ++ (credentials ++ '@' :: rest))
      rw [redact, withCredentials, List.append_assoc, behind]
      simp only
      rw [← List.append_assoc parts.2, splitOnce_single_skip absent, split]
      rfl

/-- Behind an `@` of the scheme's own all is shown. -/
theorem redact_leaks {scheme : Text} (leaks : ¬PlainScheme scheme) :
    ∃ first, ∀ credentials rest, redact (withCredentials scheme credentials rest) =
      first ++ (credentials ++ '@' :: rest) := by
  simp only [PlainScheme, not_forall, not_not] at leaks
  obtain ⟨parts, own, inside⟩ := leaks
  obtain ⟨inner, split⟩ := Option.isSome_iff_exists.mp (splitOnce_single_some inside)
  refine ⟨parts.1 ++ "://***@".toList ++ (inner.2 ++ "://".toList), fun credentials rest => ?_⟩
  have behind := splitOnce_append own ("://".toList ++ (credentials ++ '@' :: rest))
  have found := splitOnce_append split ("://".toList ++ (credentials ++ '@' :: rest))
  rw [redact, withCredentials, List.append_assoc, behind]
  simp only [found]
  simp only [List.append_assoc]

/-- Redaction tells two credentials apart exactly when they differ and an `@` of the
scheme uncovers them, or they differ behind their first `@`. -/
theorem redact_hides_iff (scheme first second rest : Text) :
    redact (withCredentials scheme first rest) = redact (withCredentials scheme second rest) ↔
      first = second ∨ (PlainScheme scheme ∧ behindAt first = behindAt second) := by
  by_cases plain : PlainScheme scheme
  · obtain ⟨start, shows⟩ := redact_plain plain
    rw [shows, shows, List.append_cancel_left_eq, shown_inj]
    constructor
    · intro same
      exact .inr ⟨plain, same⟩
    · intro either
      rcases either with same | ⟨-, same⟩
      · rw [same]
      · exact same
  · obtain ⟨start, shows⟩ := redact_leaks plain
    rw [shows, shows, List.append_cancel_left_eq, List.append_cancel_right_eq]
    simp [plain]

/-- A password with an `@` is shown from there on. -/
theorem redact_shows_password :
    ¬∀ scheme first second rest : Text, '@' ∉ rest →
      redact (withCredentials scheme first rest) = redact (withCredentials scheme second rest) := by
  intro hides
  have same := hides "mongodb".toList "user:p@ss".toList "user:secret".toList "host:27017/db".toList (by decide)
  revert same
  decide

theorem redact_hides {scheme : Text} (single : splitOnce "://".toList scheme = none) {first second : Text}
    (one : '@' ∉ first) (two : '@' ∉ second) (rest : Text) :
    redact (withCredentials scheme first rest) = redact (withCredentials scheme second rest) := by
  have plain : PlainScheme scheme := by
    intro parts split
    rw [single] at split
    cases split
  obtain ⟨start, shows⟩ := redact_plain plain
  rw [shows, shows, shown, shown, behindAt, behindAt, splitOnce_single_none one, splitOnce_single_none two]

end Auger
