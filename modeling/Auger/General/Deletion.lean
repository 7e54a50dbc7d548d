import Mathlib.Data.List.Infix

set_option autoImplicit false

/-! Sequences with the words at some places taken out, and which places those were. -/

namespace Auger.General

variable {α : Type}

/-- Take `n + 1` elements out wherever a test says so. -/
def deleteAt (n : Nat) (test : List α → List α → Bool) (read : List α) : List α → List α
  | [] => []
  | a :: rest =>
      if test read (a :: rest) then deleteAt n test (read ++ (a :: rest).take (n + 1)) (rest.drop n)
      else a :: deleteAt n test (read ++ [a]) rest
termination_by t => t.length
decreasing_by all_goals simp only [List.length_cons, List.length_drop]; omega

section
variable {n : Nat} {test : List α → List α → Bool}

theorem deleteAt_word {read m later : List α} (length : m.length = n + 1) (place : test read (m ++ later) = true) :
    deleteAt n test read (m ++ later) = deleteAt n test (read ++ m) later := by
  cases m with
  | nil => simp at length
  | cons a m =>
      have short : m.length = n := by simpa using length
      rw [List.cons_append] at place ⊢
      rw [deleteAt, if_pos place, List.take_succ_cons, ← short, List.take_left, List.drop_left]

theorem deleteAt_copy {read m later : List α}
    (none : ∀ u v, m = u ++ v → v ≠ [] → test (read ++ u) (v ++ later) = false) :
    deleteAt n test read (m ++ later) = m ++ deleteAt n test (read ++ m) later := by
  induction m generalizing read with
  | nil => rw [List.nil_append, List.nil_append, List.append_nil]
  | cons a m ih =>
      have here := none [] (a :: m) rfl (List.cons_ne_nil a m)
      rw [List.append_nil, List.cons_append] at here
      have behind := @ih (read ++ [a]) (by
        intro u v shape solid
        rw [List.append_assoc, List.singleton_append]
        exact none (a :: u) v (by rw [shape, List.cons_append]) solid)
      rw [List.cons_append, deleteAt, here, if_neg Bool.false_ne_true, behind, List.append_assoc,
        List.singleton_append, List.cons_append]

end

/-- At a place of either test a whole word stands, and no place lies within it. -/
def Spaced (n : Nat) (first second : List α → List α → Bool) : Prop :=
  ∀ read behind, first read behind = true ∨ second read behind = true →
    ∃ m later, behind = m ++ later ∧ m.length = n + 1 ∧
      ∀ u v, m = u ++ v → u ≠ [] → v ≠ [] →
        first (read ++ u) (v ++ later) = false ∧ second (read ++ u) (v ++ later) = false

/-- What is left behind a word taken out does not begin with that word. -/
def Visible (n : Nat) (test : List α → List α → Bool) : Prop :=
  ∀ read m later, m.length = n + 1 → test read (m ++ later) = true → ¬m <+: deleteAt n test (read ++ m) later

/-- The tests agree at every place of a text. -/
def Agree (first second : List α → List α → Bool) (read t : List α) : Prop :=
  ∀ before behind, t = before ++ behind → first (read ++ before) behind = second (read ++ before) behind

section
variable {n : Nat} {first second : List α → List α → Bool}

theorem Agree.here {read t : List α} (agree : Agree first second read t) : first read t = second read t := by
  have here := agree [] t rfl
  rwa [List.append_nil] at here

theorem agree_nil {read : List α} : Agree first second read [] ↔ first read [] = second read [] := by
  constructor
  · exact Agree.here
  · intro same before behind shape
    obtain ⟨rfl, rfl⟩ := List.append_eq_nil_iff.mp shape.symm
    rw [List.append_nil, same]

theorem agree_cons {read : List α} {a : α} {rest : List α} :
    Agree first second read (a :: rest) ↔
      first read (a :: rest) = second read (a :: rest) ∧ Agree first second (read ++ [a]) rest := by
  constructor
  · intro agree
    refine ⟨agree.here, fun before behind shape => ?_⟩
    rw [List.append_assoc]
    exact agree (a :: before) behind (by rw [shape, List.cons_append])
  · rintro ⟨same, later⟩ before behind shape
    cases before with
    | nil =>
        rw [List.nil_append] at shape
        rw [List.append_nil, ← shape, same]
    | cons b before =>
        obtain ⟨rfl, tail⟩ := List.cons.inj shape
        have there := later before behind tail
        rwa [List.append_assoc] at there

theorem agree_append {read m later : List α} :
    Agree first second read (m ++ later) ↔
      (∀ u v, m = u ++ v → v ≠ [] → first (read ++ u) (v ++ later) = second (read ++ u) (v ++ later)) ∧
        Agree first second (read ++ m) later := by
  induction m generalizing read with
  | nil =>
      rw [List.nil_append, List.append_nil, iff_and_self]
      intro _ u v shape solid
      exact absurd (List.append_eq_nil_iff.mp shape.symm).2 solid
  | cons a m ih =>
      rw [List.cons_append, agree_cons, ih, ← and_assoc, List.append_assoc, List.singleton_append]
      refine and_congr_left fun _ => ⟨?_, ?_⟩
      · rintro ⟨same, inside⟩ u v shape solid
        cases u with
        | nil =>
            rw [List.append_nil, ← List.nil_append v, ← shape]
            exact same
        | cons b u =>
            obtain ⟨rfl, tail⟩ := List.cons.inj shape
            have there := inside u v tail solid
            rwa [List.append_assoc] at there
      · intro inside
        refine ⟨?_, fun u v shape solid => ?_⟩
        · have here := inside [] (a :: m) rfl (List.cons_ne_nil a m)
          rwa [List.append_nil] at here
        · rw [List.append_assoc]
          exact inside (a :: u) v (by rw [shape, List.cons_append]) solid

theorem Spaced.symm (spaced : Spaced n first second) : Spaced n second first := by
  intro read behind place
  obtain ⟨m, later, shape, length, none⟩ := spaced read behind place.symm
  exact ⟨m, later, shape, length, fun u v split before solid => (none u v split before solid).symm⟩

theorem deleteAt_ne (spaced : Spaced n first second) (visible : Visible n first) {read behind : List α}
    (taken : first read behind = true) (kept : second read behind = false) :
    deleteAt n first read behind ≠ deleteAt n second read behind := by
  obtain ⟨m, later, rfl, length, none⟩ := spaced read behind (.inl taken)
  have copied : deleteAt n second read (m ++ later) = m ++ deleteAt n second (read ++ m) later := by
    apply deleteAt_copy
    intro u v shape solid
    by_cases start : u = []
    · subst start
      rw [List.append_nil, ← List.nil_append v, ← shape]
      exact kept
    · exact (none u v shape start solid).2
  rw [deleteAt_word length taken, copied]
  intro same
  exact visible read m later length taken ⟨_, same.symm⟩

/-- Tests that agree where a word stands agree on the text exactly when they do behind it. -/
theorem agree_word {read m later : List α} (here : first read (m ++ later) = second read (m ++ later))
    (none : ∀ u v, m = u ++ v → u ≠ [] → v ≠ [] →
      first (read ++ u) (v ++ later) = false ∧ second (read ++ u) (v ++ later) = false) :
    Agree first second read (m ++ later) ↔ Agree first second (read ++ m) later := by
  rw [agree_append, and_iff_right]
  intro u v shape solid
  by_cases start : u = []
  · rw [start, List.nil_append] at shape
    rw [start, List.append_nil, ← shape, here]
  · rw [(none u v shape start solid).1, (none u v shape start solid).2]

theorem deleteAt_eq_iff (spaced : Spaced n first second) (one : Visible n first) (two : Visible n second)
    (read t : List α) : deleteAt n first read t = deleteAt n second read t ↔ Agree first second read t := by
  induction size : t.length using Nat.strong_induction_on generalizing read t with
  | _ length ih =>
    cases known : first read t with
    | true =>
        obtain ⟨m, later, rfl, words, none⟩ := spaced read t (.inl known)
        cases other : second read (m ++ later) with
        | false =>
            rw [iff_false_left (deleteAt_ne spaced one known other)]
            intro agree
            have here := agree.here
            rw [known, other] at here
            cases here
        | true =>
            have shorter : later.length < length := by
              rw [List.length_append] at size
              omega
            rw [deleteAt_word words known, deleteAt_word words other, agree_word (known.trans other.symm) none]
            exact ih later.length shorter (read ++ m) later rfl
    | false =>
        cases other : second read t with
        | true =>
            rw [iff_false_left (deleteAt_ne spaced.symm two other known).symm]
            intro agree
            have here := agree.here
            rw [known, other] at here
            cases here
        | false =>
            cases t with
            | nil =>
                rw [deleteAt, deleteAt, agree_nil, known, other]
                exact iff_of_true rfl rfl
            | cons a rest =>
                have shorter : rest.length < length := by
                  rw [← size]
                  exact Nat.lt_succ_self _
                rw [deleteAt, known, if_neg Bool.false_ne_true, deleteAt, other, if_neg Bool.false_ne_true,
                  List.cons.injEq, and_iff_right rfl, agree_cons, known, other, and_iff_right rfl]
                exact ih rest.length shorter (read ++ [a]) rest rfl

end

end Auger.General
