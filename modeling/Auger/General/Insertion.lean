import Mathlib.Data.List.Infix

set_option autoImplicit false

/-! Sequences with a word put in at some places, and which places those were. -/

namespace Auger.General

variable {α : Type}

/-- The last sequence is the second with the word put in front of some of its elements,
each time where what was read and what follows allow it. -/
inductive Inserted (word : List α) (allowed : List α → List α → Prop) : List α → List α → List α → Prop
  | nil (read : List α) : Inserted word allowed read [] []
  | copy {read rest out : List α} (a : α) (later : Inserted word allowed (read ++ [a]) rest out) :
      Inserted word allowed read (a :: rest) (a :: out)
  | insert {read rest out : List α} (a : α) (here : allowed read (a :: rest))
      (later : Inserted word allowed (read ++ [a]) rest out) :
      Inserted word allowed read (a :: rest) (word ++ a :: out)

/-- Put the word in wherever a test says so. -/
def insertAt (word : List α) (test : List α → List α → Bool) (read : List α) : List α → List α
  | [] => []
  | a :: rest => (if test read (a :: rest) then word else []) ++ a :: insertAt word test (read ++ [a]) rest

section
variable {word : List α} {allowed : List α → List α → Prop} {test : List α → List α → Bool}

theorem Inserted.mono {other : List α → List α → Prop} {read t out : List α}
    (inserted : Inserted word allowed read t out) (wider : ∀ read rest, allowed read rest → other read rest) :
    Inserted word other read t out := by
  induction inserted with
  | nil read => exact .nil read
  | copy a later ih => exact .copy a ih
  | insert a here later ih => exact .insert a (wider _ _ here) ih

theorem inserted_insertAt {read t : List α}
    (all : ∀ before behind, t = before ++ behind → behind ≠ [] → test (read ++ before) behind = true →
      allowed (read ++ before) behind) : Inserted word allowed read t (insertAt word test read t) := by
  induction t generalizing read with
  | nil => exact .nil read
  | cons a rest ih =>
      have later : Inserted word allowed (read ++ [a]) rest (insertAt word test (read ++ [a]) rest) := by
        apply ih
        intro before behind shape solid tested
        rw [List.append_assoc, List.singleton_append] at tested ⊢
        exact all (a :: before) behind (by rw [shape, List.cons_append]) solid tested
      have here := all [] (a :: rest) rfl (List.cons_ne_nil _ _)
      rw [List.append_nil] at here
      rw [insertAt]
      by_cases tested : test read (a :: rest) = true
      · rw [if_pos tested]
        exact .insert a (here tested) later
      · rw [if_neg tested]
        exact .copy a later

end

section
variable {first : α} {tail : List α} {allowed other : List α → List α → Prop}

theorem Inserted.first_cases {read t out : List α} {b : α}
    (inserted : Inserted (first :: tail) allowed read t (b :: out)) :
    ∃ a rest, t = a :: rest ∧
      ((a = b ∧ Inserted (first :: tail) allowed (read ++ [a]) rest out) ∨
        (first = b ∧ allowed read (a :: rest) ∧
          ∃ more, out = tail ++ a :: more ∧ Inserted (first :: tail) allowed (read ++ [a]) rest more)) := by
  generalize written : b :: out = all at inserted
  cases inserted with
  | nil => cases written
  | @copy _ rest more a later =>
      obtain ⟨rfl, rfl⟩ := List.cons.inj written
      exact ⟨b, rest, rfl, .inl ⟨rfl, later⟩⟩
  | @insert _ rest more a here later =>
      obtain ⟨rfl, rfl⟩ := List.cons.inj written
      exact ⟨a, rest, rfl, .inr ⟨rfl, here, more, rfl, later⟩⟩

variable (fresh : first ∉ tail)

theorem Inserted.copied {read t m out : List α} (plain : first ∉ m)
    (inserted : Inserted (first :: tail) allowed read t (m ++ out)) :
    ∃ rest, t = m ++ rest ∧ Inserted (first :: tail) allowed (read ++ m) rest out := by
  induction m generalizing read t with
  | nil => exact ⟨t, rfl, by rwa [List.append_nil]⟩
  | cons b m ih =>
      obtain ⟨a, rest, rfl, ⟨rfl, later⟩ | ⟨rfl, -⟩⟩ := inserted.first_cases
      · obtain ⟨more, rfl, behind⟩ := ih (fun inside => plain (List.mem_cons_of_mem _ inside)) later
        refine ⟨more, rfl, ?_⟩
        rwa [List.append_assoc, List.singleton_append] at behind
      · exact absurd (List.mem_cons_self ..) plain

/-- A test never puts the word next to itself. -/
def Apart (word : List α) (allowed : List α → List α → Prop) : Prop :=
  ∀ read rest, allowed read rest → ¬word <:+ read ∧ ¬word <+: rest

include fresh

/-- No second way of putting words in that lags behind by some of them can catch up. -/
theorem Inserted.never_catches_up (apart : Apart (first :: tail) allowed) {read later w u out : List α} (n : Nat)
    (ahead : Inserted (first :: tail) allowed read u out) (behind : Inserted (first :: tail) other later (w ++ u) out)
    (just : w <:+ read) (words : w.length = n * (first :: tail).length) (some : w ≠ []) : False := by
  induction size : out.length using Nat.strong_induction_on generalizing read later w u out n with
  | _ length ih =>
    obtain ⟨d, w, rfl⟩ := List.exists_cons_of_ne_nil some
    cases out with
    | nil => cases behind
    | cons b out =>
        rw [List.length_cons] at size
        obtain ⟨c, u', rfl, first_case⟩ := ahead.first_cases
        obtain ⟨e, v, shape, second_case⟩ := behind.first_cases
        rw [List.cons_append] at shape
        obtain ⟨rfl, rfl⟩ := List.cons.inj shape
        rcases first_case with ⟨rfl, copied⟩ | ⟨rfl, here, more, rfl, inserted⟩
        · rcases second_case with ⟨rfl, copied'⟩ | ⟨rfl, -, more, rfl, inserted⟩
          · -- Both copy: as far behind as before.
            have shifted : w ++ [d] ++ u' = w ++ d :: u' := by rw [List.append_assoc, List.singleton_append]
            refine ih out.length (by omega) n copied (shifted ▸ copied') ?_ ?_ (by simp) rfl
            · exact List.suffix_append_self_iff.mpr ((List.suffix_cons d w).trans just)
            · simpa using words
          · -- The second writes the word: one more behind.
            obtain ⟨u, rfl, ahead'⟩ := copied.copied fresh
            have behind' : Inserted (first :: tail) other later (d :: w ++ first :: tail ++ u) (d :: more) := by
              rw [List.append_assoc]
              exact .copy d inserted
            refine ih (d :: more).length ?_ (n + 1) ahead' behind' ?_ ?_ (by simp) rfl
            · rw [← size]
              simp only [List.length_append, List.length_cons]
              omega
            · rw [List.append_assoc, List.singleton_append]
              exact List.suffix_append_self_iff.mpr just
            · rw [List.length_append, words, Nat.succ_mul]
        · rcases second_case with ⟨rfl, copied⟩ | ⟨-, -, more', same, inserted'⟩
          · -- The first writes the word, the second has it to copy: one less behind, or none.
            obtain ⟨v, shape, behind'⟩ := copied.copied fresh
            have positive : 0 < n := by
              apply Nat.pos_of_ne_zero
              rintro rfl
              simp at words
            have room : tail.length ≤ w.length := by
              have least := Nat.mul_le_mul_right (d :: tail).length positive
              rw [← words] at least
              simp only [List.length_cons] at least
              omega
            obtain ⟨w, rfl⟩ : tail <+: w :=
              List.prefix_of_prefix_length_le (shape ▸ List.prefix_append tail v) (List.prefix_append w _) room
            rw [List.append_assoc, List.append_cancel_left_eq] at shape
            by_cases last : w = []
            · rw [last, List.append_nil] at just
              exact (apart _ _ here).1 just
            · refine ih (c :: more).length ?_ (n - 1) (.copy c inserted) (shape ▸ behind') ?_ ?_ last rfl
              · rw [← size]
                simp only [List.length_append, List.length_cons]
                omega
              · exact (List.suffix_append (d :: tail) w).trans just
              · rw [Nat.sub_mul, ← words]
                simp
          · -- Both write the word.
            obtain ⟨rfl, rfl⟩ := List.cons.inj (List.append_cancel_left same)
            refine ih (c :: more).length ?_ n (.copy c inserted) (.copy c inserted') just words some rfl
            rw [← size]
            simp only [List.length_append, List.length_cons]
            omega

/-- A sequence is what a test makes of another by allowed insertions only when all places
of the test are allowed, if the test never puts the word next to itself. -/
theorem inserted_insertAt_iff {test : List α → List α → Bool}
    (apart : Apart (first :: tail) fun read rest => test read rest = true) {read t : List α} :
    Inserted (first :: tail) allowed read t (insertAt (first :: tail) test read t) ↔
      ∀ before behind, t = before ++ behind → behind ≠ [] → test (read ++ before) behind = true →
        allowed (read ++ before) behind := by
  refine ⟨?_, inserted_insertAt⟩
  induction t generalizing read with
  | nil =>
      intro _ before behind shape solid
      exact absurd (List.append_eq_nil_iff.mp shape.symm).2 solid
  | cons c rest ih =>
      have own : Inserted (first :: tail) (fun read rest => test read rest = true) (read ++ [c]) rest
          (insertAt (first :: tail) test (read ++ [c]) rest) :=
        inserted_insertAt fun _ _ _ _ tested => tested
      have step : (test read (c :: rest) = true → allowed read (c :: rest)) →
          Inserted (first :: tail) allowed (read ++ [c]) rest (insertAt (first :: tail) test (read ++ [c]) rest) →
          ∀ before behind, c :: rest = before ++ behind → behind ≠ [] → test (read ++ before) behind = true →
            allowed (read ++ before) behind := by
        intro here later before behind shape solid tested
        cases before with
        | nil =>
            rw [List.append_nil] at tested ⊢
            rw [List.nil_append] at shape
            exact shape ▸ here (shape ▸ tested)
        | cons b before =>
            rw [List.cons_append] at shape
            obtain ⟨rfl, tailShape⟩ := List.cons.inj shape
            have deeper := ih later before behind tailShape solid
            rw [List.append_assoc, List.singleton_append] at deeper
            exact deeper tested
      intro inserted
      rw [insertAt] at inserted
      by_cases tested : test read (c :: rest) = true
      · rw [if_pos tested] at inserted
        obtain ⟨d, rest', shape, ⟨rfl, copied⟩ | ⟨-, here, more, same, later⟩⟩ := inserted.first_cases
        · obtain ⟨rfl, rfl⟩ := List.cons.inj shape
          obtain ⟨more, split, -⟩ := copied.copied fresh
          exact absurd ⟨more, by rw [split, List.cons_append]⟩ (apart _ _ tested).2
        · obtain ⟨rfl, rfl⟩ := List.cons.inj shape
          obtain ⟨-, rfl⟩ := List.cons.inj (List.append_cancel_left same)
          exact step (fun _ => here) later
      · rw [if_neg tested, List.nil_append] at inserted
        obtain ⟨d, rest', shape, ⟨-, later⟩ | ⟨rfl, -, more, same, later⟩⟩ := inserted.first_cases
        · obtain ⟨rfl, rfl⟩ := List.cons.inj shape
          exact step (fun yes => absurd yes tested) later
        · obtain ⟨rfl, rfl⟩ := List.cons.inj shape
          rw [same] at own
          obtain ⟨u, rfl, ahead⟩ := own.copied fresh
          have behind : Inserted (first :: tail) allowed read _ _ := Inserted.copy first later
          exact (Inserted.never_catches_up fresh apart 1 ahead (w := first :: tail) behind
            ⟨read, by simp⟩ (by simp) (by simp)).elim

end

end Auger.General
