import Mathlib.Data.List.DropRight
import Mathlib.Data.List.Infix

set_option autoImplicit false

/-! Splitting a sequence at separators: the pieces are trimmed, blank ones are dropped,
and a reader's state says where a separator counts. -/

namespace Auger.General

section
variable {α : Type} (blank : α → Bool)

def trimEnds (t : List α) : List α := (t.dropWhile blank).rdropWhile blank

theorem trimEnds_blank {t : List α} (all : ∀ a ∈ t, blank a = true) : trimEnds blank t = [] := by
  rw [trimEnds, List.dropWhile_eq_nil_iff.mpr all]
  rfl

theorem trimEnds_leading {b : List α} (all : ∀ a ∈ b, blank a = true) (t : List α) :
    trimEnds blank (b ++ t) = trimEnds blank t := by
  rw [trimEnds, List.dropWhile_append_of_pos all, trimEnds]

theorem rdropWhile_trailing {b : List α} (all : ∀ a ∈ b, blank a = true) (t : List α) :
    (t ++ b).rdropWhile blank = t.rdropWhile blank := by
  rw [List.rdropWhile, List.reverse_append, List.dropWhile_append_of_pos, List.rdropWhile]
  intro a inside
  exact all a (List.mem_reverse.mp inside)

theorem trimEnds_trailing {b : List α} (all : ∀ a ∈ b, blank a = true) (t : List α) :
    trimEnds blank (t ++ b) = trimEnds blank t := by
  rw [trimEnds, trimEnds, List.dropWhile_append]
  split_ifs with gone
  · rw [List.isEmpty_iff] at gone
    rw [gone, List.dropWhile_eq_nil_iff.mpr all]
  · exact rdropWhile_trailing blank all _

theorem trimEnds_split (t : List α) :
    ∃ b c, t = b ++ (trimEnds blank t ++ c) ∧ (∀ a ∈ b, blank a = true) ∧ ∀ a ∈ c, blank a = true := by
  refine ⟨t.takeWhile blank, (t.dropWhile blank).rtakeWhile blank, ?_, ?_, ?_⟩
  · rw [trimEnds, List.rdropWhile_append_rtakeWhile, List.takeWhile_append_dropWhile]
  · exact fun a => List.mem_takeWhile_imp
  · exact fun a => List.mem_rtakeWhile_imp

theorem trimEnds_eq_nil {t : List α} : trimEnds blank t = [] ↔ ∀ a ∈ t, blank a = true := by
  constructor
  · intro gone
    obtain ⟨b, c, split, before, behind⟩ := trimEnds_split blank t
    rw [gone, List.nil_append] at split
    rw [split]
    intro a inside
    rcases List.mem_append.mp inside with first | last
    · exact before a first
    · exact behind a last
  · exact trimEnds_blank blank

theorem trimEnds_idem (t : List α) : trimEnds blank (trimEnds blank t) = trimEnds blank t := by
  obtain ⟨b, c, split, before, behind⟩ := trimEnds_split blank t
  calc trimEnds blank (trimEnds blank t) = trimEnds blank (trimEnds blank t ++ c) :=
        (trimEnds_trailing blank behind _).symm
    _ = trimEnds blank (b ++ (trimEnds blank t ++ c)) := (trimEnds_leading blank before _).symm
    _ = trimEnds blank t := by rw [← split]

theorem trimEnds_length (t : List α) : (trimEnds blank t).length ≤ (t.dropWhile blank).length :=
  (List.rdropWhile_prefix blank _).length_le

theorem rdropWhile_around {a : α} (solid : blank a = false) (w later : List α) :
    (w ++ a :: later).rdropWhile blank = w ++ a :: later.rdropWhile blank := by
  induction later using List.reverseRecOn with
  | nil => rw [List.rdropWhile_concat_neg _ _ _ (by simp [solid]), List.rdropWhile_nil]
  | append_singleton later b ih =>
      rw [← List.cons_append, ← List.append_assoc, List.rdropWhile_concat, List.rdropWhile_concat]
      split_ifs
      · exact ih
      · rw [List.append_assoc, List.cons_append]

theorem trimEnds_around {a : α} (solid : blank a = false) (w later : List α) :
    trimEnds blank (w ++ a :: later) = w.dropWhile blank ++ a :: later.rdropWhile blank := by
  have front : (w ++ a :: later).dropWhile blank = w.dropWhile blank ++ a :: later := by
    rw [List.dropWhile_append, List.dropWhile_cons_of_neg (by simp [solid])]
    split_ifs with gone
    · rw [List.isEmpty_iff.mp gone, List.nil_append]
    · rfl
  rw [trimEnds, front, rdropWhile_around blank solid]

end

/-- A reader that ends a piece at each separator it reads in a live state, and starts
anew behind it. -/
structure Splitter {α : Type} (blank : α → Bool) (separator : α) (σ : Type) where
  start : σ
  next : σ → α → σ
  live : σ → Bool
  live_start : live start = true
  next_live : ∀ s, live s = true → next s separator = start
  next_blank : ∀ a, blank a = true → next start a = start

namespace Splitter

variable {α σ τ : Type} {blank : α → Bool} {separator : α}

section
variable (splitter : Splitter blank separator σ)

def after (s : σ) (t : List α) : σ := t.foldl splitter.next s

theorem after_append (s : σ) (u v : List α) :
    splitter.after s (u ++ v) = splitter.after (splitter.after s u) v := List.foldl_append

theorem after_blank {b : List α} (all : ∀ a ∈ b, blank a = true) : splitter.after splitter.start b = splitter.start := by
  induction b with
  | nil => rfl
  | cons a b ih =>
      rw [after, List.foldl_cons, splitter.next_blank a (all a (by simp))]
      exact ih fun c inside => all c (List.mem_cons_of_mem _ inside)

/-- Blanks and separators. -/
def Filler (blank : α → Bool) (separator : α) (f : List α) : Prop := ∀ a ∈ f, a = separator ∨ blank a = true

theorem Filler.tail {a : α} {f : List α} (filler : Filler blank separator (a :: f)) : Filler blank separator f :=
  fun c inside => filler c (List.mem_cons_of_mem _ inside)

end

variable [DecidableEq α]

instance (f : List α) : Decidable (Filler blank separator f) := inferInstanceAs (Decidable (∀ a ∈ f, _))

def keep (blank : α → Bool) (piece : List α) (later : List (List α)) : List (List α) :=
  if trimEnds blank piece = [] then later else trimEnds blank piece :: later

section
variable (splitter : Splitter blank separator σ)

/-- The pieces of what follows, the first of them begun. -/
def split (piece : List α) (s : σ) : List α → List (List α)
  | [] => keep blank piece []
  | a :: rest =>
      if a = separator ∧ splitter.live s = true then keep blank piece (split [] (splitter.next s a) rest)
      else split (piece ++ [a]) (splitter.next s a) rest

/-- No separator is read in a live state. -/
def Quiet (s : σ) : List α → Prop
  | [] => True
  | a :: rest => ¬(a = separator ∧ splitter.live s = true) ∧ Quiet (splitter.next s a) rest

instance decidableQuiet : (s : σ) → (t : List α) → Decidable (splitter.Quiet s t)
  | _, [] => inferInstanceAs (Decidable True)
  | s, a :: rest =>
      have := decidableQuiet (splitter.next s a) rest
      inferInstanceAs (Decidable (_ ∧ _))

omit [DecidableEq α] in
theorem quiet_append (s : σ) (u v : List α) :
    splitter.Quiet s (u ++ v) ↔ splitter.Quiet s u ∧ splitter.Quiet (splitter.after s u) v := by
  induction u generalizing s with
  | nil => simp [Quiet, after]
  | cons a u ih =>
      rw [List.cons_append, Quiet, Quiet, ih, and_assoc]
      rfl

theorem split_quiet {s : σ} {u : List α} (quiet : splitter.Quiet s u) (piece rest : List α) :
    splitter.split piece s (u ++ rest) = splitter.split (piece ++ u) (splitter.after s u) rest := by
  induction u generalizing s piece with
  | nil => rw [List.append_nil, List.nil_append, after, List.foldl_nil]
  | cons a u ih =>
      rw [List.cons_append, split, if_neg quiet.1, ih quiet.2, List.append_assoc, List.singleton_append]
      rfl

omit [DecidableEq α] in
theorem keep_append (piece : List α) (later : List (List α)) :
    keep blank piece later = keep blank piece [] ++ later := by
  rw [keep, keep]
  split_ifs <;> rfl

/-- A separator behind a closed sequence always cuts. -/
theorem split_append {piece : List α} {s : σ} {t : List α} (closed : splitter.after s t = splitter.start)
    (rest : List α) :
    splitter.split piece s (t ++ separator :: rest) =
      splitter.split piece s t ++ splitter.split [] splitter.start rest := by
  induction t generalizing piece s with
  | nil =>
      obtain rfl : s = splitter.start := closed
      rw [List.nil_append, split, split, if_pos ⟨rfl, splitter.live_start⟩,
        splitter.next_live splitter.start splitter.live_start, keep_append]
  | cons a t ih =>
      rw [List.cons_append, split, split, ih closed, ih closed]
      split_ifs
      · rw [keep_append, keep_append piece (splitter.split [] (splitter.next s a) t), List.append_assoc]
      · rfl

theorem split_leading {b : List α} (all : ∀ a ∈ b, blank a = true) (piece : List α) (s : σ) (t : List α) :
    splitter.split (b ++ piece) s t = splitter.split piece s t := by
  induction t generalizing piece s with
  | nil => rw [split, split, keep, keep, trimEnds_leading blank all]
  | cons a rest ih =>
      rw [split, split, keep, keep, trimEnds_leading blank all]
      split_ifs
      · rfl
      · rfl
      · rw [List.append_assoc, ih]

/-- A trimmed piece that ends where it began, without a live separator in it. -/
structure Whole (t : List α) : Prop where
  solid : t ≠ []
  trimmed : trimEnds blank t = t
  quiet : splitter.Quiet splitter.start t
  closed : splitter.after splitter.start t = splitter.start

/-- Filler before the first piece is skipped. -/
theorem split_filler {f : List α} (filler : Filler blank separator f) (rest : List α) :
    splitter.split [] splitter.start (f ++ rest) = splitter.split [] splitter.start rest := by
  induction f with
  | nil => rfl
  | cons a f ih =>
      rw [List.cons_append, split]
      split_ifs with cut
      · rw [keep, if_pos (trimEnds_blank blank (by simp)), cut.1, splitter.next_live _ cut.2]
        exact ih filler.tail
      · have space : blank a = true := by
          rcases filler a (by simp) with same | space
          · exact absurd ⟨same, splitter.live_start⟩ cut
          · exact space
        rw [splitter.next_blank a space, List.nil_append, ← List.append_nil [a],
          splitter.split_leading (by simpa using space)]
        exact ih filler.tail

/-- Filler behind a piece ends it, if it holds a separator or nothing follows. -/
theorem split_behind {f : List α} (filler : Filler blank separator f) {rest : List α}
    (ends : separator ∈ f ∨ rest = []) (piece : List α) :
    splitter.split piece splitter.start (f ++ rest) = keep blank piece (splitter.split [] splitter.start rest) := by
  induction f generalizing piece with
  | nil =>
      have last : rest = [] := ends.resolve_left (by simp)
      rw [last, List.append_nil, split, split]
      simp [keep, trimEnds]
  | cons a f ih =>
      rw [List.cons_append, split]
      split_ifs with cut
      · rw [cut.1, splitter.next_live _ cut.2, splitter.split_filler filler.tail]
      · have other : a ≠ separator := fun same => cut ⟨same, splitter.live_start⟩
        have space : blank a = true := (filler a (by simp)).resolve_left other
        have later : separator ∈ f ∨ rest = [] :=
          ends.imp_left fun inside => (List.mem_cons.mp inside).resolve_left other.symm
        rw [splitter.next_blank a space, ih filler.tail later, keep, keep,
          trimEnds_trailing blank (by simpa using space)]

theorem split_joined {entries : List (List α × List α)} (whole : ∀ entry ∈ entries, splitter.Whole entry.1)
    (fillers : ∀ entry ∈ entries, Filler blank separator entry.2)
    (ends : ∀ entry ∈ entries.dropLast, separator ∈ entry.2) :
    splitter.split [] splitter.start (entries.flatMap fun entry => entry.1 ++ entry.2) = entries.map Prod.fst := by
  induction entries with
  | nil => simp [split, keep, trimEnds]
  | cons entry rest ih =>
      have here := whole entry (by simp)
      have closes : separator ∈ entry.2 ∨ (rest.flatMap fun entry => entry.1 ++ entry.2) = [] := by
        cases rest with
        | nil => exact .inr rfl
        | cons other rest => exact .inl (ends entry (by simp))
      have later := ih (fun other inside => whole other (List.mem_cons_of_mem _ inside))
        (fun other inside => fillers other (List.mem_cons_of_mem _ inside)) (fun other inside => ends other (by
          cases rest with
          | nil => cases inside
          | cons next rest => exact List.mem_cons_of_mem _ inside))
      rw [List.flatMap_cons, List.append_assoc, splitter.split_quiet here.quiet, here.closed, List.nil_append,
        splitter.split_behind (fillers entry (by simp)) closes, later, keep, here.trimmed, if_neg here.solid,
        List.map_cons]

theorem split_self {t : List α} (quiet : splitter.Quiet splitter.start t) (solid : trimEnds blank t ≠ []) :
    splitter.split [] splitter.start (trimEnds blank t) = [trimEnds blank t] := by
  obtain ⟨b, c, shape, before, -⟩ := trimEnds_split blank t
  rw [shape, splitter.quiet_append, splitter.after_blank before, splitter.quiet_append] at quiet
  have alone := splitter.split_quiet quiet.2.1 [] []
  rw [List.append_nil, List.nil_append] at alone
  rw [alone, split, keep, trimEnds_idem, if_neg solid]

theorem split_pieces {piece t : List α} {s : σ} (quiet : splitter.Quiet splitter.start piece)
    (reached : splitter.after splitter.start piece = s) :
    ∀ p ∈ splitter.split piece s t, splitter.split [] splitter.start p = [p] := by
  have kept : ∀ {piece : List α} {later : List (List α)}, splitter.Quiet splitter.start piece →
      (∀ p ∈ later, splitter.split [] splitter.start p = [p]) →
      ∀ p ∈ keep blank piece later, splitter.split [] splitter.start p = [p] := by
    intro piece later quiet each p inside
    rw [keep] at inside
    split_ifs at inside with gone
    · exact each p inside
    · rcases List.mem_cons.mp inside with rfl | behind
      · exact splitter.split_self quiet gone
      · exact each p behind
  induction t generalizing piece s with
  | nil =>
      rw [split]
      exact kept quiet (by simp)
  | cons a rest ih =>
      rw [split]
      split_ifs with cut
      · apply kept quiet
        apply ih (show splitter.Quiet splitter.start [] from trivial)
        rw [cut.1, splitter.next_live _ cut.2]
        rfl
      · apply ih
        · rw [splitter.quiet_append, reached]
          exact ⟨quiet, cut, trivial⟩
        · rw [splitter.after_append, reached]
          rfl

end

section
variable (splitter : Splitter blank separator σ)

theorem split_first {a : α} (solid : blank a = false) (w later t : List α) (s : σ) :
    ∃ more pieces, splitter.split (w ++ a :: later) s t = (w.dropWhile blank ++ a :: more) :: pieces := by
  have kept : ∀ (later : List α) (pieces : List (List α)), ∃ more,
      keep blank (w ++ a :: later) pieces = (w.dropWhile blank ++ a :: more) :: pieces := by
    intro later pieces
    refine ⟨later.rdropWhile blank, ?_⟩
    rw [keep, trimEnds_around blank solid, if_neg (by simp)]
  induction t generalizing later s with
  | nil =>
      obtain ⟨more, same⟩ := kept later []
      exact ⟨more, [], by rw [split, same]⟩
  | cons b rest ih =>
      rw [split]
      split_ifs with cut
      · obtain ⟨more, same⟩ := kept later (splitter.split [] (splitter.next s b) rest)
        exact ⟨more, _, same⟩
      · rw [List.append_assoc, List.cons_append]
        exact ih (later ++ [b]) (splitter.next s b)

theorem split_start {piece : List α} (all : ∀ a ∈ piece, blank a = true) (t more : List α)
    (pieces : List (List α)) : splitter.split piece splitter.start t ≠ (separator :: more) :: pieces := by
  induction t generalizing piece with
  | nil =>
      rw [split, keep, if_pos (trimEnds_blank blank all)]
      intro equal
      cases equal
  | cons b rest ih =>
      rw [split]
      split_ifs with cut
      · rw [keep, if_pos (trimEnds_blank blank all), cut.1, splitter.next_live _ cut.2]
        exact ih (by simp)
      · have other : b ≠ separator := fun same => cut ⟨same, splitter.live_start⟩
        cases space : blank b with
        | true =>
            rw [splitter.next_blank b space]
            apply ih
            intro a inside
            rcases List.mem_append.mp inside with first | last
            · exact all a first
            · rw [List.mem_singleton.mp last]
              exact space
        | false =>
            obtain ⟨later, others, same⟩ := splitter.split_first space piece [] rest (splitter.next splitter.start b)
            rw [same, List.dropWhile_eq_nil_iff.mpr all, List.nil_append]
            intro equal
            exact other (List.cons.inj (List.cons.inj equal).1).1

end

variable (first : Splitter blank separator σ) (second : Splitter blank separator τ)

/-- Where one cuts and the other does not, what they return differs from there on. -/
theorem split_ne (solid : blank separator = false) {s : σ} {q : τ} (cuts : first.live s = true)
    (passes : ¬second.live q = true) (piece rest : List α) :
    first.split piece s (separator :: rest) ≠ second.split piece q (separator :: rest) := by
  rw [split, if_pos ⟨rfl, cuts⟩, split, if_neg fun both => passes both.2, first.next_live s cuts]
  obtain ⟨more, pieces, same⟩ := second.split_first solid piece [] rest (second.next q separator)
  rw [same, keep]
  split_ifs with gone
  · rw [List.dropWhile_eq_nil_iff.mpr ((trimEnds_eq_nil blank).mp gone), List.nil_append]
    exact first.split_start (by simp) rest more pieces
  · intro equal
    have length := congrArg List.length (List.cons.inj equal).1
    have bound := trimEnds_length blank piece
    rw [List.length_append, List.length_cons] at length
    omega

omit [DecidableEq α] in
theorem live_cons (s : σ) (q : τ) (a : α) (rest : List α) :
    (∀ before behind, a :: rest = before ++ separator :: behind →
      first.live (first.after s before) = second.live (second.after q before)) ↔
    (a = separator → first.live s = second.live q) ∧
      ∀ before behind, rest = before ++ separator :: behind →
        first.live (first.after (first.next s a) before) = second.live (second.after (second.next q a) before) := by
  constructor
  · intro agree
    refine ⟨fun same => agree [] rest (by rw [same, List.nil_append]), fun before behind shape => ?_⟩
    exact agree (a :: before) behind (by rw [shape, List.cons_append])
  · intro agree before behind shape
    cases before with
    | nil => exact agree.1 (List.cons.inj shape).1
    | cons b before =>
        rw [(List.cons.inj shape).1] at agree
        exact agree.2 before behind (List.cons.inj shape).2

omit [DecidableEq α] in
theorem keep_inj (piece : List α) {left right : List (List α)} :
    keep blank piece left = keep blank piece right ↔ left = right := by
  rw [keep, keep]
  split_ifs <;> simp

/-- Two splitters return the same pieces exactly when every separator is live for both
or for none. -/
theorem split_eq_iff (solid : blank separator = false) (piece t : List α) (s : σ) (q : τ) :
    first.split piece s t = second.split piece q t ↔
      ∀ before behind, t = before ++ separator :: behind →
        first.live (first.after s before) = second.live (second.after q before) := by
  induction t generalizing piece s q with
  | nil => simp [split]
  | cons a rest ih =>
      rw [live_cons]
      by_cases same : a = separator
      · subst same
        by_cases one : first.live s = true <;> by_cases two : second.live q = true
        · rw [split, if_pos ⟨rfl, one⟩, split, if_pos ⟨rfl, two⟩, keep_inj, ih, one, two]
          simp
        · rw [iff_false_left (split_ne first second solid one two piece rest)]
          exact fun agree => two ((agree.1 rfl).symm.trans one)
        · rw [iff_false_left (split_ne second first solid two one piece rest).symm]
          exact fun agree => one ((agree.1 rfl).trans two)
        · rw [split, if_neg fun both => one both.2, split, if_neg fun both => two both.2, ih,
            Bool.eq_false_iff.mpr one, Bool.eq_false_iff.mpr two]
          simp
      · rw [split, if_neg fun both => same both.1, split, if_neg fun both => same both.1, ih]
        simp [same]

end Splitter

end Auger.General
