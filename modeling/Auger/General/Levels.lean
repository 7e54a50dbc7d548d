import Mathlib.Data.Multiset.Lattice
import Mathlib.Data.List.Perm.Basic
import Mathlib.Data.Nat.Find
import Mathlib.Order.BoundedOrder.Lattice

set_option autoImplicit false

/-! Kinds at levels: two levels join at the deeper one, except that the top stays where it
was reached. When does a list of levels join to the same level in every order? -/

namespace Auger.General

/-- A kind at a nesting depth. -/
@[ext]
structure Level (κ : Type) where
  depth : Nat
  kind : κ
  deriving DecidableEq, Repr

namespace Level

variable {κ : Type} [SemilatticeSup κ] [BoundedOrder κ]

/-- The join of all the kinds, whatever their depths. -/
def totalKind (levels : List (Level κ)) : κ := (Multiset.ofList (levels.map Level.kind)).sup

/-- The levels meet the top at one depth `k`: no sooner, and either the top itself is
listed there or nothing lies deeper. -/
def OneLevel (levels : List (Level κ)) : Prop :=
  totalKind levels = ⊤ → ∃ k, totalKind (levels.filter fun v => v.depth < k) ≠ ⊤ ∧
    (⟨k, ⊤⟩ ∈ levels ∨ ∀ v ∈ levels, v.depth ≤ k)

theorem totalKind_le {levels : List (Level κ)} {a : κ} :
    totalKind levels ≤ a ↔ ∀ v ∈ levels, v.kind ≤ a := by
  rw [totalKind, Multiset.sup_le]
  simp only [Multiset.mem_coe, List.forall_mem_map]

theorem le_totalKind {levels : List (Level κ)} {v : Level κ} (member : v ∈ levels) : v.kind ≤ totalKind levels :=
  totalKind_le.mp le_rfl v member

theorem totalKind_top {levels : List (Level κ)} {v : Level κ} (member : v ∈ levels) (top : v.kind = ⊤) :
    totalKind levels = ⊤ :=
  top_le_iff.mp (top ▸ le_totalKind member)

theorem totalKind_mono {levels levels' : List (Level κ)} (within : ∀ v ∈ levels, v ∈ levels') :
    totalKind levels ≤ totalKind levels' :=
  totalKind_le.mpr fun v member => le_totalKind (within v member)

theorem totalKind_perm {levels levels' : List (Level κ)} (perm : levels.Perm levels') :
    totalKind levels = totalKind levels' :=
  le_antisymm (totalKind_mono fun _ => perm.mem_iff.mp) (totalKind_mono fun _ => perm.mem_iff.mpr)

theorem totalKind_snoc (levels : List (Level κ)) (v : Level κ) :
    totalKind (levels ++ [v]) = totalKind levels ⊔ v.kind := by
  rw [totalKind, List.map_append, ← Multiset.coe_add, Multiset.sup_add]
  exact congrArg _ (Multiset.sup_singleton)

/-- Which kinds rise to which without a trace: only the bottom rises so to the top. -/
structure SilentKinds (silent : κ → κ → Prop) : Prop where
  refl : ∀ a, silent a a
  trans : ∀ a b c, silent a b → silent b c → silent a c
  bot : ∀ a, silent ⊥ a
  below_top : ∀ a, silent a ⊤ → a = ⊥ ∨ a = ⊤
  above_top : ∀ a, silent ⊤ a → a = ⊤
  sup : ∀ a b c, silent a c → silent b c → silent a (a ⊔ b) ∧ silent b (a ⊔ b) ∧ silent (a ⊔ b) c

/-- One level rises to another without a trace; the top rises to no other level. -/
def Silent (silent : κ → κ → Prop) (v z : Level κ) : Prop :=
  silent v.kind z.kind ∧ v.depth ≤ z.depth ∧ (v.kind = ⊤ → z.depth ≤ v.depth)

variable {silent : κ → κ → Prop}

theorem Silent.refl (laws : SilentKinds silent) (v : Level κ) : Silent silent v v :=
  ⟨laws.refl v.kind, le_rfl, fun _ => le_rfl⟩

theorem Silent.bottom [Nontrivial κ] (laws : SilentKinds silent) (v : Level κ) : Silent silent ⟨0, ⊥⟩ v :=
  ⟨laws.bot v.kind, Nat.zero_le _, fun top => absurd top bot_ne_top⟩

theorem Silent.trans (laws : SilentKinds silent) {v w z : Level κ} (first : Silent silent v w)
    (second : Silent silent w z) : Silent silent v z := by
  refine ⟨laws.trans _ _ _ first.1 second.1, first.2.1.trans second.2.1, fun top => ?_⟩
  have above : w.kind = ⊤ := by
    apply laws.above_top
    rw [← top]
    exact first.1
  exact (second.2.2 above).trans (first.2.2 top)

theorem Silent.of_top (laws : SilentKinds silent) {v z : Level κ} (quiet : Silent silent v z) (top : v.kind = ⊤) :
    z = v := by
  have kind : z.kind = ⊤ := by
    apply laws.above_top
    rw [← top]
    exact quiet.1
  exact Level.ext (Nat.le_antisymm (quiet.2.2 top) quiet.2.1) (kind.trans top.symm)

theorem Silent.outermost (laws : SilentKinds silent) {v : Level κ} (quiet : Silent silent v ⟨0, ⊤⟩) :
    v = ⟨0, ⊥⟩ ∨ v = ⟨0, ⊤⟩ := by
  have depth : v.depth = 0 := Nat.le_zero.mp quiet.2.1
  obtain ⟨_, kind⟩ := v
  obtain low | high := laws.below_top kind quiet.1
  · exact .inl (by rw [low, ← depth])
  · exact .inr (by rw [high, ← depth])

/-- The same kind one level deeper. -/
def deeper (v : Level κ) : Level κ := ⟨v.depth + 1, v.kind⟩

theorem silent_deeper {v w : Level κ} : Silent silent v.deeper w.deeper ↔ Silent silent v w := by
  simp only [Silent, deeper, Nat.add_le_add_iff_right]

variable [DecidableEq κ]

def join (v w : Level κ) : Level κ :=
  if v.kind = ⊤ then if w.kind = ⊤ then ⟨min v.depth w.depth, ⊤⟩ else v
  else if w.kind = ⊤ then w
  else ⟨max v.depth w.depth, v.kind ⊔ w.kind⟩

def joinAll (levels : List (Level κ)) : Level κ := levels.foldl join ⟨0, ⊥⟩

theorem join_kind (v w : Level κ) : (join v w).kind = v.kind ⊔ w.kind := by
  unfold join
  split_ifs with first second second
  · rw [first, top_sup_eq]
  · rw [first, top_sup_eq]
  · rw [second, sup_top_eq]
  · rfl

theorem join_known {v w : Level κ} (first : v.kind ≠ ⊤) (second : w.kind ≠ ⊤) :
    join v w = ⟨max v.depth w.depth, v.kind ⊔ w.kind⟩ := by
  rw [join, if_neg first, if_neg second]

theorem top_join (w : Level κ) : join ⟨0, ⊤⟩ w = ⟨0, ⊤⟩ := by
  unfold join
  rw [if_pos rfl]
  split_ifs
  · rw [Nat.zero_min]
  · rfl

theorem join_self (v : Level κ) : join v v = v := by
  unfold join
  split_ifs with top
  · rw [min_self, ← top]
  · rw [max_self, sup_idem]

theorem bottom_join [Nontrivial κ] (v : Level κ) : join ⟨0, ⊥⟩ v = v := by
  unfold join
  rw [if_neg bot_ne_top]
  split_ifs
  · rfl
  · rw [Nat.zero_max, bot_sup_eq]

theorem join_depth_le_max (v w : Level κ) : (join v w).depth ≤ max v.depth w.depth := by
  unfold join
  split_ifs
  · exact min_le_max
  · exact le_max_left _ _
  · exact le_max_right _ _
  · exact le_rfl

theorem join_depth_of_known {v w : Level κ} (known : (join v w).kind ≠ ⊤) :
    (join v w).depth = max v.depth w.depth := by
  rw [join_kind] at known
  have first : v.kind ≠ ⊤ := fun top => known (by rw [top, top_sup_eq])
  have second : w.kind ≠ ⊤ := fun top => known (by rw [top, sup_top_eq])
  rw [join_known first second]

theorem join_depth_le_left {v : Level κ} (w : Level κ) (top : v.kind = ⊤) : (join v w).depth ≤ v.depth := by
  rw [join, if_pos top]
  split_ifs
  · exact min_le_left _ _
  · exact le_rfl

theorem join_depth_le_right (v : Level κ) {w : Level κ} (top : w.kind = ⊤) : (join v w).depth ≤ w.depth := by
  unfold join
  split_ifs
  · exact min_le_right _ _
  · exact le_rfl

/-- Below the top a join loses no depth, and the top is met where it lies. -/
theorem lt_join_depth {k : Nat} {v w : Level κ} (first : k < v.depth) (second : w.kind = ⊤ → k < w.depth) :
    k < (join v w).depth := by
  unfold join
  split_ifs with left right right
  · exact lt_min first (second right)
  · exact first
  · exact second right
  · exact lt_max_of_lt_left first

theorem join_comm (v w : Level κ) : join v w = join w v := by
  unfold join
  split_ifs with first second second
  · rw [min_comm]
  · rfl
  · rfl
  · rw [max_comm v.depth, sup_comm v.kind]

theorem join_deeper (v w : Level κ) : join v.deeper w.deeper = (join v w).deeper := by
  unfold join deeper
  split_ifs
  · rw [Nat.add_min_add_right]
  · rfl
  · rfl
  · rw [Nat.add_max_add_right]

theorem join_deeper_left (v : Level κ) {w : Level κ} (shallow : w.depth = 0) (known : w.kind ≠ ⊤) :
    join v.deeper w = (join v w).deeper := by
  unfold join deeper
  rw [if_neg known, if_neg known, if_neg known, if_neg known, shallow, Nat.max_zero, Nat.max_zero]
  split_ifs <;> rfl

theorem joinAll_append (left right : List (Level κ)) :
    joinAll (left ++ right) = right.foldl join (joinAll left) :=
  List.foldl_append

theorem joinAll_snoc (levels : List (Level κ)) (v : Level κ) :
    joinAll (levels ++ [v]) = join (joinAll levels) v :=
  joinAll_append levels [v]

theorem joinAll_kind (levels : List (Level κ)) : (joinAll levels).kind = totalKind levels := by
  induction levels using List.reverseRecOn with
  | nil => rfl
  | append_singleton levels v ih => rw [joinAll_snoc, join_kind, ih, totalKind_snoc]

theorem joinAll_depth_le {levels : List (Level κ)} {k : Nat} (bound : ∀ v ∈ levels, v.depth ≤ k) :
    (joinAll levels).depth ≤ k := by
  induction levels using List.reverseRecOn with
  | nil => exact Nat.zero_le k
  | append_singleton levels v ih =>
      rw [joinAll_snoc]
      apply (join_depth_le_max _ _).trans
      apply max_le
      · exact ih fun w member => bound w (List.mem_append_left _ member)
      · exact bound v (List.mem_append_right _ List.mem_cons_self)

theorem depth_le_joinAll {levels : List (Level κ)} (known : totalKind levels ≠ ⊤) :
    ∀ v ∈ levels, v.depth ≤ (joinAll levels).depth := by
  induction levels using List.reverseRecOn with
  | nil =>
      intro v member
      cases member
  | append_singleton levels v ih =>
      intro w member
      have whole : (join (joinAll levels) v).kind ≠ ⊤ := by
        rw [← joinAll_snoc, joinAll_kind]
        exact known
      have before : totalKind levels ≠ ⊤ := by
        intro top
        apply known
        rw [totalKind_snoc, top, top_sup_eq]
      rw [joinAll_snoc, join_depth_of_known whole]
      obtain earlier | last := List.mem_append.mp member
      · exact (ih before w earlier).trans (le_max_left _ _)
      · rw [List.mem_singleton.mp last]
        exact le_max_right _ _

theorem joinAll_depth_le_top {levels : List (Level κ)} :
    ∀ v ∈ levels, v.kind = ⊤ → (joinAll levels).depth ≤ v.depth := by
  induction levels using List.reverseRecOn with
  | nil =>
      intro v member
      cases member
  | append_singleton levels v ih =>
      intro w member top
      rw [joinAll_snoc]
      obtain earlier | last := List.mem_append.mp member
      · have reached : (joinAll levels).kind = ⊤ := by
          rw [joinAll_kind]
          exact totalKind_top earlier top
        exact (join_depth_le_left v reached).trans (ih w earlier top)
      · rw [List.mem_singleton.mp last] at top ⊢
        exact join_depth_le_right _ top

/-- The levels down to where the join ends up already reach its kind. -/
theorem joinAll_reached {levels : List (Level κ)} (top : totalKind levels = ⊤) :
    totalKind (levels.filter fun v => v.depth ≤ (joinAll levels).depth) = ⊤ := by
  induction levels using List.reverseRecOn with
  | nil => exact top
  | append_singleton levels v ih =>
      have joined := joinAll_snoc levels v
      by_cases last : v.kind = ⊤ ∧ v.depth ≤ (joinAll (levels ++ [v])).depth
      · apply totalKind_top (v := v) _ last.1
        exact List.mem_filter.mpr ⟨List.mem_append_right _ List.mem_cons_self, decide_eq_true last.2⟩
      by_cases before : totalKind levels = ⊤
      · -- the top was reached before `v`, and `v` did not lower it
        have reached : (joinAll levels).kind = ⊤ := (joinAll_kind levels).trans before
        have same : (joinAll (levels ++ [v])).depth = (joinAll levels).depth := by
          rw [joined, join, if_pos reached] at last ⊢
          split_ifs at last ⊢ with second
          · apply min_eq_left
            by_contra lower
            exact last ⟨second, le_min (le_of_not_ge lower) le_rfl⟩
          · rfl
        rw [← top_le_iff, ← ih before]
        apply totalKind_mono
        intro w member
        obtain ⟨inside, shallow⟩ := List.mem_filter.mp member
        rw [same]
        exact List.mem_filter.mpr ⟨List.mem_append_left _ inside, shallow⟩
      · have known : (joinAll levels).kind ≠ ⊤ := fun reached => before ((joinAll_kind levels).symm.trans reached)
        have plain : v.kind ≠ ⊤ := by
          intro single
          apply last
          rw [joined, join, if_neg known, if_pos single]
          exact ⟨single, le_rfl⟩
        have depth : (joinAll (levels ++ [v])).depth = max (joinAll levels).depth v.depth := by
          rw [joined, join, if_neg known, if_neg plain]
        rw [List.filter_eq_self.mpr]
        · exact top
        · intro w member
          rw [depth]
          apply decide_eq_true
          obtain earlier | now := List.mem_append.mp member
          · exact (depth_le_joinAll before w earlier).trans (le_max_left _ _)
          · rw [List.mem_singleton.mp now]
            exact le_max_right _ _

theorem OneLevel.joinAll_depth {levels : List (Level κ)} {k : Nat} (top : totalKind levels = ⊤)
    (sooner : totalKind (levels.filter fun v => v.depth < k) ≠ ⊤)
    (there : ⟨k, ⊤⟩ ∈ levels ∨ ∀ v ∈ levels, v.depth ≤ k) : (joinAll levels).depth = k := by
  apply Nat.le_antisymm
  · obtain listed | deepest := there
    · exact joinAll_depth_le_top ⟨k, ⊤⟩ listed rfl
    · exact joinAll_depth_le deepest
  · by_contra shallow
    apply sooner
    rw [← top_le_iff, ← joinAll_reached top]
    apply totalKind_mono
    intro v member
    obtain ⟨inside, below⟩ := List.mem_filter.mp member
    apply List.mem_filter.mpr
    exact ⟨inside, decide_eq_true ((of_decide_eq_true below).trans_lt (Nat.lt_of_not_le shallow))⟩

theorem joinAll_perm_known {levels levels' : List (Level κ)} (perm : levels'.Perm levels)
    (known : totalKind levels ≠ ⊤) : joinAll levels' = joinAll levels := by
  have total := totalKind_perm perm
  have known' : totalKind levels' ≠ ⊤ := total ▸ known
  have kinds : (joinAll levels').kind = (joinAll levels).kind := by rw [joinAll_kind, joinAll_kind, total]
  have depths : (joinAll levels').depth = (joinAll levels).depth := by
    apply Nat.le_antisymm
    · exact joinAll_depth_le fun v member => depth_le_joinAll known v (perm.mem_iff.mp member)
    · exact joinAll_depth_le fun v member => depth_le_joinAll known' v (perm.mem_iff.mpr member)
  exact Level.ext depths kinds

theorem joinAll_perm {levels levels' : List (Level κ)} (perm : levels'.Perm levels) (one : OneLevel levels) :
    joinAll levels' = joinAll levels := by
  by_cases known : totalKind levels = ⊤
  · obtain ⟨k, sooner, there⟩ := one known
    have known' : totalKind levels' = ⊤ := (totalKind_perm perm).trans known
    have sooner' : totalKind (levels'.filter fun v => v.depth < k) ≠ ⊤ := by
      rw [totalKind_perm (perm.filter _)]
      exact sooner
    have there' : ⟨k, ⊤⟩ ∈ levels' ∨ ∀ v ∈ levels', v.depth ≤ k := by
      simpa only [perm.mem_iff] using there
    have depth := OneLevel.joinAll_depth known sooner there
    have depth' := OneLevel.joinAll_depth known' sooner' there'
    have kind := (joinAll_kind levels).trans known
    have kind' := (joinAll_kind levels').trans known'
    exact Level.ext (depth'.trans depth.symm) (kind'.trans kind.symm)
  · exact joinAll_perm_known perm known

theorem foldl_join_depth_le (levels : List (Level κ)) (v : Level κ) (top : v.kind = ⊤) :
    (levels.foldl join v).depth ≤ v.depth := by
  induction levels generalizing v with
  | nil => exact le_rfl
  | cons w rest ih =>
      have kind : (join v w).kind = ⊤ := by rw [join_kind, top, top_sup_eq]
      exact (ih (join v w) kind).trans (join_depth_le_left w top)

theorem lt_foldl_join_depth {k : Nat} (levels : List (Level κ)) (v : Level κ) (deep : k < v.depth)
    (tops : ∀ w ∈ levels, w.kind = ⊤ → k < w.depth) : k < (levels.foldl join v).depth := by
  induction levels generalizing v with
  | nil => exact deep
  | cons w rest ih =>
      apply ih
      · exact lt_join_depth deep (tops w List.mem_cons_self)
      · exact fun u member => tops u (List.mem_cons_of_mem w member)

theorem oneLevel_of_perm [Nontrivial κ] {levels : List (Level κ)}
    (stable : ∀ levels' : List (Level κ), levels'.Perm levels → (joinAll levels').depth = (joinAll levels).depth) :
    OneLevel levels := by
  intro top
  have reaches : ∃ k, totalKind (levels.filter fun v => v.depth ≤ k) = ⊤ :=
    ⟨_, joinAll_reached top⟩
  obtain ⟨k, met, least⟩ : ∃ k, totalKind (levels.filter fun v => v.depth ≤ k) = ⊤ ∧
      ∀ j < k, totalKind (levels.filter fun v => v.depth ≤ j) ≠ ⊤ := by
    classical
    exact ⟨Nat.find reaches, Nat.find_spec reaches, fun j => Nat.find_min reaches⟩
  have sooner : totalKind (levels.filter fun v => v.depth < k) ≠ ⊤ := by
    cases k with
    | zero =>
        rw [List.filter_eq_nil_iff.mpr (by simp)]
        exact bot_ne_top
    | succ j => simpa only [Nat.lt_succ_iff] using least j (Nat.lt_succ_self j)
  refine ⟨k, sooner, ?_⟩
  by_contra neither
  obtain ⟨unlisted, deeper⟩ := not_or.mp neither
  -- the levels down to `k` first: the top is reached there and stays
  have shallow : (joinAll levels).depth ≤ k := by
    rw [← stable _ (List.filter_append_perm (fun v => v.depth ≤ k) levels), joinAll_append]
    apply (foldl_join_depth_le _ _ ((joinAll_kind _).trans met)).trans
    exact joinAll_depth_le fun v member => of_decide_eq_true (List.mem_filter.mp member).2
  -- a deeper level first: every top listed lies deeper than `k` too
  obtain ⟨v, inside, deep⟩ : ∃ v ∈ levels, k < v.depth := by
    simpa only [not_forall, not_le, exists_prop] using deeper
  have tops : ∀ w ∈ levels, w.kind = ⊤ → k < w.depth := by
    intro w member single
    obtain lower | same | higher := Nat.lt_trichotomy w.depth k
    · exact absurd (totalKind_top (List.mem_filter.mpr ⟨member, decide_eq_true lower⟩) single) sooner
    · exact absurd (show ⟨k, ⊤⟩ ∈ levels by rw [← same, ← single]; exact member) unlisted
    · exact higher
  obtain ⟨left, right, rfl⟩ := List.append_of_mem inside
  have deepFirst : (v :: (left ++ right)).Perm (left ++ v :: right) := List.perm_middle.symm
  have started : k < (join ⟨0, ⊥⟩ v).depth := by
    rw [bottom_join]
    exact deep
  have below : k < (joinAll (v :: (left ++ right))).depth := by
    apply lt_foldl_join_depth _ _ started
    intro w member
    exact tops w (deepFirst.mem_iff.mp (List.mem_cons_of_mem v member))
  rw [stable _ deepFirst] at below
  exact absurd shallow (Nat.not_le.mpr below)

theorem Silent.join [Nontrivial κ] (laws : SilentKinds silent) {v w z : Level κ} (first : Silent silent v z)
    (second : Silent silent w z) :
    Silent silent v (join v w) ∧ Silent silent w (join v w) ∧ Silent silent (join v w) z := by
  by_cases left : v.kind = ⊤
  · obtain rfl := first.of_top laws left
    have same : Level.join z w = z := by
      rw [Level.join, if_pos left]
      split_ifs with right
      · rw [← second.of_top laws right, min_self, ← left]
      · rfl
    rw [same]
    exact ⟨first, second, first⟩
  by_cases right : w.kind = ⊤
  · obtain rfl := second.of_top laws right
    rw [Level.join, if_neg left, if_pos right]
    exact ⟨first, second, second⟩
  rw [Level.join, if_neg left, if_neg right]
  obtain ⟨up, up', above⟩ := laws.sup v.kind w.kind z.kind first.1 second.1
  refine ⟨⟨up, le_max_left _ _, fun top => absurd top left⟩, ⟨up', le_max_right _ _, fun top => absurd top right⟩,
    above, max_le first.2.1 second.2.1, fun top => ?_⟩
  -- neither reaches the top, so the top of their join is no silent rise
  rw [show v.kind ⊔ w.kind = ⊤ from top] at up up'
  have low := (laws.below_top _ up).resolve_right left
  have low' := (laws.below_top _ up').resolve_right right
  rw [low, low', bot_sup_eq] at top
  exact absurd top bot_ne_top

/-- Neither side leaves a trace when the two join. -/
def JoinsSilently (silent : κ → κ → Prop) (v w : Level κ) : Prop :=
  Silent silent v (join v w) ∧ Silent silent w (join v w)

instance [DecidableRel silent] (v w : Level κ) : Decidable (JoinsSilently silent v w) :=
  inferInstanceAs (Decidable ((_ ∧ _ ∧ _) ∧ _ ∧ _ ∧ _))

theorem JoinsSilently.comm {v w : Level κ} : JoinsSilently silent v w ↔ JoinsSilently silent w v := by
  rw [JoinsSilently, JoinsSilently, join_comm w v, and_comm]

theorem joinsSilently_self (laws : SilentKinds silent) (v : Level κ) : JoinsSilently silent v v := by
  rw [JoinsSilently, join_self, and_self]
  exact Silent.refl laws v

theorem joinsSilently_bottom [Nontrivial κ] (laws : SilentKinds silent) (v : Level κ) :
    JoinsSilently silent ⟨0, ⊥⟩ v := by
  rw [JoinsSilently, bottom_join]
  exact ⟨Silent.bottom laws v, Silent.refl laws v⟩

theorem joinsSilently_deeper {v w : Level κ} :
    JoinsSilently silent v.deeper w.deeper ↔ JoinsSilently silent v w := by
  rw [JoinsSilently, JoinsSilently, join_deeper, silent_deeper, silent_deeper]

theorem joinsSilently_deeper_left (v : Level κ) {w : Level κ} (shallow : w.depth = 0) (known : w.kind ≠ ⊤) :
    JoinsSilently silent v.deeper w ↔ JoinsSilently silent v w := by
  have below : Silent silent w (join v w).deeper ↔ Silent silent w (join v w) := by
    simp only [Silent, deeper, shallow, Nat.zero_le, known, false_implies]
  rw [JoinsSilently, JoinsSilently, join_deeper_left v shallow known, silent_deeper, below]

end Level

end Auger.General
