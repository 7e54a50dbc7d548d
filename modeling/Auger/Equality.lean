import Auger.SamplerFacts

set_option autoImplicit false

/-! Equality of stored values, as the `bson` crate derives it: symmetric and
transitive, though NaN differs from itself and documents ignore order. -/

namespace Auger

namespace Bson

theorem eqFields_all (left right : Fields) :
    eqFields left right = true ↔
      ∀ entry ∈ left, ∃ other, right.lookup entry.1 = some other ∧ entry.2.eq other = true := by
  induction left with
  | nil => simp [eqFields]
  | cons entry rest ih =>
      rcases entry with ⟨key, value⟩
      simp only [eqFields, Bool.and_eq_true, ih, List.forall_mem_cons]
      apply and_congr_left
      intro _
      cases right.lookup key <;> simp

end Bson

theorem fieldsDistinct_keys {fields : Fields} (distinct : fieldsDistinct fields = true) :
    (fields.map Prod.fst).Nodup := by
  induction fields with
  | nil => exact List.nodup_nil
  | cons entry rest ih =>
      rcases entry with ⟨key, value⟩
      simp only [fieldsDistinct, Bool.and_eq_true, Bool.not_eq_true'] at distinct
      rw [List.map_cons, List.nodup_cons]
      refine ⟨?_, ih distinct.2⟩
      intro again
      obtain ⟨other, member, same⟩ := List.mem_map.mp again
      have present : rest.any (fun entry => entry.1 == key) = true :=
        List.any_eq_true.mpr ⟨other, member, by simpa using same⟩
      rw [distinct.1.1] at present
      cases present

theorem lookup_of_distinct {fields : Fields} (distinct : (fields.map Prod.fst).Nodup) {key : String}
    {value : Bson} (member : (key, value) ∈ fields) : fields.lookup key = some value := by
  induction fields with
  | nil => cases member
  | cons entry rest ih =>
      rcases entry with ⟨k, v⟩
      rw [List.map_cons, List.nodup_cons] at distinct
      rcases List.mem_cons.mp member with same | later
      · cases same
        exact List.lookup_cons_self
      · have differ : key ≠ k := by
          rintro rfl
          exact distinct.1 (List.mem_map.mpr ⟨_, later, rfl⟩)
        rw [List.lookup_cons, beq_false_of_ne differ]
        exact ih distinct.2 later

theorem keys_of_eqFields {left right : Fields} (distinct : (left.map Prod.fst).Nodup)
    (sameLength : left.length = right.length) (same : Bson.eqFields left right = true) {key : String}
    (member : key ∈ right.map Prod.fst) : key ∈ left.map Prod.fst := by
  have inside : left.map Prod.fst ⊆ right.map Prod.fst := by
    intro k held
    obtain ⟨entry, stored, rfl⟩ := List.mem_map.mp held
    obtain ⟨other, found, -⟩ := (Bson.eqFields_all left right).mp same entry stored
    exact List.mem_map.mpr ⟨_, General.SortedMap.mem_of_lookup found, rfl⟩
  have shuffled : (left.map Prod.fst).Perm (right.map Prod.fst) :=
    (List.subperm_of_subset distinct inside).perm_of_length_le (by simp [sameLength])
  exact shuffled.mem_iff.mpr member

theorem eqFields_symm {left right : Fields} (first : fieldsDistinct left = true)
    (second : fieldsDistinct right = true) (sameLength : left.length = right.length)
    (same : Bson.eqFields left right = true)
    (each : ∀ entry ∈ left, ∀ other : Bson, other.distinctKeys = true → entry.2.eq other = true →
      other.eq entry.2 = true) : Bson.eqFields right left = true := by
  rw [Bson.eqFields_all]
  rintro ⟨key, value⟩ member
  have held := keys_of_eqFields (fieldsDistinct_keys first) sameLength same
    (List.mem_map.mpr ⟨_, member, rfl⟩)
  obtain ⟨⟨key', own⟩, stored, rfl⟩ := List.mem_map.mp held
  obtain ⟨other, found, equal⟩ := (Bson.eqFields_all left right).mp same _ stored
  rw [lookup_of_distinct (fieldsDistinct_keys second) member] at found
  cases found
  exact ⟨own, lookup_of_distinct (fieldsDistinct_keys first) stored,
    each _ stored value (fieldsDistinct_mem second member) equal⟩

mutual
theorem Bson.eq_symm (a b : Bson) (first : a.distinctKeys = true) (second : b.distinctKeys = true)
    (same : a.eq b = true) : b.eq a = true := by
  cases a with
  | document left =>
      cases b with
      | document right =>
          simp only [Bson.distinctKeys] at first second
          simp only [Bson.eq, Bool.and_eq_true, beq_iff_eq] at same ⊢
          exact ⟨same.1.symm, eqFields_symm first second same.1 same.2
            (entries_symm left (fun entry member => fieldsDistinct_mem first member))⟩
      | _ => cases same
  | javaScriptCodeWithScope code left =>
      cases b with
      | javaScriptCodeWithScope code' right =>
          simp only [Bson.distinctKeys] at first second
          simp only [Bson.eq, Bool.and_eq_true, beq_iff_eq] at same ⊢
          exact ⟨⟨same.1.1.symm, same.1.2.symm⟩, eqFields_symm first second same.1.2 same.2
            (entries_symm left (fun entry member => fieldsDistinct_mem first member))⟩
      | _ => cases same
  | array left =>
      cases b with
      | array right =>
          simp only [Bson.distinctKeys] at first second
          simp only [Bson.eq] at same ⊢
          exact eqItems_symm left right first second same
      | _ => cases same
  | double x =>
      cases b with
      | double y =>
          simp only [Bson.eq, Bool.and_eq_true, Bool.or_eq_true, Bool.not_eq_true', beq_iff_eq] at same ⊢
          exact ⟨⟨same.1.2, same.1.1⟩, same.2.imp Eq.symm And.symm⟩
      | _ => cases same
  | _ =>
      cases b <;> first
        | (cases same; done)
        | rfl
        | (simp only [Bson.eq, Bool.and_eq_true, beq_iff_eq] at same ⊢; simp [same])
theorem entries_symm (entries : List (String × Bson))
    (distinct : ∀ entry ∈ entries, entry.2.distinctKeys = true) :
    ∀ entry ∈ entries, ∀ other : Bson, other.distinctKeys = true → entry.2.eq other = true →
      other.eq entry.2 = true := by
  cases entries with
  | nil => simp
  | cons head rest =>
      rcases head with ⟨key, value⟩
      intro entry member other second same
      rcases List.mem_cons.mp member with rfl | later
      · exact Bson.eq_symm value other (distinct _ member) second same
      · exact entries_symm rest (fun e m => distinct e (List.mem_cons_of_mem _ m)) entry later other second same
theorem eqItems_symm (left right : List Bson) (first : itemsDistinct left = true)
    (second : itemsDistinct right = true) (same : Bson.eqItems left right = true) :
    Bson.eqItems right left = true := by
  cases left with
  | nil =>
      cases right with
      | nil => rfl
      | cons y ys => cases same
  | cons x xs =>
      cases right with
      | nil => cases same
      | cons y ys =>
          simp only [itemsDistinct, Bool.and_eq_true] at first second
          simp only [Bson.eqItems, Bool.and_eq_true] at same ⊢
          exact ⟨Bson.eq_symm x y first.1 second.1 same.1, eqItems_symm xs ys first.2 second.2 same.2⟩
end

theorem eqFields_trans {left middle right : Fields} (first : Bson.eqFields left middle = true)
    (second : Bson.eqFields middle right = true)
    (each : ∀ entry ∈ left, ∀ b c : Bson, entry.2.eq b = true → b.eq c = true → entry.2.eq c = true) :
    Bson.eqFields left right = true := by
  rw [Bson.eqFields_all] at first second ⊢
  intro entry member
  obtain ⟨b, found, equal⟩ := first entry member
  obtain ⟨c, later, again⟩ := second _ (General.SortedMap.mem_of_lookup found)
  exact ⟨c, later, each entry member b c equal again⟩

mutual
theorem Bson.eq_trans (a b c : Bson) (first : a.eq b = true) (second : b.eq c = true) :
    a.eq c = true := by
  cases a with
  | document left =>
      cases b with
      | document middle =>
          cases c with
          | document right =>
              simp only [Bson.eq, Bool.and_eq_true, beq_iff_eq] at first second ⊢
              exact ⟨first.1.trans second.1, eqFields_trans first.2 second.2 (entries_trans left)⟩
          | _ => cases second
      | _ => cases first
  | javaScriptCodeWithScope code left =>
      cases b with
      | javaScriptCodeWithScope code' middle =>
          cases c with
          | javaScriptCodeWithScope code'' right =>
              simp only [Bson.eq, Bool.and_eq_true, beq_iff_eq] at first second ⊢
              exact ⟨⟨first.1.1.trans second.1.1, first.1.2.trans second.1.2⟩,
                eqFields_trans first.2 second.2 (entries_trans left)⟩
          | _ => cases second
      | _ => cases first
  | array left =>
      cases b with
      | array middle =>
          cases c with
          | array right =>
              simp only [Bson.eq] at first second ⊢
              exact eqItems_trans left middle right first second
          | _ => cases second
      | _ => cases first
  | double x =>
      cases b with
      | double y =>
          cases c with
          | double z =>
              simp only [Bson.eq, Bool.and_eq_true, Bool.or_eq_true, Bool.not_eq_true', beq_iff_eq] at *
              refine ⟨⟨first.1.1, second.1.2⟩, ?_⟩
              rcases first.2 with rfl | zeros
              · exact second.2
              · rcases second.2 with rfl | later
                · exact .inr zeros
                · exact .inr ⟨zeros.1, later.2⟩
          | _ => cases second
      | _ => cases first
  | _ =>
      cases b <;> first
        | (cases first; done)
        | (cases c <;> first
            | (cases second; done)
            | rfl
            | (simp only [Bson.eq, Bool.and_eq_true, beq_iff_eq] at first second ⊢; simp [first, second]))
theorem entries_trans (entries : List (String × Bson)) :
    ∀ entry ∈ entries, ∀ b c : Bson, entry.2.eq b = true → b.eq c = true → entry.2.eq c = true := by
  cases entries with
  | nil => simp
  | cons head rest =>
      rcases head with ⟨key, value⟩
      intro entry member b c first second
      rcases List.mem_cons.mp member with rfl | later
      · exact Bson.eq_trans value b c first second
      · exact entries_trans rest entry later b c first second
theorem eqItems_trans (left middle right : List Bson) (first : Bson.eqItems left middle = true)
    (second : Bson.eqItems middle right = true) : Bson.eqItems left right = true := by
  cases left with
  | nil =>
      cases middle with
      | nil => exact second
      | cons y ys => cases first
  | cons x xs =>
      cases middle with
      | nil => cases first
      | cons y ys =>
          cases right with
          | nil => cases second
          | cons z zs =>
              simp only [Bson.eqItems, Bool.and_eq_true] at first second ⊢
              exact ⟨Bson.eq_trans x y z first.1 second.1, eqItems_trans xs ys zs first.2 second.2⟩
end

end Auger
