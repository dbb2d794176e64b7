import ClosureMachine.Host.StringTable
import Mathlib.Tactic.Common
import Mathlib.Data.List.Nodup

/-!
# The string table holds what it was given

A table is three structures that have to agree: the texts by number, the numbers by text, and the
list of free numbers. `Sound` says that they do, `Holds` which text has which number, and each
operation is then described by what it does to `Holds` alone.
-/

set_option autoImplicit false

namespace ClosureMachine.StringTable

/-- The text has the number. -/
def Holds (t : StringTable) (id : Nat) (s : String) : Prop := t.slots[id]? = some (some s)

/-- The three structures agree. -/
structure Sound (t : StringTable) : Prop where
  index : ∀ s id, t.index[s]? = some id ↔ t.Holds id s
  free : ∀ id, id ∈ t.free ↔ t.slots[id]? = some none
  nodup : t.free.Nodup

theorem empty_sound : Sound empty where
  index := by simp [empty, Holds]
  free := by simp [empty]
  nodup := List.nodup_nil

theorem Holds.text {t : StringTable} {id : Nat} {s : String} (h : t.Holds id s) : t.text id = s := by
  unfold StringTable.text
  rw [h]
  rfl

theorem Holds.unique {t : StringTable} {id : Nat} {s s' : String} (h : t.Holds id s)
    (h' : t.Holds id s') : s = s' := by
  unfold Holds at h h'
  rw [h] at h'
  simpa using h'

theorem Holds.lt {t : StringTable} {id : Nat} {s : String} (h : t.Holds id s) : id < t.slots.size := by
  by_contra hge
  unfold Holds at h
  rw [Array.getElem?_eq_none (by omega)] at h
  simp at h

/-- A number that stands for a text other than by default. -/
theorem holds_of_getD {t : StringTable} {id : Nat} {s : String} (h : (t.slots[id]?).getD none = some s) :
    t.Holds id s := by
  unfold Holds
  cases hs : t.slots[id]? with
  | none => rw [hs] at h; simp at h
  | some o => rw [hs] at h; simpa using h

/-- Equal texts have equal numbers. -/
theorem Sound.inj {t : StringTable} (ht : t.Sound) {id id' : Nat} {s : String} (h : t.Holds id s)
    (h' : t.Holds id' s) : id = id' := by
  rw [← ht.index] at h h'
  rw [h] at h'
  simpa using h'

/-! ## Interning -/

/-- A text that was not held is given a number that held nothing. -/
theorem Sound.add {t : StringTable} (ht : t.Sound) {s : String} {id : Nat}
    {slots : Array (Option String)} {free : List Nat} (hnew : ∀ id, ¬ t.Holds id s)
    (hslots : ∀ id', slots[id']? = if id' = id then some (some s) else t.slots[id']?)
    (hvacant : ∀ s', ¬ t.Holds id s') (hfree : ∀ id', id' ∈ free ↔ id' ∈ t.free ∧ id' ≠ id)
    (hnodup : free.Nodup) :
    (⟨slots, t.index.insert s id, free⟩ : StringTable).Sound ∧
      ∀ id' s', (⟨slots, t.index.insert s id, free⟩ : StringTable).Holds id' s' ↔
        t.Holds id' s' ∨ (id' = id ∧ s' = s) := by
  have hholds : ∀ id' s', (⟨slots, t.index.insert s id, free⟩ : StringTable).Holds id' s' ↔
      t.Holds id' s' ∨ (id' = id ∧ s' = s) := by
    intro id' s'
    show slots[id']? = some (some s') ↔ _
    rw [hslots]
    by_cases hq : id' = id
    · subst hq
      simp only [if_true, Option.some.injEq, true_and, hvacant s', false_or]
      exact eq_comm
    · simp [hq, Holds]
  refine ⟨⟨fun s' id' => ?_, fun id' => ?_, hnodup⟩, hholds⟩
  · rw [hholds, Std.HashMap.getElem?_insert]
    by_cases hq : s = s'
    · subst hq
      simp only [beq_self_eq_true, if_true, Option.some.injEq, and_true, hnew id', false_or]
      exact eq_comm
    · rw [if_neg (by simpa using hq), ht.index]
      simp [Ne.symm hq]
  · show id' ∈ free ↔ slots[id']? = some none
    rw [hslots, hfree, ht.free]
    by_cases hq : id' = id <;> simp [hq]

/-- After interning, the text has the number that was given, and every text that was held still has
its own. -/
theorem Sound.intern {t : StringTable} (ht : t.Sound) (s : String) :
    (t.intern s).2.Sound ∧
      ∀ id s', (t.intern s).2.Holds id s' ↔ t.Holds id s' ∨ (id = (t.intern s).1 ∧ s' = s) := by
  unfold StringTable.intern
  cases hfound : t.index[s]? with
  | some id =>
    have hheld : t.Holds id s := (ht.index s id).mp hfound
    refine ⟨ht, fun id' s' => ⟨Or.inl, ?_⟩⟩
    rintro (hh | ⟨rfl, rfl⟩)
    · exact hh
    · exact hheld
  | none =>
    have hnew : ∀ id, ¬ t.Holds id s := by
      intro id hh
      rw [← ht.index, hfound] at hh
      simp at hh
    cases hfree : t.free with
    | cons id rest =>
      have hslot : t.slots[id]? = some none := (ht.free id).mp (by simp [hfree])
      have hlt : id < t.slots.size := by
        by_contra hge
        rw [Array.getElem?_eq_none (by omega)] at hslot
        simp at hslot
      have hnodup : id ∉ rest ∧ rest.Nodup := by simpa [hfree] using ht.nodup
      refine ht.add hnew (fun id' => ?_) (fun s' => by simp [Holds, hslot]) (fun id' => ?_) hnodup.2
      · rw [Array.getElem?_setIfInBounds]
        by_cases hq : id' = id
        · subst hq
          simp [hlt]
        · rw [if_neg (Ne.symm hq), if_neg hq]
      · rw [hfree]
        by_cases hq : id' = id
        · simp [hq, hnodup.1]
        · simp [hq]
    | nil =>
      refine ht.add hnew (fun id' => ?_) (fun s' => by simp [Holds]) (fun id' => by simp [hfree])
        List.nodup_nil
      rw [Array.getElem?_push]

theorem Sound.holds_intern {t : StringTable} (ht : t.Sound) (s : String) :
    (t.intern s).2.Holds (t.intern s).1 s :=
  ((ht.intern s).2 _ _).mpr (Or.inr ⟨rfl, rfl⟩)

/-! ## Releasing -/

theorem Sound.release {t : StringTable} (ht : t.Sound) (id : Nat) :
    (t.release id).Sound ∧ ∀ id' s, (t.release id).Holds id' s ↔ t.Holds id' s ∧ id' ≠ id := by
  unfold StringTable.release
  cases hslot : (t.slots[id]?).getD none with
  | none =>
    refine ⟨ht, fun id' s => ⟨fun hh => ⟨hh, ?_⟩, And.left⟩⟩
    rintro rfl
    unfold Holds at hh
    rw [hh] at hslot
    simp at hslot
  | some s =>
    have hheld : t.Holds id s := holds_of_getD hslot
    have hlt : id < t.slots.size := hheld.lt
    have hslots : ∀ id', (t.slots.setIfInBounds id none)[id']? =
        if id' = id then some none else t.slots[id']? := by
      intro id'
      rw [Array.getElem?_setIfInBounds]
      by_cases hq : id' = id
      · subst hq
        simp [hlt]
      · rw [if_neg (Ne.symm hq), if_neg hq]
    have hholds : ∀ id' s', (⟨t.slots.setIfInBounds id none, t.index.erase s, id :: t.free⟩ :
        StringTable).Holds id' s' ↔ t.Holds id' s' ∧ id' ≠ id := by
      intro id' s'
      show (t.slots.setIfInBounds id none)[id']? = some (some s') ↔ _
      rw [hslots]
      by_cases hq : id' = id <;> simp [hq, Holds]
    refine ⟨⟨fun s' id' => ?_, fun id' => ?_, ?_⟩, hholds⟩
    · rw [hholds, Std.HashMap.getElem?_erase]
      by_cases hq : s = s'
      · subst hq
        simp only [beq_self_eq_true, if_true, reduceCtorEq, false_iff, not_and, not_not]
        exact fun hh => ht.inj hh hheld
      · rw [if_neg (by simpa using hq), ht.index]
        refine ⟨fun hh => ⟨hh, ?_⟩, And.left⟩
        rintro rfl
        exact hq (hheld.unique hh)
    · show id' ∈ id :: t.free ↔ (t.slots.setIfInBounds id none)[id']? = some none
      rw [hslots, List.mem_cons, ht.free]
      by_cases hq : id' = id <;> simp [hq]
    · refine List.nodup_cons.mpr ⟨?_, ht.nodup⟩
      rw [ht.free]
      unfold Holds at hheld
      rw [hheld]
      simp

/-- Releasing one number after the other, except those that are marked. -/
theorem Sound.releaseAll {t : StringTable} (ht : t.Sound) (marked : Nat → Bool) (ids : List Nat) :
    (ids.foldl (fun t id => if marked id then t else t.release id) t).Sound ∧
      ∀ id s, (ids.foldl (fun t id => if marked id then t else t.release id) t).Holds id s ↔
        t.Holds id s ∧ (id ∈ ids → marked id = true) := by
  induction ids generalizing t with
  | nil => exact ⟨ht, by simp⟩
  | cons i rest ih =>
    rw [List.foldl_cons]
    by_cases hm : marked i = true
    · rw [if_pos hm]
      refine ⟨(ih ht).1, fun id s => ?_⟩
      rw [(ih ht).2]
      by_cases hq : id = i <;> simp [hq, hm]
    · rw [if_neg hm]
      obtain ⟨hsound, hholds⟩ := ht.release i
      refine ⟨(ih hsound).1, fun id s => ?_⟩
      rw [(ih hsound).2, hholds]
      by_cases hq : id = i <;> simp [hq, hm]

theorem getD_marks (size : Nat) (live : List Nat) (id : Nat) :
    (marks size live).getD id false = true ↔ id < size ∧ id ∈ live := by
  unfold marks
  suffices hgen : ∀ (acc : Array Bool), acc.size = size →
      ((live.foldl (fun marked id => marked.setIfInBounds id true) acc).getD id false = true ↔
        acc.getD id false = true ∨ (id < size ∧ id ∈ live)) by
    have hnone : (Array.replicate size false).getD id false = false := by
      rw [Array.getD_eq_getD_getElem?, Array.getElem?_replicate]
      split <;> rfl
    rw [hgen _ (by simp), hnone]
    simp
  induction live with
  | nil => simp
  | cons i rest ih =>
    intro acc hsize
    rw [List.foldl_cons, ih _ (by simpa using hsize), Array.getD_eq_getD_getElem?,
      Array.getD_eq_getD_getElem?, Array.getElem?_setIfInBounds]
    by_cases hq : i = id
    · subst hq
      by_cases hlt : i < size
      · simp [hsize, hlt]
      · simp [hsize, hlt]
    · simp [hq, Ne.symm hq]

/-- A sweep keeps exactly the texts whose numbers are listed. -/
theorem Sound.retain {t : StringTable} (ht : t.Sound) (live : List Nat) :
    (t.retain live).Sound ∧ ∀ id s, (t.retain live).Holds id s ↔ t.Holds id s ∧ id ∈ live := by
  obtain ⟨hsound, hholds⟩ :=
    ht.releaseAll (fun id => (marks t.slots.size live).getD id false) (List.range t.slots.size)
  refine ⟨hsound, fun id s => ?_⟩
  show (List.foldl _ t _).Holds id s ↔ _
  rw [hholds, getD_marks, List.mem_range]
  constructor
  · rintro ⟨hh, hmem⟩
    exact ⟨hh, (hmem hh.lt).2⟩
  · rintro ⟨hh, hmem⟩
    exact ⟨hh, fun hlt => ⟨hlt, hmem⟩⟩

end ClosureMachine.StringTable
