import ClosureMachine.Proofs.Actions
import Mathlib.Tactic.Common

/-!
# Reading back what was written

Every change of the heap is a sequence of single-word writes. Here is what a later look at a position
finds after each of them, and which fields of the heap they leave alone. Nothing later in the theory
opens `setWord`, `setWords` or `fill`. An allocation that has made room puts a blank node behind the others
(`Heap.blank`), which the constructors then fill in.

The actions on the array make sure of their positions; at positions of the array they are these writes.
-/

set_option autoImplicit false

namespace ClosureMachine.Heap

/-- A word of a node is one of the three of the header, or it stands behind them. -/
theorem cases_header (k : Nat) : k = 0 ∨ k = 1 ∨ k = 2 ∨ ∃ j, k = headerSize + j := by
  by_cases hk : k < headerSize
  · have hheader : k = 0 ∨ k = 1 ∨ k = 2 := by
      unfold headerSize at hk
      omega
    rcases hheader with h | h | h <;> simp [h]
  · exact .inr (.inr (.inr ⟨k - headerSize, by omega⟩))

/-! ## One word -/

theorem word_setWord (h : Heap) (i j : Nat) (w : Word) (hi : i < h.words.size) :
    (h.setWord i w).word j = if j = i then w else h.word j := by
  unfold setWord word
  by_cases hji : j = i
  · subst hji
    simp [Array.getD, hi]
  · have hij : i ≠ j := fun hq => hji hq.symm
    simp [Array.getD_eq_getD_getElem?, Array.getElem?_setIfInBounds_ne hij, hji]

theorem word_setWord_self (h : Heap) (i : Nat) (w : Word) (hi : i < h.words.size) :
    (h.setWord i w).word i = w := by
  rw [word_setWord h i i w hi, if_pos rfl]

/-- A write elsewhere is not seen, in bounds or not. -/
theorem word_setWord_ne (h : Heap) {i j : Nat} (w : Word) (hji : j ≠ i) :
    (h.setWord i w).word j = h.word j := by
  have hij : i ≠ j := fun hq => hji hq.symm
  simp [setWord, word, Array.getD_eq_getD_getElem?, Array.getElem?_setIfInBounds_ne hij]

@[simp] theorem setWord_size (h : Heap) (i : Nat) (w : Word) :
    (h.setWord i w).words.size = h.words.size := by simp [setWord]

@[simp] theorem setWord_semispace (h : Heap) (i : Nat) (w : Word) :
    (h.setWord i w).semispace = h.semispace := rfl

@[simp] theorem setWord_base (h : Heap) (i : Nat) (w : Word) :
    (h.setWord i w).base = h.base := rfl

@[simp] theorem setWord_free (h : Heap) (i : Nat) (w : Word) :
    (h.setWord i w).free = h.free := rfl

@[simp] theorem setWord_epoch (h : Heap) (i : Nat) (w : Word) :
    (h.setWord i w).epoch = h.epoch := rfl

@[simp] theorem setWord_collections (h : Heap) (i : Nat) (w : Word) :
    (h.setWord i w).collections = h.collections := rfl

/-! ## A run of words -/

@[simp] theorem setWords_fields (h : Heap) (start : Nat) (ws : List Word) :
    (h.setWords start ws).words.size = h.words.size ∧
      (h.setWords start ws).semispace = h.semispace ∧
      (h.setWords start ws).base = h.base ∧ (h.setWords start ws).free = h.free ∧
      (h.setWords start ws).epoch = h.epoch ∧
      (h.setWords start ws).collections = h.collections := by
  induction ws generalizing h start with
  | nil => simp [setWords]
  | cons w rest ih => simpa [setWords] using ih (h.setWord start w) (start + 1)

/-- Positions before the run and behind it keep their words. -/
theorem word_setWords_outside (h : Heap) (start : Nat) (ws : List Word) {j : Nat}
    (hj : j < start ∨ start + ws.length ≤ j) : (h.setWords start ws).word j = h.word j := by
  induction ws generalizing h start with
  | nil => rfl
  | cons w rest ih =>
    have hne : j ≠ start := by
      simp only [List.length_cons] at hj
      omega
    rw [setWords, ih (h.setWord start w) (start + 1) (by simp only [List.length_cons] at hj; omega),
      word_setWord_ne h w hne]

/-- The `k`-th word of the run stands `k` places behind its start. -/
theorem word_setWords_inside (h : Heap) (start : Nat) (ws : List Word)
    (hb : start + ws.length ≤ h.words.size) {k : Nat} {w : Word} (hk : ws[k]? = some w) :
    (h.setWords start ws).word (start + k) = w := by
  induction ws generalizing h start k with
  | nil => simp at hk
  | cons v rest ih =>
    simp only [List.length_cons] at hb
    rw [setWords]
    cases k with
    | zero =>
      obtain rfl : v = w := by simpa using hk
      rw [word_setWords_outside _ _ _ (by omega)]
      exact word_setWord_self h start v (by omega)
    | succ k =>
      have hk' : rest[k]? = some w := by simpa using hk
      have := ih (h.setWord start v) (start + 1) (by simp; omega) hk'
      rwa [show start + 1 + k = start + (k + 1) by omega] at this

/-! ## The same word many times -/

theorem fill_eq_setWords (h : Heap) (start : Nat) (w : Word) (n : Nat) :
    h.fill start w n = h.setWords start (List.replicate n w) := by
  induction n generalizing h start with
  | zero => rfl
  | succ n ih => rw [fill, ih, List.replicate_succ, setWords]

@[simp] theorem fill_fields (h : Heap) (start : Nat) (w : Word) (n : Nat) :
    (h.fill start w n).words.size = h.words.size ∧
      (h.fill start w n).semispace = h.semispace ∧
      (h.fill start w n).base = h.base ∧ (h.fill start w n).free = h.free ∧
      (h.fill start w n).epoch = h.epoch ∧
      (h.fill start w n).collections = h.collections := by
  rw [fill_eq_setWords]
  exact setWords_fields h start _

theorem word_fill_outside (h : Heap) (start : Nat) (w : Word) (n : Nat) {j : Nat}
    (hj : j < start ∨ start + n ≤ j) : (h.fill start w n).word j = h.word j := by
  rw [fill_eq_setWords]
  exact word_setWords_outside h start _ (by simpa using hj)

theorem word_fill_inside (h : Heap) (start : Nat) (w : Word) (n : Nat)
    (hb : start + n ≤ h.words.size) {j : Nat} (hj : start ≤ j ∧ j < start + n) :
    (h.fill start w n).word j = w := by
  have hk : (List.replicate n w)[j - start]? = some w := by
    rw [List.getElem?_replicate, if_pos (by omega)]
  have := word_setWords_inside h start (List.replicate n w) (by simpa using hb) hk
  rwa [← fill_eq_setWords, show start + (j - start) = j by omega] at this

/-! ## A blank node -/

/-- The heap with a header and empty words behind the nodes. -/
def blank (h : Heap) (kind : Kind) (size children : Nat) : Heap :=
  ({ h with free := h.free + size }.setWords h.free [.tag kind, .count size, .count children]).fill
    (h.free + headerSize) .empty (size - headerSize)

section Blank

variable {h : Heap} {kind : Kind} {size children : Nat}

theorem blank_fields : (h.blank kind size children).words.size = h.words.size ∧
    (h.blank kind size children).semispace = h.semispace ∧
    (h.blank kind size children).base = h.base ∧
    (h.blank kind size children).free = h.free + size ∧
    (h.blank kind size children).epoch = h.epoch := by
  simp [blank]

@[simp] theorem blank_collections : (h.blank kind size children).collections = h.collections := by
  simp [blank]

theorem word_blank_below {j : Nat} (hj : j < h.free) :
    (h.blank kind size children).word j = h.word j := by
  rw [blank, word_fill_outside _ _ _ _ (by omega),
    word_setWords_outside _ _ _ (by omega)]
  rfl

theorem word_blank_header {k : Nat} {v : Word} (hfit : h.free + size ≤ h.words.size)
    (hsize : headerSize ≤ size)
    (hk : [Word.tag kind, .count size, .count children][k]? = some v) :
    (h.blank kind size children).word (h.free + k) = v := by
  unfold headerSize at hsize
  have hlt : k < 3 := by simpa using (List.getElem?_eq_some_iff.mp hk).1
  rw [blank, word_fill_outside _ _ _ _ (by unfold headerSize; omega)]
  exact word_setWords_inside _ _ _ (by simp only [List.length_cons, List.length_nil]; omega) hk

theorem word_blank_behind {k : Nat} (hfit : h.free + size ≤ h.words.size)
    (hk : headerSize + k < size) :
    (h.blank kind size children).word (h.free + headerSize + k) = .empty := by
  rw [blank]
  exact word_fill_inside _ _ _ _ (by simp; omega) (by omega)

end Blank

/-! ## Inside the array -/

section Inside

variable {h : Heap} {i n : Nat}

theorem within_eq (hi : i < h.words.size) : within i h = .ok () := if_pos hi

theorem spans_eq {start stop : Nat} (hle : start ≤ stop) (hstop : stop ≤ h.words.size) :
    spans start stop h = .ok () := if_pos ⟨hle, hstop⟩

theorem look_eq (hi : i < h.words.size) : look i h = .ok (h.word i) := by
  simp [look, within_eq hi]

theorem put_eq (hi : i < h.words.size) (w : Word) : put i w h = .ok () (h.setWord i w) := by
  simp [put, within_eq hi]

/-- A position outside the array is noticed before anything is done. -/
theorem put_outside (hi : ¬ i < h.words.size) (w : Word) :
    put i w h = .error (.outsideArray i h.words.size) h := by
  simp [put, within, hi]

theorem clear_eq {start stop : Nat} (hle : start ≤ stop) (hstop : stop ≤ h.words.size) :
    clear start stop h = .ok () (h.fill start .empty (stop - start)) := by
  simp [clear, spans_eq hle hstop]

theorem countAt_eq (hi : i < h.words.size) (hw : h.word i = .count n) : countAt i h = .ok n := by
  simp [countAt, look_eq hi, hw]

/-- The writes do not look at where the free words begin. -/
theorem setWords_withFree (h : Heap) (free start : Nat) (ws : List Word) :
    { h with free := free }.setWords start ws = { h.setWords start ws with free := free } := by
  induction ws generalizing h start with
  | nil => rfl
  | cons w rest ih => exact ih (h.setWord start w) (start + 1)

theorem fill_withFree (h : Heap) (free start : Nat) (w : Word) (n : Nat) :
    { h with free := free }.fill start w n = { h.fill start w n with free := free } := by
  rw [fill_eq_setWords, fill_eq_setWords, setWords_withFree]

theorem append_eq {kind : Kind} {size children : Nat} (hsize : headerSize ≤ size)
    (hfit : h.free + size ≤ h.words.size) :
    append kind size children h = .ok ⟨h.free, h.epoch⟩ (h.blank kind size children) := by
  have hblank : h.blank kind size children =
      { (((h.setWord h.free (.tag kind)).setWord (h.free + 1) (.count size)).setWord (h.free + 2)
          (.count children)).fill (h.free + headerSize) .empty (size - headerSize)
        with free := h.free + size } := by
    rw [blank, setWords_withFree, fill_withFree]
    rfl
  unfold headerSize at hsize hblank
  rw [hblank, append]
  simp only [Actions.bind_apply, Actions.get_apply, headerSize]
  rw [put_eq (by omega)]
  dsimp only
  rw [put_eq (by simp; omega)]
  dsimp only
  rw [put_eq (by simp; omega)]
  dsimp only
  rw [clear_eq (by omega) (by simpa using hfit)]
  simp [show h.free + size - (h.free + 3) = size - 3 by omega]

end Inside

/-! ## Through a reference -/

/-- The reference is current and leads to a header of the allocated part, with this kind, size and
number of children; and the allocated part lies inside the array. -/
structure Leads (h : Heap) (r : Ref) (k : Kind) (n c : Nat) : Prop where
  epoch : r.epoch = h.epoch
  tag : h.word r.index = .tag k
  size : h.word (r.index + 1) = .count n
  children : h.word (r.index + 2) = .count c
  least : headerSize ≤ n
  lower : h.base ≤ r.index
  upper : r.index + n ≤ h.free
  inside : h.free ≤ h.words.size

namespace Leads

variable {h : Heap} {r : Ref} {kind : Kind} {size children offset : Nat}

theorem kind_eq (hl : h.Leads r kind size children) : Heap.kind r h = .ok kind := by
  have hlow := hl.lower
  have hup := hl.upper
  have hleast := hl.least
  have hinside := hl.inside
  unfold headerSize at hleast
  have hcurrent : ¬ (r.epoch ≠ h.epoch ∨ r.index < h.base) := by
    rintro (hne | hlt)
    · exact hne hl.epoch
    · omega
  have hend : ¬ h.free < r.index + headerSize := by
    unfold headerSize
    omega
  simp only [Heap.kind, Actions.look_bind, Actions.look_read, if_neg hcurrent, if_neg hend,
    Actions.look_pure, look_eq (show r.index < h.words.size by omega), hl.tag]

theorem size_eq (hl : h.Leads r kind size children) : Heap.size r h = .ok size := by
  have hup := hl.upper
  have hleast := hl.least
  have hinside := hl.inside
  unfold headerSize at hleast
  simp [Heap.size, hl.kind_eq, countAt_eq (show r.index + 1 < h.words.size by omega) hl.size]

theorem childCount_eq (hl : h.Leads r kind size children) : Heap.childCount r h = .ok children := by
  have hup := hl.upper
  have hleast := hl.least
  have hinside := hl.inside
  unfold headerSize at hleast
  simp [Heap.childCount, hl.kind_eq, countAt_eq (show r.index + 2 < h.words.size by omega) hl.children]

theorem expect_eq (hl : h.Leads r kind size children) (expected : Kind) :
    Heap.expect r expected h =
      if kind = expected then .ok () else .error (.kindMismatch r.index expected kind) := by
  by_cases hk : kind = expected <;> simp [Heap.expect, hl.kind_eq, hk]

theorem checkOffset_eq (hl : h.Leads r kind size children) (hlow : headerSize ≤ offset)
    (hup : offset < size) : checkOffset r offset h = .ok () := by
  simp [checkOffset, hl.size_eq, Nat.not_lt.mpr hlow, Nat.not_le.mpr hup]

theorem read_eq (hl : h.Leads r kind size children) (hlow : headerSize ≤ offset) (hup : offset < size) :
    Heap.read r offset h = .ok (h.word (r.index + offset)) := by
  have hend := hl.upper
  have hinside := hl.inside
  simp [Heap.read, hl.checkOffset_eq hlow hup, look_eq (show r.index + offset < h.words.size by omega)]

theorem write_eq (hl : h.Leads r kind size children) (hlow : headerSize ≤ offset) (hup : offset < size)
    (w : Word) : Heap.write r offset w h = .ok () (h.setWord (r.index + offset) w) := by
  have hend := hl.upper
  have hinside := hl.inside
  simp [Heap.write, hl.checkOffset_eq hlow hup, put_eq (show r.index + offset < h.words.size by omega)]

/-- Only the words of the header matter. -/
theorem mono {h' : Heap} (hl : h.Leads r kind size children) (hepoch : h'.epoch = h.epoch)
    (hbase : h'.base = h.base) (hfree : h.free ≤ h'.free) (hinside : h'.free ≤ h'.words.size)
    (hword : ∀ k < headerSize, h'.word (r.index + k) = h.word (r.index + k)) :
    h'.Leads r kind size children where
  epoch := hl.epoch.trans hepoch.symm
  tag := (hword 0 (by decide)).trans hl.tag
  size := (hword 1 (by decide)).trans hl.size
  children := (hword 2 (by decide)).trans hl.children
  least := hl.least
  lower := hbase ▸ hl.lower
  upper := Nat.le_trans hl.upper hfree
  inside := hinside

/-- A word behind the header may be replaced. -/
theorem setWord (hl : h.Leads r kind size children) (hlow : headerSize ≤ offset) (w : Word) :
    (h.setWord (r.index + offset) w).Leads r kind size children := by
  refine hl.mono rfl rfl (Nat.le_refl _) (by rw [setWord_size]; exact hl.inside) fun k hk => ?_
  exact word_setWord_ne _ _ (by omega)

/-- Words that all have their place behind the header are written one after the other. -/
theorem writeWords_eq {ws : List Word} (hl : h.Leads r kind size children) (hlow : headerSize ≤ offset)
    (hup : offset + ws.length ≤ size) :
    writeWords r offset ws h = .ok () (h.setWords (r.index + offset) ws) := by
  induction ws generalizing h offset with
  | nil => rfl
  | cons w rest ih =>
    simp only [List.length_cons] at hup
    have hrest : writeWords r (offset + 1) rest (h.setWord (r.index + offset) w) = _ :=
      ih (hl.setWord hlow w) (by omega) (by omega)
    rw [writeWords, Actions.bind_ok (hl.write_eq hlow (by omega) w), hrest]
    rfl

end Leads

/-- A blank node can be written to. -/
theorem leads_blank {h : Heap} {kind : Kind} {size children : Nat} (hbase : h.base ≤ h.free)
    (hsize : headerSize ≤ size) (hfit : h.free + size ≤ h.words.size) :
    (h.blank kind size children).Leads ⟨h.free, h.epoch⟩ kind size children := by
  obtain ⟨hwords, -, hbase', hfree, hepoch⟩ := @blank_fields h kind size children
  refine ⟨hepoch.symm, ?_, ?_, ?_, hsize, ?_, ?_, ?_⟩
  · exact word_blank_header (k := 0) hfit hsize rfl
  · exact word_blank_header (k := 1) hfit hsize rfl
  · exact word_blank_header (k := 2) hfit hsize rfl
  · rw [hbase']
    exact hbase
  · exact Nat.le_of_eq hfree.symm
  · rw [hfree, hwords]
    exact hfit

end ClosureMachine.Heap

namespace ClosureMachine

/-- With room for it, a blank node is put behind the others. -/
theorem Store.allocate_eq {ρ : Type} [RootSet ρ] {kind : Kind} {size children : Nat} {s s' : Store ρ}
    (hsize : Heap.headerSize ≤ size) (hroom : Store.reserve size s = .ok () s')
    (hfit : s'.heap.free + size ≤ s'.heap.words.size) :
    Store.allocate kind size children s =
      .ok ⟨s'.heap.free, s'.heap.epoch⟩ ⟨s'.heap.blank kind size children, s'.roots⟩ := by
  simp [Store.allocate, hroom, Heap.append_eq hsize hfit]

theorem Store.allocate_short {ρ : Type} [RootSet ρ] {kind : Kind} {size children : Nat} {s s' : Store ρ}
    {e : HeapError} (hshort : Store.reserve size s = .error e s') :
    Store.allocate kind size children s = .error e s' := by
  simp [Store.allocate, hshort]

end ClosureMachine
