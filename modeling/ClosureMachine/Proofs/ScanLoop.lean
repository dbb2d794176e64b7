import Mathlib.Control.Monad.Basic
import ClosureMachine.Proofs.Heap.Shapes
import ClosureMachine.Proofs.Heap.Stages

/-!
# The loop of a collection ends, within the half it fills

A collection fills a half that is as large as the one it empties, and its loop runs towards an end that moves ahead of
it. Neither goes wrong, whatever references memory and roots hold. No node is copied twice, so what is copied fits
(`Heap.Work.Bounded`). Each round of the loop begins at a node that was copied; the nodes before it have been put right
and the others are as they were (`Heap.Work.Opens`). So there is a round for each node, and then the loop ends, unless
it has ended before at a reference that leads nowhere.
-/

set_option autoImplicit false

namespace ClosureMachine

open Heap (headerSize)

namespace Heap

variable {h : Heap}

/-! ## Moments of a collection -/

/-- The reference has neither the stamp of the half that is emptied nor a place in it. -/
def Outside (h : Heap) (r : Ref) : Prop :=
  r.epoch ≠ h.epoch ∧ (r.index < h.base ∨ h.base + h.semispace ≤ r.index)

namespace Work

/-- What was copied are nodes, each of them once, and they fit. -/
structure Bounded (h : Heap) (w : Work) : Prop where
  node : ∀ i ∈ w.copied, h.Header i
  once : w.copied.Nodup
  target : w.pass.heap.base = h.flip.base
  words : w.pass.heap.used = total h.sizeAt w.copied
  words_le : w.pass.heap.used ≤ h.used
  free_le : w.pass.heap.free ≤ h.flip.base + h.semispace

/-- A round begins at `cursor`. -/
structure Opens (h : Heap) (w : Work) (cursor : Nat) : Prop where
  /-- The cursor is on the node that was copied next, after those that have had a round. -/
  copy : ∃ i, w.copied[w.rounds]? = some i ∧ cursor = (h.newRef w.copied i).index
  header : w.pass.heap.Header cursor
  /-- The nodes before it refer to nodes of the new half, and are as they were otherwise. -/
  behind : ∀ i ∈ w.copied, (h.newRef w.copied i).index < cursor → ∀ k < h.sizeAt i,
    w.pass.heap.word ((h.newRef w.copied i).index + k) =
        (h.word (i + k)).mapRef (fun r => h.newRef w.copied r.index) ∧
      ∀ r, w.pass.heap.word ((h.newRef w.copied i).index + k) = .ref r →
        w.pass.heap.Valid r ∧ h.Outside r
  /-- The others are as they were. -/
  ahead : ∀ i ∈ w.copied, cursor ≤ (h.newRef w.copied i).index → ∀ k < h.sizeAt i,
    w.pass.heap.word ((h.newRef w.copied i).index + k) = h.word (i + k)

variable {roots : List Ref} {w : Work} {cursor : Nat}

theorem Copies.bounded (hcp : w.Copies h cursor) (ht : h.Tidy) : w.Bounded h := by
  have htotal := ht.laid.total_le hcp.nodup hcp.among
  have hused : w.pass.heap.used = total h.sizeAt w.copied := by
    rw [used, hcp.free, hcp.base, Nat.add_sub_cancel_left]
  refine ⟨hcp.among, hcp.nodup, hcp.base, hused, ?_, hcp.free_le ht.halved ht.laid⟩
  rw [hused, used]
  exact htotal

theorem Proper.copies (hw : w.Proper h roots) : ∃ cursor, w.Copies h cursor := by
  rw [Proper] at hw
  cases hstage : w.stage with
  | roots waiting => rw [hstage] at hw; exact ⟨_, hw.copies⟩
  | loop cursor => rw [hstage] at hw; exact ⟨_, hw.copies⟩
  | children start count next => rw [hstage] at hw; exact ⟨_, hw.copies⟩
  | finished cursor => rw [hstage] at hw; exact ⟨_, hw.1.copies⟩
  | failed e => rw [hstage] at hw; exact hw.copies

/-- A reference to a new place. -/
theorem Copies.valid_newRef (hcp : w.Copies h cursor) (ht : h.Tidy) {i : Nat} (hi : i ∈ w.copied) :
    w.pass.heap.Valid (h.newRef w.copied i) ∧ h.Outside (h.newRef w.copied i) := by
  have hvalid : w.pass.heap.Valid (h.newRef w.copied i) :=
    ⟨hcp.epoch.symm, (Copying.header_iff hcp ht.laid).mpr ⟨i, hi, rfl⟩⟩
  have hlow := hvalid.2.base_le
  have hup := hvalid.2.lt_free
  have hle := hcp.free_le ht.halved ht.laid
  rw [hcp.base] at hlow
  refine ⟨hvalid, ?_, ht.halved.flip_beside hlow (by omega)⟩
  show h.epoch + 1 ≠ h.epoch
  simp

/-- What the cursor has passed of a node leads to nodes that were copied. -/
theorem Copies.target_mem (hcp : w.Copies h cursor) (hs : h.Shaped) {i k : Nat} {r : Ref} (hi : i ∈ w.copied)
    (hk : k < h.sizeAt i) (hcur : (h.newRef w.copied i).index + k < cursor)
    (hr : h.word (i + k) = .ref r) : r.index ∈ w.copied := by
  obtain ⟨hlow, hup⟩ := hs.among_children (hcp.among i hi) hk hr
  obtain ⟨p, rfl⟩ : ∃ p, k = headerSize + p := ⟨k - headerSize, by omega⟩
  rw [← Nat.add_assoc] at hr
  exact (hcp.done i hi p (by omega) (by omega) r hr).2

theorem AtLoop.round_opens (hw : w.AtLoop h cursor) (hs : h.Shaped) (hlt : cursor < w.pass.heap.free) :
    w.Opens h cursor := by
  have ht := hs.toTidy
  have hcp : Copying h h.Header w.pass.heap w.copied cursor := hw.copies
  obtain ⟨before, i, rest, hcopied, hlen, hcur, -, -⟩ := hw.opens ht hlt
  have hi : i ∈ w.copied := by simp [hcopied]
  have hplace : cursor = (h.newRef w.copied i).index := by
    have hn := hcp.nodup
    rw [hcopied] at hn ⊢
    rw [hcur, index_newRef hn]
  refine ⟨⟨i, by simp [hcopied, ← hlen], hplace⟩, ?_, ?_, ?_⟩
  · exact (hcp.header_iff ht.laid).mpr ⟨i, hi, hplace.symm⟩
  · intro j hj hbefore k hk
    -- the node before the cursor ends before it, because nodes do not overlap
    have hend : (h.newRef w.copied j).index + k < cursor := by
      have hne : j ≠ i := fun heq => by rw [heq] at hbefore; omega
      rw [hplace] at hbefore ⊢
      simp only [newRef] at hbefore ⊢
      rcases @offset_apart h.sizeAt w.copied _ _ hj hi hne with hle | hle <;> omega
    have hword := hcp.new j hj k hk
    rw [if_pos hend, hs.relocated_eq_mapRef (hcp.among j hj) hk] at hword
    refine ⟨hword, fun r hr => ?_⟩
    rw [hword] at hr
    cases hold : h.word (j + k) with
    | ref target =>
      rw [hold] at hr
      obtain rfl : h.newRef w.copied target.index = r := by simpa [Word.mapRef] using hr
      exact hw.copies.valid_newRef ht (hw.copies.target_mem hs hj hk hend hold)
    | _ =>
      rw [hold] at hr
      cases hr
  · intro j hj hfrom k hk
    exact hcp.word_ahead hj hk (by omega)

end Work

end Heap

/-- A collection of any roots keeps within bounds at each of its steps, and comes to an end: where the cursor has
caught up, after as many rounds as nodes were copied, or at the first reference that leads nowhere. -/
theorem collection_ends_within_half {h : Heap} (hb : Built h) {ρ : Type} [RootSet ρ] (roots : ρ) :
    (∀ w, Heap.Work.Leads h.fromSpace (.start h (RootSet.toList roots)) w →
        w.Bounded h ∧ ∀ cursor, w.stage = .loop cursor → cursor < w.pass.heap.free → w.Opens h cursor) ∧
      ∃ w, Heap.Work.Leads h.fromSpace (.start h (RootSet.toList roots)) w ∧
        (w.stage = .finished w.pass.heap.free ∧ w.rounds = w.copied.length ∧ (∀ r ∈ w.met, h.Valid r) ∧
            Store.collect ⟨h, roots⟩ =
              .ok () ⟨w.pass.heap.settle h.fromSpace, RootSet.replace roots w.pass.moved.toList⟩ ∨
          ∃ r, w.stage = .failed (.staleReference r.index) ∧ h.FirstStray w.met r ∧
            (w.rounds = 0 ∧ w.met = RootSet.toList roots ∨ 0 < w.rounds ∧ w.met.getLast? = some r) ∧
            Store.collect ⟨h, roots⟩ = .error (.staleReference r.index)
              ⟨w.pass.heap, RootSet.replace roots w.pass.moved.toList⟩) := by
  have hs := hb.shaped
  have ht := hs.toTidy
  refine ⟨fun w hl => ?_, ?_⟩
  · have hw := hl.proper ht
    obtain ⟨_, hcp⟩ := hw.copies
    refine ⟨hcp.bounded ht, fun cursor hstage hlt => ?_⟩
    rw [Heap.Work.Proper, hstage] at hw
    exact hw.round_opens hs hlt
  · obtain ⟨w, hl, hend⟩ := Heap.Work.start_ends ht roots
    have hw := hl.proper ht
    refine ⟨w, hl, ?_⟩
    rcases hend with ⟨cursor, hstage, hrun⟩ | ⟨e, hstage, hrun⟩
    · rw [Heap.Work.Proper, hstage] at hw
      obtain ⟨hloop, rfl⟩ := hw
      exact .inl ⟨hstage, hloop.rounds_eq ht, hloop.valid, hrun⟩
    · rw [Heap.Work.Proper, hstage] at hw
      obtain ⟨r, hfirst, rfl, hwhere⟩ := hw.stray
      exact .inr ⟨r, hstage, hfirst, hwhere, hrun⟩

/-- The knot with a slot that leads to the middle of a node. -/
def frayedKnot : Heap := knot.operated (liftM (Environment.setSlot ⟨0, 0⟩ 0 ⟨3, 0⟩))

theorem built_frayedKnot : Built frayedKnot :=
  .operate (.setSlot ⟨0, 0⟩ 0 ⟨3, 0⟩) built_knot ()

/-- Two nodes that refer to each other have a round each; where one of them refers to no node, the loop ends in its
round. -/
theorem collection_ends_within_half_knot :
    (Built knot ∧ ∃ w, Heap.Work.Leads knot.fromSpace (.start knot [⟨9, 0⟩, ⟨9, 0⟩]) w ∧
        w.Bounded knot ∧ w.stage = .finished w.pass.heap.free ∧ w.rounds = w.copied.length) ∧
      Built frayedKnot ∧ ∃ w, Heap.Work.Leads frayedKnot.fromSpace (.start frayedKnot [⟨9, 0⟩]) w ∧
        w.Bounded frayedKnot ∧ w.stage = .failed (.staleReference 3) ∧ 0 < w.rounds := by
  refine ⟨⟨built_knot, ?_⟩, built_frayedKnot, ?_⟩
  · have hok : Actions.answer Store.collect ⟨knot, (#[⟨9, 0⟩, ⟨9, 0⟩] : Array Ref)⟩ = .ok () := by
      decide +kernel
    obtain ⟨hsteps, w, hl, ⟨hstage, hrounds, -, -⟩ | ⟨r, -, -, -, hrun⟩⟩ :=
      collection_ends_within_half built_knot (#[⟨9, 0⟩, ⟨9, 0⟩] : Array Ref)
    · exact ⟨w, hl, (hsteps w hl).1, hstage, hrounds⟩
    · rw [Actions.answer, hrun] at hok
      cases hok
  · have herror : Actions.answer Store.collect ⟨frayedKnot, (#[⟨9, 0⟩] : Array Ref)⟩ =
        .error (.staleReference 3) := by
      decide +kernel
    obtain ⟨hsteps, w, hl, ⟨-, -, -, hrun⟩ | ⟨r, hstage, hfirst, hwhere, hrun⟩⟩ :=
      collection_ends_within_half built_frayedKnot (#[⟨9, 0⟩] : Array Ref)
    · rw [Actions.answer, hrun] at herror
      cases herror
    · have hindex : r.index = 3 := by
        rw [Actions.answer, hrun] at herror
        exact HeapError.staleReference.inj (Except.error.inj herror)
      refine ⟨w, hl, (hsteps w hl).1, hindex ▸ hstage, ?_⟩
      rcases hwhere with ⟨-, hmet⟩ | ⟨hpos, -⟩
      · -- the only root leads to a node
        obtain ⟨before, after, hsplit, -, -⟩ := hfirst
        have hmem : r ∈ ([⟨9, 0⟩] : List Ref) := by
          have hlist : w.met = [⟨9, 0⟩] := hmet
          rw [← hlist, hsplit]
          simp
        rw [List.mem_singleton.mp hmem] at hindex
        cases hindex
      · exact hpos

end ClosureMachine
