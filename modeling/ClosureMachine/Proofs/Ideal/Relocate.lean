import ClosureMachine.Proofs.Ideal.Represent

/-!
# Ideal nodes across a collection

A collection gives the nodes within reach new places and all others none. The nodes themselves are as
they were, and the words in use are those of the nodes within reach.
-/

set_option autoImplicit false

namespace ClosureMachine

open Heap (headerSize)
open ClosureMachine.Ideal

/-- The world after a collection of `h` that moved the nodes in `order`. -/
def World.moved (w : World) (h : Heap) (order : List Nat) : World where
  place l := (w.place l).bind fun r =>
    if r.index ∈ order then some (h.newRef order r.index) else none
  texts := w.texts

theorem World.moved_place {w : World} {h : Heap} {order : List Nat} {l : Loc} {r' : Ref} :
    (w.moved h order).place l = some r' ↔
      ∃ r, w.place l = some r ∧ r.index ∈ order ∧ r' = h.newRef order r.index := by
  simp only [World.moved]
  cases w.place l with
  | none => simp
  | some r =>
    by_cases hm : r.index ∈ order
    · simp [hm, eq_comm]
    · simp [hm]

/-- Names keep to their nodes from one state of memory to a later one. Between collections a name keeps its place,
and only new nodes get new names. A collection takes each name where it takes the node. -/
inductive World.Trail : World → Heap → World → Heap → Prop
  | still {w w' : World} {h h' : Heap} (hrests : h.Rests h')
      (hkept : ∀ {l r}, w.place l = some r → w'.place l = some r)
      (hnew : ∀ {l r}, w'.place l = some r → w.place l = some r ∨ h.free ≤ r.index) : Trail w h w' h'
  | moved (w : World) {h h' : Heap} {roots : List Ref} {order : List Nat}
      (hc : Heap.Collected h roots h' order) : Trail w h (w.moved h order) h'
  | trans {w w' w'' : World} {h h' h'' : Heap} (hfirst : Trail w h w' h') (hrest : Trail w' h' w'' h'') :
      Trail w h w'' h''

theorem World.Trail.refl (w : World) (h : Heap) : w.Trail h w h :=
  .still (.refl h) (fun hl => hl) .inl

theorem World.Trail.collections_le {w w' : World} {h h' : Heap} (ht : w.Trail h w' h') :
    h.collections.size ≤ h'.collections.size := by
  induction ht with
  | still hrests => rw [hrests.collections]
  | moved w hc =>
    rw [hc.collections]
    exact Nat.le_succ _
  | trans _ _ ih ih' => exact Nat.le_trans ih ih'

namespace Represents

variable {w : World} {h h' : Heap} {nodes : List Node} {roots : List Ref} {locs : List Loc}
  {order : List Nat}

/-- A node is moved exactly if it is within reach. -/
theorem moved_iff (hr : Represents w h nodes) (hroots : Rooted w roots locs)
    (hc : Heap.Collected h roots h' order) {l : Loc} {r : Ref} (hl : w.place l = some r) :
    r.index ∈ order ↔ Ideal.Reaches nodes locs l := by
  rw [hc.mem_iff]
  constructor
  · rintro ⟨r', hreach, hidx⟩
    obtain ⟨l', hl', hp'⟩ := (hr.reaches_iff hroots r').mp hreach
    obtain rfl := hr.index_inj hp' hl hidx
    exact hl'
  · intro hreach
    exact ⟨r, (hr.reaches_iff hroots r).mpr ⟨l, hreach, hl⟩, rfl⟩

/-- A word of a moved node shows what it showed before. -/
theorem shows_moved (hr : Represents w h nodes) (hroots : Rooted w roots locs)
    (hc : Heap.Collected h roots h' order) {l : Loc} {r : Ref} {n : Node} (hn : nodes[l]? = some n)
    (hp : w.Placed h r n) (hreach : Ideal.Reaches nodes locs l) {k : Nat} {c : Node.Cell}
    (hk : n.cells[k]? = some c) :
    (w.moved h order).Shows c (h.relocated order r.index (headerSize + k)) := by
  have hshow := hp.cells hk
  unfold Heap.relocated
  rw [← Nat.add_assoc, hp.childrenAt]
  cases c with
  | ref l' =>
    obtain ⟨r', hp', hw⟩ := hshow
    have hlt := Node.lt_children_of_ref hk
    have hl' : l' ∈ n.refs := Node.mem_refs.mpr (List.mem_of_getElem? hk)
    rw [if_pos ⟨by omega, by omega⟩, hw]
    exact ⟨_, World.moved_place.mpr
      ⟨r', hp', (hr.moved_iff hroots hc hp').mpr (hreach.child hn hl'), rfl⟩, rfl⟩
  | literal x =>
    obtain ⟨d, hw, hm⟩ := hshow
    rw [hw]
    exact ⟨d, by simp, hm⟩
  | count m => rw [show h.word _ = _ from hshow]; simp [World.Shows]
  | nil => rw [show h.word _ = _ from hshow]; simp [World.Shows]
  | unassigned => rw [show h.word _ = _ from hshow]; simp [World.Shows]
  | empty => rw [show h.word _ = _ from hshow]; simp [World.Shows]

theorem halved_moved (hr : Represents w h nodes) (hroots : Rooted w roots locs)
    (hc : Heap.Collected h roots h' order) : h'.Halved := by
  have hclosed := hr.closed.restrict (hr.into_of_rooted hroots)
  have htotal := hclosed.total_le hc.nodup fun i hi => (hc.mem_iff i).mp hi
  have hhalved := hr.halved
  have hfree := hhalved.free_le
  refine ⟨?_, ?_, ?_, ?_⟩
  · rw [hc.size, hc.semispace, hhalved.size]
  · rw [hc.base, hc.semispace]
    unfold Heap.flip
    rcases hhalved.base with hb | hb
    · simp [hb]
    · by_cases hz : h.base = 0
      · simp [hz]
      · simp [hz]
  · rw [hc.base, hc.free]
    omega
  · rw [hc.base, hc.free, hc.semispace]
    omega

/-- A node that was moved stands in its new place. -/
theorem placed_moved (hr : Represents w h nodes) (hroots : Rooted w roots locs)
    (hc : Heap.Collected h roots h' order) {l : Loc} {r : Ref} {n : Node} (hn : nodes[l]? = some n)
    (hl : w.place l = some r) (hm : r.index ∈ order) :
    (w.moved h order).Placed h' (h.newRef order r.index) n := by
  have hp := hr.placed_of hl hn
  have hreach := (hr.moved_iff hroots hc hl).mp hm
  have hsize := hp.sizeAt
  have hword : ∀ k < n.size, h'.word ((h.newRef order r.index).index + k) =
      h.relocated order r.index k := fun k hk => hc.word _ hm k (hsize ▸ hk)
  have hheader : ∀ k < headerSize, h'.word ((h.newRef order r.index).index + k) =
      h.word (r.index + k) := by
    intro k hk
    rw [hword k (by unfold Node.size; omega), Heap.relocated, if_neg (by omega)]
  have hle : Heap.offset h.sizeAt order r.index + h.sizeAt r.index ≤ Heap.total h.sizeAt order :=
    Heap.offset_add_size_le hm
  refine ⟨⟨?_, ?_, ?_, ?_, hp.least, ?_, ?_, ?_⟩, ?_⟩
  · rw [hc.epoch]
    rfl
  · exact (hheader 0 (by decide)).trans hp.tag
  · exact (hheader 1 (by decide)).trans hp.size
  · exact (hheader 2 (by decide)).trans hp.children
  · rw [hc.base]
    exact Nat.le_add_right _ _
  · rw [hc.free, ← hsize]
    simp only [Heap.newRef]
    omega
  · exact (hr.halved_moved hroots hc).free_inside
  · intro k c hk
    have hlt : k < n.cells.length := (List.getElem?_eq_some_iff.mp hk).1
    rw [Nat.add_assoc, hword (headerSize + k) (by unfold Node.size; omega)]
    exact hr.shows_moved hroots hc hn hp hreach hk

/-- The nodes are represented after a collection as before, by the new places. -/
theorem collected (hr : Represents w h nodes) (hroots : Rooted w roots locs)
    (hc : Heap.Collected h roots h' order) : Represents (w.moved h order) h' nodes where
  halved := hr.halved_moved hroots hc
  placed := by
    intro l r' hl'
    obtain ⟨r, hl, hm, rfl⟩ := World.moved_place.mp hl'
    obtain ⟨n, hn, _⟩ := hr.placed hl
    exact ⟨n, hn, hr.placed_moved hroots hc hn hl hm⟩
  apart := by
    intro l l' r₁ r₂ hl hl' hne
    obtain ⟨r, hp, hm, rfl⟩ := World.moved_place.mp hl
    obtain ⟨r', hp', hm', rfl⟩ := World.moved_place.mp hl'
    rw [← hr.sizeAt_eq hp, ← hr.sizeAt_eq hp']
    have hidx : r.index ≠ r'.index := fun heq => hne (hr.index_inj hp hp' heq)
    have := @Heap.offset_apart h.sizeAt order _ _ hm hm' hidx
    simp only [Heap.newRef]
    omega
  covered := by
    intro i hlower hupper
    rw [hc.base] at hlower
    rw [hc.free] at hupper
    obtain ⟨j, hj, hle, hlt⟩ :=
      Heap.exists_offset hc.nodup (show i - h.flip.base < Heap.total h.sizeAt order by omega)
    obtain ⟨r, hreach, rfl⟩ := (hc.mem_iff j).mp hj
    obtain ⟨l, -, hl⟩ := (hr.reaches_iff hroots r).mp hreach
    refine ⟨l, _, World.moved_place.mpr ⟨r, hl, hj, rfl⟩, ?_, ?_⟩ <;>
      simp only [Heap.newRef, ← hr.sizeAt_eq hl] <;> omega

theorem Rooted.moved (hroots : Rooted w roots locs)
    (hc : Heap.Collected h roots h' order) :
    Rooted (w.moved h order) (roots.map fun r => h.newRef order r.index) locs := by
  have hall : ∀ r ∈ roots, r.index ∈ order :=
    fun r hm => (hc.mem_iff _).mpr ⟨r, .root hm, rfl⟩
  clear hc
  induction hroots with
  | nil => exact .nil
  | cons hl _ ih =>
    refine .cons (World.moved_place.mpr ⟨_, hl, hall _ (by simp), rfl⟩) (ih fun r hm => ?_)
    exact hall r (List.mem_cons_of_mem _ hm)

/-- The words in use after a collection are those of the nodes within reach. -/
theorem used_moved (hr : Represents w h nodes) (hroots : Rooted w roots locs)
    (hc : Heap.Collected h roots h' order) : h'.used = live nodes locs := by
  classical
  rw [Heap.used, hc.base, hc.free, Nat.add_sub_cancel_left, Heap.total_eq_sum hc.nodup, live]
  symm
  refine Finset.sum_bij (fun l _ => ((w.place l).map (·.index)).getD 0) ?_ ?_ ?_ ?_
  · intro l hl
    have hreach := (Finset.mem_filter.mp hl).2
    obtain ⟨r, hp⟩ := hr.place_of_reaches hroots hreach
    simpa [hp] using (hr.moved_iff hroots hc hp).mpr hreach
  · intro l hl l' hl' heq
    obtain ⟨r, hp⟩ := hr.place_of_reaches hroots (Finset.mem_filter.mp hl).2
    obtain ⟨r', hp'⟩ := hr.place_of_reaches hroots (Finset.mem_filter.mp hl').2
    exact hr.index_inj hp hp' (by simpa [hp, hp'] using heq)
  · intro i hi
    obtain ⟨r, hreach, rfl⟩ := (hc.mem_iff i).mp (List.mem_toFinset.mp hi)
    obtain ⟨l, hl, hp⟩ := (hr.reaches_iff hroots r).mp hreach
    exact ⟨l, Finset.mem_filter.mpr ⟨Finset.mem_range.mpr (hr.lt_length hp), hl⟩, by simp [hp]⟩
  · intro l hl
    obtain ⟨r, hp⟩ := hr.place_of_reaches hroots (Finset.mem_filter.mp hl).2
    simp [hp, hr.sizeAt_eq hp]

end Represents

end ClosureMachine
