import ClosureMachine.Proofs.Heap.Collection
import ClosureMachine.Proofs.Ideal.Node

/-!
# How a heap represents ideal nodes

A `World` gives some of the ideal nodes a place in the heap. `Represents` says that the heap holds each
of these nodes there, word for word, that they do not overlap, and that they are all there is. Nodes without a
place have been given up; whatever a placed node refers to has a place.

A collection changes the world and not the nodes: what can be reached gets its new place, and
everything else loses its place (`Represents.collected`). The words in use afterwards are the sizes of
the nodes that can be reached (`live`), which the heap has no part in.
-/

set_option autoImplicit false

namespace ClosureMachine

open Heap (headerSize)

namespace Ideal

/-! ## Reachability among ideal nodes -/

/-- The nodes that can be come by from `roots`. -/
inductive Reaches (nodes : List Node) (roots : List Loc) : Loc → Prop
  | root {l : Loc} (hl : l ∈ roots) : Reaches nodes roots l
  | child {l l' : Loc} {n : Node} (hl : Reaches nodes roots l) (hn : nodes[l]? = some n)
      (hc : l' ∈ n.refs) : Reaches nodes roots l'

/-- The size of a node, if there is one of this name. -/
def wordsOf (nodes : List Node) (l : Loc) : Nat := (nodes[l]?.map Node.size).getD 0

theorem wordsOf_eq {nodes : List Node} {l : Loc} {n : Node} (h : nodes[l]? = some n) :
    wordsOf nodes l = n.size := by
  simp [wordsOf, h]

open Classical in
/-- The words that the nodes within reach take. -/
noncomputable def live (nodes : List Node) (roots : List Loc) : Nat :=
  ∑ l ∈ (Finset.range nodes.length).filter (Reaches nodes roots), wordsOf nodes l

end Ideal

open ClosureMachine.Ideal

/-! ## One node -/

/-- The word shows what the cell holds. -/
def World.Shows (w : World) : Node.Cell → Word → Prop
  | .ref l, v => ∃ r, w.place l = some r ∧ v = .ref r
  | .literal x, v => ∃ d, v = .datum d ∧ w.Means d x
  | .count n, v => v = .count n
  | .nil, v => v = .nil
  | .unassigned, v => v = .unassigned
  | .empty, v => v = .empty

/-- The node stands where the reference leads. -/
structure World.Placed (w : World) (h : Heap) (r : Ref) (n : Node) : Prop
    extends h.Leads r n.kind n.size n.children where
  cells : ∀ {k : Nat} {c : Node.Cell}, n.cells[k]? = some c →
    w.Shows c (h.word (r.index + headerSize + k))

namespace World.Placed

variable {w : World} {h : Heap} {r : Ref} {n : Node}

theorem sizeAt (hp : w.Placed h r n) : h.sizeAt r.index = n.size := by
  rw [Heap.sizeAt, hp.size]

theorem childrenAt (hp : w.Placed h r n) : h.childrenAt r.index = n.children := by
  rw [Heap.childrenAt, hp.children]

theorem nodeAt (hp : w.Placed h r n) : h.NodeAt r.index where
  tag := ⟨n.kind, hp.tag⟩
  size := by rw [hp.sizeAt, hp.size]
  children := by rw [hp.childrenAt, hp.children]
  fits := by
    rw [hp.sizeAt, hp.childrenAt, Node.size]
    exact Nat.add_le_add_left n.children_le_cells _
  lower := hp.lower
  upper := by
    rw [hp.sizeAt]
    exact hp.upper

/-- The references in the words of a node are the places of what it refers to. -/
theorem child_iff (hp : w.Placed h r n) (r' : Ref) :
    h.Child r.index r' ↔ ∃ l ∈ n.refs, w.place l = some r' := by
  constructor
  · rintro ⟨k, hk, hw⟩
    rw [hp.childrenAt] at hk
    have hlt : k < n.cells.length := Nat.lt_of_lt_of_le hk n.children_le_cells
    have hshow := hp.cells (List.getElem?_eq_getElem hlt)
    rw [hw] at hshow
    cases hc : n.cells[k] with
    | ref l =>
      rw [hc] at hshow
      obtain ⟨r'', hplace, heq⟩ := hshow
      obtain rfl : r' = r'' := by simpa using heq
      exact ⟨l, Node.mem_refs.mpr (hc ▸ List.getElem_mem hlt), hplace⟩
    | literal x =>
      rw [hc] at hshow
      obtain ⟨d, heq, _⟩ := hshow
      exact absurd heq (by simp)
    | count m => rw [hc] at hshow; exact absurd hshow (by simp [World.Shows])
    | nil => rw [hc] at hshow; exact absurd hshow (by simp [World.Shows])
    | unassigned => rw [hc] at hshow; exact absurd hshow (by simp [World.Shows])
    | empty => rw [hc] at hshow; exact absurd hshow (by simp [World.Shows])
  · rintro ⟨l, hl, hplace⟩
    obtain ⟨k, hk⟩ := List.mem_iff_getElem?.mp (Node.mem_refs.mp hl)
    obtain ⟨r'', hplace', hw⟩ := hp.cells hk
    obtain rfl : r' = r'' := by simpa [hplace] using hplace'
    exact ⟨k, by rw [hp.childrenAt]; exact Node.lt_children_of_ref hk, hw⟩

end World.Placed

/-! ## All nodes -/

/-- From `h` to `h'` there was no collection. -/
structure Heap.Rests (h h' : Heap) : Prop where
  semispace : h'.semispace = h.semispace
  epoch : h'.epoch = h.epoch
  collections : h'.collections = h.collections

theorem Heap.Rests.refl (h : Heap) : h.Rests h := ⟨rfl, rfl, rfl⟩

theorem Heap.Rests.trans {h h' h'' : Heap} (hr : h.Rests h') (hr' : h'.Rests h'') : h.Rests h'' :=
  ⟨hr'.semispace.trans hr.semispace, hr'.epoch.trans hr.epoch, hr'.collections.trans hr.collections⟩

/-- The heap holds every node that has a place and nothing else, and none overlaps another. -/
structure Represents (w : World) (h : Heap) (nodes : List Node) : Prop where
  halved : h.Halved
  placed : ∀ {l : Loc} {r : Ref}, w.place l = some r →
    ∃ n, nodes[l]? = some n ∧ w.Placed h r n
  apart : ∀ {l l' : Loc} {r r' : Ref}, w.place l = some r → w.place l' = some r' → l ≠ l' →
    r.index + wordsOf nodes l ≤ r'.index ∨ r'.index + wordsOf nodes l' ≤ r.index
  covered : ∀ {i : Nat}, h.base ≤ i → i < h.free →
    ∃ l r, w.place l = some r ∧ r.index ≤ i ∧ i < r.index + wordsOf nodes l

namespace Represents

variable {w : World} {h : Heap} {nodes : List Node}

/-- The positions at which placed nodes stand. -/
def positions (w : World) (i : Nat) : Prop := ∃ l r, w.place l = some r ∧ r.index = i

theorem placed_of (hr : Represents w h nodes) {l : Loc} {r : Ref} {n : Node}
    (hl : w.place l = some r) (hn : nodes[l]? = some n) : w.Placed h r n := by
  obtain ⟨n', hn', hp⟩ := hr.placed hl
  obtain rfl : n = n' := by simpa [hn] using hn'
  exact hp

theorem lt_length (hr : Represents w h nodes) {l : Loc} {r : Ref} (hl : w.place l = some r) :
    l < nodes.length := by
  obtain ⟨n, hn, _⟩ := hr.placed hl
  exact (List.getElem?_eq_some_iff.mp hn).1

theorem sizeAt_eq (hr : Represents w h nodes) {l : Loc} {r : Ref} (hl : w.place l = some r) :
    h.sizeAt r.index = wordsOf nodes l := by
  obtain ⟨n, hn, hp⟩ := hr.placed hl
  rw [hp.sizeAt, wordsOf_eq hn]

/-- Different nodes begin at different positions. -/
theorem index_inj (hr : Represents w h nodes) {l l' : Loc} {r r' : Ref} (hl : w.place l = some r)
    (hl' : w.place l' = some r') (heq : r.index = r'.index) : l = l' := by
  by_contra hne
  obtain ⟨n, hn, hp⟩ := hr.placed hl
  obtain ⟨n', hn', hp'⟩ := hr.placed hl'
  have hpos : 0 < n.size := by unfold Node.size headerSize; omega
  have hpos' : 0 < n'.size := by unfold Node.size headerSize; omega
  have := hr.apart hl hl' hne
  rw [wordsOf_eq hn, wordsOf_eq hn'] at this
  omega

theorem distinct (hr : Represents w h nodes) : w.Distinct :=
  fun hl hl' => hr.index_inj hl hl' rfl

theorem closed (hr : Represents w h nodes) : h.Closed (positions w) where
  node := by
    rintro i ⟨l, r, hl, rfl⟩
    obtain ⟨n, _, hp⟩ := hr.placed hl
    exact hp.nodeAt
  apart := by
    rintro i j ⟨l, r, hl, rfl⟩ ⟨l', r', hl', rfl⟩ hij
    rw [hr.sizeAt_eq hl, hr.sizeAt_eq hl']
    refine hr.apart hl hl' fun heq => hij ?_
    subst heq
    rw [hl] at hl'
    simp_all
  child := by
    rintro i r' ⟨l, r, hl, rfl⟩ hchild
    obtain ⟨n, _, hp⟩ := hr.placed hl
    obtain ⟨l', _, hl'⟩ := (hp.child_iff r').mp hchild
    obtain ⟨n', _, hp'⟩ := hr.placed hl'
    exact ⟨hp'.epoch, l', r', hl', rfl⟩

/-- References and names that correspond. -/
def Rooted (w : World) (roots : List Ref) (locs : List Loc) : Prop :=
  List.Forall₂ (fun r l => w.place l = some r) roots locs

theorem Rooted.of_mem {roots : List Ref} {locs : List Loc} (h : Rooted w roots locs) {r : Ref}
    (hr : r ∈ roots) : ∃ l ∈ locs, w.place l = some r := by
  induction h with
  | nil => simp at hr
  | cons hab _ ih =>
    rcases List.mem_cons.mp hr with rfl | hm
    · exact ⟨_, by simp, hab⟩
    · obtain ⟨l, hl, hp⟩ := ih hm
      exact ⟨l, by simp [hl], hp⟩

theorem Rooted.of_mem' {roots : List Ref} {locs : List Loc} (h : Rooted w roots locs) {l : Loc}
    (hl : l ∈ locs) : ∃ r ∈ roots, w.place l = some r := by
  induction h with
  | nil => simp at hl
  | cons hab _ ih =>
    rcases List.mem_cons.mp hl with rfl | hm
    · exact ⟨_, by simp, hab⟩
    · obtain ⟨r, hr, hp⟩ := ih hm
      exact ⟨r, by simp [hr], hp⟩

/-- Everything within reach has a place, if the roots do. -/
theorem place_of_reaches (hr : Represents w h nodes) {roots : List Ref} {locs : List Loc}
    (hroots : Rooted w roots locs) {l : Loc} (hl : Ideal.Reaches nodes locs l) :
    ∃ r, w.place l = some r := by
  induction hl with
  | root hmem =>
    obtain ⟨r, _, hp⟩ := hroots.of_mem' hmem
    exact ⟨r, hp⟩
  | child _ hn hc ih =>
    obtain ⟨r, hp⟩ := ih
    obtain ⟨k, hk⟩ := List.mem_iff_getElem?.mp (Node.mem_refs.mp hc)
    obtain ⟨r', hp', _⟩ := (hr.placed_of hp hn).cells hk
    exact ⟨r', hp'⟩

/-- What is reached in the heap is what is reached among the nodes. -/
theorem reaches_iff (hr : Represents w h nodes) {roots : List Ref} {locs : List Loc}
    (hroots : Rooted w roots locs) (r : Ref) :
    h.Reaches roots r ↔ ∃ l, Ideal.Reaches nodes locs l ∧ w.place l = some r := by
  constructor
  · intro hreach
    induction hreach with
    | root hmem =>
      obtain ⟨l, hl, hp⟩ := hroots.of_mem hmem
      exact ⟨l, .root hl, hp⟩
    | child _ hchild ih =>
      obtain ⟨l, hl, hp⟩ := ih
      obtain ⟨n, hn, hplaced⟩ := hr.placed hp
      obtain ⟨l', hl', hp'⟩ := (hplaced.child_iff _).mp hchild
      exact ⟨l', .child hl hn hl', hp'⟩
  · rintro ⟨l, hreach, hp⟩
    induction hreach generalizing r with
    | root hmem =>
      obtain ⟨r', hr', hp'⟩ := hroots.of_mem' hmem
      obtain rfl : r = r' := by simpa [hp] using hp'
      exact .root hr'
    | child hl hn hc ih =>
      obtain ⟨r', hp'⟩ := hr.place_of_reaches hroots hl
      exact (ih r' hp').child (((hr.placed_of hp' hn).child_iff r).mpr ⟨_, hc, hp⟩)

/-- The roots lead into the placed nodes. -/
theorem into_of_rooted (hr : Represents w h nodes) {roots : List Ref} {locs : List Loc}
    (hroots : Rooted w roots locs) : ∀ r ∈ roots, h.Into (positions w) r := by
  intro r hm
  obtain ⟨l, _, hl⟩ := hroots.of_mem hm
  obtain ⟨n, _, hp⟩ := hr.placed hl
  exact ⟨hp.epoch, l, r, hl, rfl⟩

/-- What is within reach takes no more room than what has been allocated. -/
theorem live_le_used (hr : Represents w h nodes) {roots : List Ref} {locs : List Loc}
    (hroots : Rooted w roots locs) : live nodes locs ≤ h.used := by
  classical
  refine Heap.sum_size_le _ (fun l => ((w.place l).map (·.index)).getD 0) _ h.base h.free ?_ ?_
  · intro l hl
    obtain ⟨r, hp⟩ := hr.place_of_reaches hroots (Finset.mem_filter.mp hl).2
    obtain ⟨n, hn, hplaced⟩ := hr.placed hp
    rw [wordsOf_eq hn]
    simpa [hp] using ⟨hplaced.lower, hplaced.upper⟩
  · intro l hl l' hl' hne
    obtain ⟨r, hp⟩ := hr.place_of_reaches hroots (Finset.mem_filter.mp hl).2
    obtain ⟨r', hp'⟩ := hr.place_of_reaches hroots (Finset.mem_filter.mp hl').2
    simpa [hp, hp'] using hr.apart hp hp' hne

end Represents

end ClosureMachine
