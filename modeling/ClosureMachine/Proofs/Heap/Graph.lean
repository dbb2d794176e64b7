import ClosureMachine.Proofs.Heap.Words
import Mathlib.Algebra.BigOperators.Group.Finset.Basic
import Mathlib.Algebra.Order.BigOperators.Group.Finset
import Mathlib.Order.Interval.Finset.Nat

/-!
# The heap as a graph

The words of a heap describe nodes and references between them. This module says what a node is
(`NodeAt`), what it refers to (`Child`), and what can be reached from a list of references
(`Reaches`). None of it mentions a collection: these are the notions in which the collection is then
specified.

`Closed` is what makes a collection succeed: a set of positions at which nodes stand, apart from each
other (`Laid`), whose references stay within the set. It need not be all of memory. Words that belong to no node
of the set may hold anything, which is how nodes that were given up are treated.
-/

set_option autoImplicit false

namespace ClosureMachine.Heap

/-- The two halves: the active one begins at the start or in the middle of the array, and what is
allocated stays inside it. -/
structure Halved (h : Heap) : Prop where
  size : h.words.size = 2 * h.semispace
  base : h.base = 0 ∨ h.base = h.semispace
  base_le : h.base ≤ h.free
  free_le : h.free ≤ h.base + h.semispace

theorem Halved.half_le {h : Heap} (hh : h.Halved) : h.base + h.semispace ≤ h.words.size := by
  rw [hh.size]
  rcases hh.base with hb | hb <;> omega

theorem Halved.free_inside {h : Heap} (hh : h.Halved) : h.free ≤ h.words.size :=
  hh.free_le.trans hh.half_le

/-- The size that the header at a position gives. -/
def sizeAt (h : Heap) (i : Nat) : Nat :=
  match h.word (i + 1) with
  | .count n => n
  | _ => 0

/-- The number of children that the header at a position gives. -/
def childrenAt (h : Heap) (i : Nat) : Nat :=
  match h.word (i + 2) with
  | .count n => n
  | _ => 0

/-- A node stands at a position of the allocated part. -/
structure NodeAt (h : Heap) (i : Nat) : Prop where
  tag : ∃ kind, h.word i = .tag kind
  size : h.word (i + 1) = .count (h.sizeAt i)
  children : h.word (i + 2) = .count (h.childrenAt i)
  fits : headerSize + h.childrenAt i ≤ h.sizeAt i
  lower : h.base ≤ i
  upper : i + h.sizeAt i ≤ h.free

/-- The node at a position refers to `r`. -/
def Child (h : Heap) (i : Nat) (r : Ref) : Prop :=
  ∃ k < h.childrenAt i, h.word (i + headerSize + k) = .ref r

/-- The references that can be come by from `roots`. -/
inductive Reaches (h : Heap) (roots : List Ref) : Ref → Prop
  | root {r : Ref} (hr : r ∈ roots) : Reaches h roots r
  | child {r r' : Ref} (hr : Reaches h roots r) (hc : h.Child r.index r') : Reaches h roots r'

/-- Nodes that do not overlap. -/
structure Laid (h : Heap) (nodes : Nat → Prop) : Prop where
  node : ∀ {i}, nodes i → h.NodeAt i
  apart : ∀ {i j}, nodes i → nodes j → i ≠ j →
    i + h.sizeAt i ≤ j ∨ j + h.sizeAt j ≤ i

/-- A reference that is current and leads into a set of nodes. -/
def Into (h : Heap) (nodes : Nat → Prop) (r : Ref) : Prop :=
  r.epoch = h.epoch ∧ nodes r.index

/-- Nodes that do not overlap and refer only to each other, by current references. -/
structure Closed (h : Heap) (nodes : Nat → Prop) : Prop extends Laid h nodes where
  child : ∀ {i r}, nodes i → h.Child i r → h.Into nodes r

theorem Closed.reaches {h : Heap} {nodes : Nat → Prop} (hc : h.Closed nodes) {roots : List Ref}
    (hr : ∀ r ∈ roots, h.Into nodes r) {r : Ref} (hreach : h.Reaches roots r) :
    h.Into nodes r := by
  induction hreach with
  | root hmem => exact hr _ hmem
  | child _ hchild ih => exact hc.child ih.2 hchild

theorem NodeAt.size_pos {h : Heap} {i : Nat} (hn : h.NodeAt i) : headerSize ≤ h.sizeAt i :=
  Nat.le_trans (Nat.le_add_right _ _) hn.fits

theorem Laid.mono {h : Heap} {nodes nodes' : Nat → Prop} (hc : h.Laid nodes)
    (hsub : ∀ i, nodes' i → nodes i) : h.Laid nodes' where
  node := fun hi => hc.node (hsub _ hi)
  apart := fun hi hj hne => hc.apart (hsub _ hi) (hsub _ hj) hne

/-- Inside a node of the set no other one begins. -/
theorem Laid.not_inside {h : Heap} {nodes : Nat → Prop} (hc : h.Laid nodes) {i k : Nat}
    (hi : nodes i) (hk : 0 < k ∧ k < h.sizeAt i) : ¬ nodes (i + k) := by
  intro hik
  have hpos := (hc.node hik).size_pos
  rcases hc.apart hi hik (by omega) with hle | hle <;> omega

/-! ## How much room nodes take -/

/-- Intervals that lie apart inside `[a, b)` are together no longer than it. -/
theorem sum_size_le {ι : Type} [DecidableEq ι] (s : Finset ι) (start size : ι → Nat) (a b : Nat)
    (hin : ∀ i ∈ s, a ≤ start i ∧ start i + size i ≤ b)
    (hap : ∀ i ∈ s, ∀ j ∈ s, i ≠ j →
      start i + size i ≤ start j ∨ start j + size j ≤ start i) :
    ∑ i ∈ s, size i ≤ b - a := by
  have hdisj : ∀ i ∈ s, ∀ j ∈ s, i ≠ j →
      Disjoint (Finset.Ico (start i) (start i + size i)) (Finset.Ico (start j) (start j + size j)) := by
    intro i hi j hj hij
    rw [Finset.disjoint_left]
    intro x hx hx'
    rw [Finset.mem_Ico] at hx hx'
    rcases hap i hi j hj hij with hle | hle <;> omega
  have hsub : s.biUnion (fun i => Finset.Ico (start i) (start i + size i)) ⊆ Finset.Ico a b := by
    intro x hx
    obtain ⟨i, hi, hxi⟩ := Finset.mem_biUnion.mp hx
    have := hin i hi
    rw [Finset.mem_Ico] at hxi ⊢
    omega
  calc ∑ i ∈ s, size i
      = ∑ i ∈ s, (Finset.Ico (start i) (start i + size i)).card := by simp
    _ = (s.biUnion fun i => Finset.Ico (start i) (start i + size i)).card :=
        (Finset.card_biUnion hdisj).symm
    _ ≤ (Finset.Ico a b).card := Finset.card_le_card hsub
    _ = b - a := Nat.card_Ico a b

end ClosureMachine.Heap
