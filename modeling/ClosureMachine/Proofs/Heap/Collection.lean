import ClosureMachine.Proofs.Heap.Copying

/-!
# What a collection does

The two loops of a collection, over the roots and over the nodes that have arrived, keep `Copying`
true. When the cursor has caught up with the end, all references among the moved nodes lead to moved
nodes, so exactly what the roots reach has been moved (`Collected`).

A reference may also lead nowhere. Then a collection notices and stops, with the nodes as far as it got
(`Stopped`). Nodes are `Traceable` if each of their references leads to one of them or is noticed, and for these
`Store.collect_cases` says how a collection ends. Those of a `Closed` set have no references of the second kind.
-/

set_option autoImplicit false

namespace ClosureMachine.Heap

section

variable {h₀ h : Heap} {nodes : Nat → Prop} {order : List Nat} {cursor : Nat}

/-! ## The cursor moves -/

/-- A position of the new half belongs to one word of one node. -/
theorem newRef_unique {i j k l : Nat} (hi : i ∈ order) (hj : j ∈ order) (hk : k < h₀.sizeAt i)
    (hl : l < h₀.sizeAt j)
    (heq : (h₀.newRef order i).index + k = (h₀.newRef order j).index + l) : i = j ∧ k = l := by
  by_cases hij : i = j
  · subst hij
    exact ⟨rfl, by omega⟩
  · simp only [newRef] at heq
    rcases @offset_apart h₀.sizeAt order _ _ hi hj hij with hle | hle <;> omega

theorem Copying.lt_free (hcp : Copying h₀ nodes h order cursor) {i k : Nat} (hi : i ∈ order)
    (hk : k < h₀.sizeAt i) : (h₀.newRef order i).index + k < h.free := by
  have := @offset_add_size_le h₀.sizeAt order _ hi
  rw [hcp.free]
  simp only [newRef]
  omega

theorem Copying.free_le (hcp : Copying h₀ nodes h order cursor) (hh : h₀.Halved)
    (hc : h₀.Laid nodes) : h.free ≤ h₀.flip.base + h₀.semispace := by
  have htot := hc.total_le hcp.nodup hcp.among
  have hle := hh.free_le
  rw [hcp.free]
  omega

theorem Copying.free_inside (hcp : Copying h₀ nodes h order cursor) (hh : h₀.Halved)
    (hc : h₀.Laid nodes) : h.free ≤ h.words.size := by
  rw [hcp.size]
  exact (hcp.free_le hh hc).trans hh.flip_le

/-- The word under the cursor is put right, and the cursor goes on. -/
theorem Copying.turn (hcp : Copying h₀ nodes h order cursor) (hh : h₀.Halved) (hc : h₀.Laid nodes)
    {i k : Nat} (hi : i ∈ order) (hk : k < h₀.sizeAt i)
    (hcur : (h₀.newRef order i).index + k = cursor)
    (ht : ∀ r, headerSize ≤ k → k < headerSize + h₀.childrenAt i →
      h₀.word (i + k) = .ref r → h₀.Into (· ∈ order) r) :
    Copying h₀ nodes (h.setWord cursor (h₀.relocated order i k)) order (cursor + 1) := by
  have hlt := hcp.lt_free hi hk
  have hfree := hcp.free_le hh hc
  have hge : h₀.flip.base ≤ cursor := by
    rw [← hcur]
    simp only [newRef]
    omega
  have hin : cursor < h.words.size := by
    have hinside := hcp.free_inside hh hc
    omega
  refine ⟨by simp [hcp.size], hcp.semispace, hcp.base, hcp.epoch, hcp.collections, hcp.free,
    hcp.nodup, hcp.among, ?_, ?_, ?_, ?_⟩
  · rw [setWord_free]
    omega
  · intro j hj hj'
    have hne : j ≠ cursor := by
      rcases hh.flip_apart ⟨hj, hj'⟩ with hlt' | hle' <;> omega
    rw [word_setWord_ne _ _ hne]
    exact hcp.old j hj hj'
  · intro j hj l hl
    by_cases heq : (h₀.newRef order j).index + l = cursor
    · obtain ⟨rfl, rfl⟩ := newRef_unique hj hi hl hk (heq.trans hcur.symm)
      rw [heq, word_setWord_self _ _ _ hin, if_pos (by omega)]
    · rw [word_setWord_ne _ _ heq, hcp.new j hj l hl]
      by_cases hlt' : (h₀.newRef order j).index + l < cursor
      · rw [if_pos hlt', if_pos (by omega)]
      · rw [if_neg hlt', if_neg (by omega)]
  · intro j hj l hl hpos r hr
    by_cases heq : (h₀.newRef order j).index + headerSize + l = cursor
    · have hfits := (hc.node (hcp.among j hj)).fits
      obtain ⟨rfl, rfl⟩ := newRef_unique (k := headerSize + l) hj hi (by omega) hk (by omega)
      exact ht r (by omega) (by omega) (by rwa [← Nat.add_assoc])
    · exact hcp.done j hj l hl (by omega) r hr

theorem setWord_word (h : Heap) (i : Nat) : h.setWord i (h.word i) = h := by
  obtain ⟨words, semispace, base, free, epoch, collections⟩ := h
  simp only [setWord, word, Heap.mk.injEq, and_self, and_true]
  apply Array.ext_getElem?
  intro j
  rw [Array.getElem?_setIfInBounds]
  by_cases hij : i = j
  · subst hij
    by_cases hlt : i < words.size
    · simp [hlt, Array.getD]
    · simp [hlt]
  · simp [hij]

/-- Over words that are not children the cursor goes without a change. -/
theorem Copying.skip (hcp : Copying h₀ nodes h order cursor) (hh : h₀.Halved) (hc : h₀.Laid nodes)
    {i k : Nat} (hi : i ∈ order) (hcur : (h₀.newRef order i).index + k = cursor) (n : Nat)
    (hn : k + n ≤ h₀.sizeAt i) (hout : k + n ≤ headerSize ∨ headerSize + h₀.childrenAt i ≤ k) :
    Copying h₀ nodes h order (cursor + n) := by
  induction n with
  | zero => exact hcp
  | succ n ih =>
    have hprev := ih (by omega) (by omega)
    have hnot : ¬ (headerSize ≤ k + n ∧ k + n < headerSize + h₀.childrenAt i) := by omega
    have hword : h.word (cursor + n) = h₀.relocated order i (k + n) := by
      have hnew := hprev.new i hi (k + n) (by omega)
      rw [← Nat.add_assoc, hcur, if_neg (by omega)] at hnew
      rw [hnew, relocated, if_neg hnot]
    have hturn := hprev.turn hh hc hi (k := k + n) (by omega) (by omega)
      (fun r hk1 hk2 _ => absurd ⟨hk1, hk2⟩ hnot)
    rwa [← hword, setWord_word] at hturn

/-! ## References that lead nowhere -/

/-- The reference leads to none of the nodes, and a collection at work notices. -/
def Rejected (h₀ : Heap) (nodes : Nat → Prop) (r : Ref) : Prop :=
  ¬ h₀.Into nodes r ∧ ∀ ⦃h : Heap⦄ ⦃order : List Nat⦄ ⦃cursor : Nat⦄, Copying h₀ nodes h order cursor →
    Heap.evacuate h₀.fromSpace r h = .error (.staleReference r.index) h

/-- Nodes that do not overlap, each reference of which leads to one of them or is noticed. -/
structure Traceable (h₀ : Heap) (nodes : Nat → Prop) : Prop extends Laid h₀ nodes where
  child : ∀ {i r}, nodes i → h₀.Child i r → h₀.Into nodes r ∨ h₀.Rejected nodes r

theorem Closed.traceable (hc : h₀.Closed nodes) : h₀.Traceable nodes :=
  ⟨hc.toLaid, fun hi hr => .inl (hc.child hi hr)⟩

/-- The collection has met a child that leads nowhere. -/
def Stopped (h₀ : Heap) (nodes : Nat → Prop) (e : HeapError) (h : Heap) : Prop :=
  (∃ order cursor, Copying h₀ nodes h order cursor) ∧
    ∃ i r, nodes i ∧ h₀.Child i r ∧ h₀.Rejected nodes r ∧ e = .staleReference r.index

/-! ## The children of one node -/

/-- What is done to one child. -/
def stepChild (old : FromSpace) (start : Nat) : HeapM Unit := do
  match ← look start with
  | .ref child => put start (.ref (← Heap.evacuate old child))
  | _ => pure ()

theorem scanChildren_succ (old : FromSpace) (start count : Nat) :
    Heap.scanChildren old start (count + 1) = (do
      stepChild old start
      Heap.scanChildren old (start + 1) count) := by
  funext h
  simp only [Heap.scanChildren, stepChild, Actions.bind_apply, Actions.lift_look_heap]
  cases look start h with
  | error e => rfl
  | ok w =>
    cases w with
    | ref child =>
      simp only [Actions.bind_apply]
      cases Heap.evacuate old child h <;> rfl
    | _ => rfl

/-- From the cursor on the moved nodes are as they were. -/
theorem Copying.word_ahead (hcp : Copying h₀ nodes h order cursor) {i k : Nat} (hi : i ∈ order)
    (hk : k < h₀.sizeAt i) (hcur : cursor ≤ (h₀.newRef order i).index + k) :
    h.word ((h₀.newRef order i).index + k) = h₀.word (i + k) := by
  rw [hcp.new i hi k hk, if_neg (Nat.not_lt.mpr hcur)]

section Child

variable {i k : Nat} (hi : i ∈ order) (hk : k < h₀.childrenAt i)
  (hcur : (h₀.newRef order i).index + headerSize + k = cursor)

include hi hk hcur

theorem Copying.word_child (hcp : Copying h₀ nodes h order cursor) (hc : h₀.Laid nodes) :
    h.word cursor = h₀.word (i + headerSize + k) := by
  have hfits := (hc.node (hcp.among i hi)).fits
  have hword := hcp.word_ahead hi (k := headerSize + k) (by omega) (by omega)
  rwa [← Nat.add_assoc, hcur, ← Nat.add_assoc] at hword

theorem Copying.child_inside (hcp : Copying h₀ nodes h order cursor) (hh : h₀.Halved)
    (hc : h₀.Laid nodes) : cursor < h.words.size := by
  have hfits := (hc.node (hcp.among i hi)).fits
  have hlt := hcp.lt_free hi (k := headerSize + k) (by omega)
  have hinside := hcp.free_inside hh hc
  omega

theorem Copying.look_child (hcp : Copying h₀ nodes h order cursor) (hh : h₀.Halved)
    (hc : h₀.Laid nodes) : look cursor h = .ok (h₀.word (i + headerSize + k)) := by
  rw [look_eq (hcp.child_inside hi hk hcur hh hc), hcp.word_child hi hk hcur hc]

/-- A child that leads to a node that has been moved is turned to its new place. -/
theorem Copying.turn_ref (hcp : Copying h₀ nodes h order cursor) (hh : h₀.Halved) (hc : h₀.Laid nodes)
    {r : Ref} (hr : h₀.word (i + headerSize + k) = .ref r) (hinto : h₀.Into (· ∈ order) r) :
    Copying h₀ nodes (h.setWord cursor (.ref (h₀.newRef order r.index))) order (cursor + 1) := by
  have hfits := (hc.node (hcp.among i hi)).fits
  have hturn := hcp.turn hh hc hi (k := headerSize + k) (by omega) (by omega) (fun r' _ _ hr' => by
    rw [← Nat.add_assoc, hr] at hr'
    obtain rfl : r = r' := by simpa using hr'
    exact hinto)
  have hrel : h₀.relocated order i (headerSize + k) = .ref (h₀.newRef order r.index) := by
    rw [relocated, if_pos (by omega), ← Nat.add_assoc, hr]
  rwa [hrel] at hturn

/-- A child that is no reference stays. -/
theorem Copying.turn_plain (hcp : Copying h₀ nodes h order cursor) (hh : h₀.Halved)
    (hc : h₀.Laid nodes) (hplain : ∀ r, h₀.word (i + headerSize + k) ≠ .ref r) :
    Copying h₀ nodes h order (cursor + 1) := by
  have hfits := (hc.node (hcp.among i hi)).fits
  have hturn := hcp.turn hh hc hi (k := headerSize + k) (by omega) (by omega)
    (fun r _ _ hr => absurd (by rwa [Nat.add_assoc]) (hplain r))
  have hrel : h₀.relocated order i (headerSize + k) = h₀.word (i + headerSize + k) := by
    rw [relocated, if_pos (by omega), ← Nat.add_assoc]
    cases hw : h₀.word (i + headerSize + k) with
    | ref r => exact absurd hw (hplain r)
    | _ => rfl
  rwa [hrel, ← hcp.word_child hi hk hcur hc, setWord_word] at hturn

/-- The next child is put right, whatever word it is, and what it refers to has been moved. -/
theorem Copying.stepChild (hcp : Copying h₀ nodes h order cursor) (hh : h₀.Halved)
    (hc : h₀.Traceable nodes) :
    (∃ h' more, Heap.stepChild h₀.fromSpace cursor h = .ok () h' ∧
      Copying h₀ nodes h' (order ++ more) (cursor + 1)) ∨
    ∃ e, Heap.stepChild h₀.fromSpace cursor h = .error e h ∧ Stopped h₀ nodes e h := by
  have hnode := hcp.among i hi
  have hlook := hcp.look_child hi hk hcur hh hc.toLaid
  rw [Heap.stepChild]
  by_cases href : ∃ r, h₀.word (i + headerSize + k) = .ref r
  · obtain ⟨r, hr⟩ := href
    rcases hc.child hnode ⟨k, hk, hr⟩ with hinto | hrejected
    · left
      obtain ⟨h', more, hev, hcp', hmem⟩ := hcp.evacuate hh hc.toLaid hinto
      have hi' := List.mem_append_left more hi
      have hcur' : (h₀.newRef (order ++ more) i).index + headerSize + k = cursor := by
        rw [newRef_append more hi, hcur]
      refine ⟨h'.setWord cursor (.ref (h₀.newRef (order ++ more) r.index)), more, ?_,
        hcp'.turn_ref hi' hk hcur' hh hc.toLaid hr ⟨hinto.1, hmem⟩⟩
      simp [hlook, hr, hev, put_eq (hcp'.child_inside hi' hk hcur' hh hc.toLaid)]
    · right
      refine ⟨.staleReference r.index, ?_, ⟨order, cursor, hcp⟩, i, r, hnode, ⟨k, hk, hr⟩, hrejected,
        rfl⟩
      simp [hlook, hr, hrejected.2 hcp]
  · left
    have hturn := hcp.turn_plain hi hk hcur hh hc.toLaid fun r hr => href ⟨r, hr⟩
    refine ⟨h, [], ?_, by simpa using hturn⟩
    cases hw : h₀.word (i + headerSize + k) with
    | ref r => exact absurd ⟨r, hw⟩ href
    | _ => simp [hlook, hw]

end Child

theorem Copying.scanChildren (hh : h₀.Halved) (hc : h₀.Traceable nodes) {i : Nat} (count : Nat) :
    ∀ {h : Heap} {order : List Nat} {cursor k : Nat}, Copying h₀ nodes h order cursor →
      i ∈ order → (h₀.newRef order i).index + headerSize + k = cursor →
      k + count = h₀.childrenAt i →
      match Heap.scanChildren h₀.fromSpace cursor count h with
      | .ok _ h' => ∃ more, Copying h₀ nodes h' (order ++ more) (cursor + count)
      | .error e h' => Stopped h₀ nodes e h' := by
  induction count with
  | zero =>
    intro h order cursor k hcp _ _ _
    exact ⟨[], by simpa using hcp⟩
  | succ count ih =>
    intro h order cursor k hcp hi hcur hk
    rw [scanChildren_succ, Actions.bind_apply]
    rcases hcp.stepChild hi (by omega) hcur hh hc with ⟨h', more, hrun, hcp'⟩ | ⟨e, hrun, hstop⟩
    · have hrest := ih (k := k + 1) hcp' (List.mem_append_left more hi)
        (by rw [newRef_append more hi]; omega) (by omega)
      rw [hrun]
      dsimp only
      cases hend : Heap.scanChildren h₀.fromSpace (cursor + 1) count h' with
      | ok _ h'' =>
        rw [hend] at hrest
        obtain ⟨more', hcp''⟩ := hrest
        refine ⟨more ++ more', ?_⟩
        rw [← List.append_assoc, show cursor + (count + 1) = cursor + 1 + count by omega]
        exact hcp''
      | error e h'' =>
        rw [hend] at hrest
        exact hrest
    · rw [hrun]
      exact hstop

/-! ## All moved nodes -/

/-- What is done to one node. -/
theorem scan_succ {old : FromSpace} {size children : Nat} (rounds : Nat) (hlt : cursor < h.free)
    (hsize : countAt (cursor + 1) h = .ok size) (hchildren : countAt (cursor + 2) h = .ok children) :
    Heap.scan old cursor (rounds + 1) h = (do
      Heap.scanChildren old (cursor + headerSize) children
      Heap.scan old (cursor + size) rounds : HeapM Unit) h := by
  rw [Heap.scan]
  simp only [Actions.bind_apply, Actions.get_apply, hlt, if_true, Actions.lift_look_heap, hsize, hchildren]

/-- The place of a node is behind those of the nodes that arrived before it. -/
theorem index_newRef {before rest : List Nat} {i : Nat} (hn : (before ++ i :: rest).Nodup) :
    (h₀.newRef (before ++ i :: rest) i).index = h₀.flip.base + total h₀.sizeAt before := by
  have hnot : i ∉ before := by
    intro hm
    rw [List.nodup_append] at hn
    exact hn.2.2 i hm i (List.mem_cons_self ..) rfl
  simp [newRef, offset_append_self rest hnot]

section Node

variable {before rest : List Nat} {i : Nat}

/-- The cursor stands on a header, in which the size and the number of children can be read. -/
theorem Copying.counts_ahead
    (hcp : Copying h₀ nodes h (before ++ i :: rest) (h₀.flip.base + total h₀.sizeAt before))
    (hh : h₀.Halved) (hc : h₀.Laid nodes) :
    h₀.flip.base + total h₀.sizeAt before + h₀.sizeAt i ≤ h.free ∧
      countAt (h₀.flip.base + total h₀.sizeAt before + 1) h = .ok (h₀.sizeAt i) ∧
      countAt (h₀.flip.base + total h₀.sizeAt before + 2) h = .ok (h₀.childrenAt i) := by
  have hi : i ∈ before ++ i :: rest := by simp
  have hnode := hc.node (hcp.among i hi)
  have hpos := hnode.size_pos
  unfold headerSize at hpos
  have hcur := @index_newRef h₀ before rest i hcp.nodup
  have hword : ∀ k < h₀.sizeAt i,
      h.word (h₀.flip.base + total h₀.sizeAt before + k) = h₀.word (i + k) := by
    intro k hk
    have hahead := hcp.word_ahead hi hk (by omega)
    rwa [hcur] at hahead
  have hend : h₀.flip.base + total h₀.sizeAt before + h₀.sizeAt i ≤ h.free := by
    have hlast := hcp.lt_free hi (k := h₀.sizeAt i - 1) (by omega)
    omega
  have hinside := hcp.free_inside hh hc
  refine ⟨hend, countAt_eq (by omega) ?_, countAt_eq (by omega) ?_⟩
  · rw [hword 1 (by omega), hnode.size]
  · rw [hword 2 (by omega), hnode.children]

/-- The cursor goes over the header. -/
theorem Copying.enter
    (hcp : Copying h₀ nodes h (before ++ i :: rest) (h₀.flip.base + total h₀.sizeAt before))
    (hh : h₀.Halved) (hc : h₀.Laid nodes) :
    Copying h₀ nodes h (before ++ i :: rest) (h₀.flip.base + total h₀.sizeAt before + headerSize) := by
  have hi : i ∈ before ++ i :: rest := by simp
  have hpos := (hc.node (hcp.among i hi)).size_pos
  exact hcp.skip hh hc hi (k := 0) (index_newRef hcp.nodup) headerSize (by omega) (by simp)

/-- The cursor goes over what stands behind the children, and so to the next node. -/
theorem Copying.leave
    (hcp : Copying h₀ nodes h (before ++ i :: rest)
      (h₀.flip.base + total h₀.sizeAt before + headerSize + h₀.childrenAt i))
    (hh : h₀.Halved) (hc : h₀.Laid nodes) :
    Copying h₀ nodes h (before ++ i :: rest) (h₀.flip.base + total h₀.sizeAt (before ++ [i])) := by
  have hi : i ∈ before ++ i :: rest := by simp
  have hfits := (hc.node (hcp.among i hi)).fits
  have htail := hcp.skip hh hc hi (k := headerSize + h₀.childrenAt i)
    (by rw [index_newRef hcp.nodup]; omega) (h₀.sizeAt i - (headerSize + h₀.childrenAt i))
    (by omega) (Or.inr (by omega))
  have hend : h₀.flip.base + total h₀.sizeAt before + headerSize + h₀.childrenAt i +
      (h₀.sizeAt i - (headerSize + h₀.childrenAt i)) =
      h₀.flip.base + total h₀.sizeAt (before ++ [i]) := by
    rw [total_append, total_singleton]
    omega
  rwa [hend] at htail

/-- A node whose turn it is gets its children put right. -/
theorem Copying.scanNode
    (hcp : Copying h₀ nodes h (before ++ i :: rest) (h₀.flip.base + total h₀.sizeAt before))
    (hh : h₀.Halved) (hc : h₀.Traceable nodes) (rounds : Nat) :
    (∃ h' more,
      Heap.scan h₀.fromSpace (h₀.flip.base + total h₀.sizeAt before) (rounds + 1) h =
        Heap.scan h₀.fromSpace (h₀.flip.base + total h₀.sizeAt (before ++ [i])) rounds h' ∧
      Copying h₀ nodes h' (before ++ i :: rest ++ more)
        (h₀.flip.base + total h₀.sizeAt (before ++ [i]))) ∨
    ∃ e h', Heap.scan h₀.fromSpace (h₀.flip.base + total h₀.sizeAt before) (rounds + 1) h =
      .error e h' ∧ Stopped h₀ nodes e h' := by
  obtain ⟨hend, hsize, hchildren⟩ := hcp.counts_ahead hh hc.toLaid
  have hpos := (hc.node (hcp.among i (by simp))).size_pos
  unfold headerSize at hpos
  have hscan := Copying.scanChildren hh hc (h₀.childrenAt i) (hcp.enter hh hc.toLaid) (i := i) (by simp)
    (k := 0) (by rw [index_newRef hcp.nodup]; rfl) (by simp)
  rw [scan_succ rounds (by omega) hsize hchildren, Actions.bind_apply]
  cases hrun : Heap.scanChildren h₀.fromSpace
      (h₀.flip.base + total h₀.sizeAt before + headerSize) (h₀.childrenAt i) h with
  | error e h' =>
    right
    rw [hrun] at hscan
    exact ⟨e, h', rfl, hscan⟩
  | ok _ h' =>
    left
    rw [hrun] at hscan
    obtain ⟨more, hcp'⟩ := hscan
    refine ⟨h', more, ?_, ?_⟩
    · rw [total_append, total_singleton, ← Nat.add_assoc]
    · rw [List.append_assoc, List.cons_append] at hcp' ⊢
      exact hcp'.leave hh hc.toLaid

end Node

/-- With enough rounds the cursor catches up with the end, unless a child leads nowhere. -/
theorem Copying.scan (hh : h₀.Halved) (hc : h₀.Traceable nodes) (rounds : Nat) :
    ∀ {h : Heap} {before rest : List Nat},
      Copying h₀ nodes h (before ++ rest) (h₀.flip.base + total h₀.sizeAt before) →
      h₀.semispace ≤ total h₀.sizeAt before + rounds →
      match Heap.scan h₀.fromSpace (h₀.flip.base + total h₀.sizeAt before) rounds h with
      | .ok _ h' => ∃ more, Copying h₀ nodes h' (before ++ rest ++ more) h'.free
      | .error e h' => Stopped h₀ nodes e h' := by
  induction rounds with
  | zero =>
    intro h before rest hcp hrounds
    refine ⟨[], ?_⟩
    have hle := hcp.free_le hh hc.toLaid
    have hcur := hcp.cursor_le
    have heq : h₀.flip.base + total h₀.sizeAt before = h.free := by omega
    simpa [heq] using hcp
  | succ rounds ih =>
    intro h before rest hcp hrounds
    cases rest with
    | nil =>
      have heq : h₀.flip.base + total h₀.sizeAt before = h.free := by
        rw [hcp.free, List.append_nil]
      have hrun : Heap.scan h₀.fromSpace (h₀.flip.base + total h₀.sizeAt before) (rounds + 1) h =
          .ok () h := by
        rw [Heap.scan, heq]
        simp
      rw [hrun]
      exact ⟨[], by simpa [heq] using hcp⟩
    | cons i rest =>
      have hpos := (hc.node (hcp.among i (by simp))).size_pos
      unfold headerSize at hpos
      rcases hcp.scanNode hh hc rounds with ⟨h', more, hrun, hcp'⟩ | ⟨e, h', hrun, hstop⟩
      · have hrest := @ih h' (before ++ [i]) (rest ++ more)
          (by simpa using hcp') (by rw [total_append, total_singleton]; omega)
        rw [hrun]
        split
        · rename_i h'' hok
          rw [hok] at hrest
          obtain ⟨more', hcp''⟩ := hrest
          exact ⟨more ++ more', by simpa using hcp''⟩
        · rename_i e h'' herror
          rw [herror] at hrest
          exact hrest
      · rw [hrun]
        exact hstop

/-! ## The roots -/

/-- An error is not forgotten. -/
theorem RootPass.failure_foldl (old : FromSpace) (roots : List Ref) :
    ∀ {p : RootPass}, p.failure ≠ none → (roots.foldl (RootPass.visit old) p).failure ≠ none := by
  induction roots with
  | nil => exact fun h => h
  | cons r rest ih =>
    intro p h
    refine ih ?_
    unfold RootPass.visit
    split
    · exact h
    · dsimp only
      split
      · exact Option.some_ne_none _
      · simp

/-- What is known when all roots have been visited. Those that lead nowhere have stayed as they were. -/
structure Visited (h₀ : Heap) (nodes : Nat → Prop) (roots : List Ref) (p q : RootPass)
    (order : List Nat) (cursor : Nat) : Prop where
  copying : Copying h₀ nodes q.heap order cursor
  moved : ∀ r ∈ roots, h₀.Into nodes r → r.index ∈ order
  replaced : (∀ r ∈ roots, h₀.Into nodes r) →
    q.moved.toList = p.moved.toList ++ roots.map (fun r => h₀.newRef order r.index)
  quiet : q.failure = none → ∀ r ∈ roots, h₀.Into nodes r
  failed : ∀ {e}, q.failure = some e →
    p.failure = some e ∨ ∃ r ∈ roots, h₀.Rejected nodes r ∧ e = .staleReference r.index

/-- Roots that lead to nodes are moved, and the others noticed. -/
theorem Copying.roots (hh : h₀.Halved) (hc : h₀.Laid nodes) (roots : List Ref) :
    ∀ {p : RootPass} {order : List Nat},
      (∀ r ∈ roots, h₀.Into nodes r ∨ h₀.Rejected nodes r) → Copying h₀ nodes p.heap order cursor →
      ∃ more, Visited h₀ nodes roots p (roots.foldl (RootPass.visit h₀.fromSpace) p) (order ++ more)
        cursor := by
  induction roots with
  | nil =>
    intro p order _ hcp
    exact ⟨[], by simpa using hcp, by simp, by simp, by simp, fun h => .inl h⟩
  | cons r rest ih =>
    intro p order hall hcp
    have hrest : ∀ r ∈ rest, h₀.Into nodes r ∨ h₀.Rejected nodes r :=
      fun r' hr' => hall r' (List.mem_cons_of_mem r hr')
    rcases hall r (List.mem_cons_self ..) with hinto | hrejected
    · obtain ⟨h', more, hev, hcp', hmem⟩ := hcp.evacuate hh hc hinto
      have hvisit : RootPass.visit h₀.fromSpace p r =
          ⟨h', p.moved.push (h₀.newRef (order ++ more) r.index), p.failure⟩ := by
        rw [RootPass.visit, hev]
      obtain ⟨more', hv⟩ := @ih (RootPass.visit h₀.fromSpace p r) (order ++ more) hrest
        (by rw [hvisit]; exact hcp')
      rw [List.append_assoc] at hv
      refine ⟨more ++ more', hv.copying, ?_, ?_, ?_, ?_⟩
      · intro r' hr' hinto'
        rcases List.mem_cons.mp hr' with rfl | hm
        · rw [← List.append_assoc]
          exact List.mem_append_left _ hmem
        · exact hv.moved r' hm hinto'
      · intro hinto'
        rw [List.foldl_cons, hv.replaced fun r' hr' => hinto' r' (List.mem_cons_of_mem r hr'), hvisit,
          List.map_cons, ← List.append_assoc order, newRef_append more' hmem]
        simp
      · intro hnone r' hr'
        rcases List.mem_cons.mp hr' with rfl | hm
        · exact hinto
        · exact hv.quiet hnone r' hm
      · intro e he
        rcases hv.failed he with hp | ⟨r', hr', hbad⟩
        · rw [hvisit] at hp
          exact .inl hp
        · exact .inr ⟨r', List.mem_cons_of_mem r hr', hbad⟩
    · have hvisit : RootPass.visit h₀.fromSpace p r =
          ⟨p.heap, p.moved.push r, p.failure.or (some (.staleReference r.index))⟩ := by
        rw [RootPass.visit, hrejected.2 hcp]
        rfl
      obtain ⟨more, hv⟩ := @ih (RootPass.visit h₀.fromSpace p r) order hrest
        (by rw [hvisit]; exact hcp)
      refine ⟨more, hv.copying, ?_, ?_, ?_, ?_⟩
      · intro r' hr' hinto'
        rcases List.mem_cons.mp hr' with rfl | hm
        · exact absurd hinto' hrejected.1
        · exact hv.moved r' hm hinto'
      · intro hinto'
        exact absurd (hinto' r (List.mem_cons_self ..)) hrejected.1
      · intro hnone
        refine absurd hnone (RootPass.failure_foldl h₀.fromSpace rest ?_)
        rw [hvisit]
        simp
      · intro e he
        rcases hv.failed he with hp | ⟨r', hr', hbad⟩
        · rw [hvisit] at hp
          cases hfail : p.failure with
          | some e' =>
            rw [hfail] at hp
            exact .inl hp
          | none =>
            rw [hfail] at hp
            exact .inr ⟨r, List.mem_cons_self .., hrejected, (Option.some.inj hp).symm⟩
        · exact .inr ⟨r', List.mem_cons_of_mem r hr', hbad⟩

end

/-! ## The outcome -/

/-- `h` is `h₀` after a collection from `roots`: the nodes in `order`, which are those that can be
reached, stand in the new half one behind the other, with their references turned. -/
structure Collected (h₀ : Heap) (roots : List Ref) (h : Heap) (order : List Nat) : Prop where
  size : h.words.size = h₀.words.size
  semispace : h.semispace = h₀.semispace
  base : h.base = h₀.flip.base
  epoch : h.epoch = h₀.flip.epoch
  collections : h.collections.size = h₀.collections.size + 1
  free : h.free = h₀.flip.base + total h₀.sizeAt order
  nodup : order.Nodup
  mem_iff : ∀ i, i ∈ order ↔ ∃ r, h₀.Reaches roots r ∧ r.index = i
  word : ∀ i ∈ order, ∀ k < h₀.sizeAt i,
    h.word ((h₀.newRef order i).index + k) = h₀.relocated order i k

/-- What can be reached inside a closed set is itself closed. -/
theorem Closed.restrict {h : Heap} {nodes : Nat → Prop} (hc : h.Closed nodes) {roots : List Ref}
    (hr : ∀ r ∈ roots, h.Into nodes r) :
    h.Closed (fun i => ∃ r, h.Reaches roots r ∧ r.index = i) := by
  refine ⟨⟨?_, ?_⟩, ?_⟩
  · rintro i ⟨r, hreach, rfl⟩
    exact hc.node (hc.reaches hr hreach).2
  · rintro i j ⟨r, hreach, rfl⟩ ⟨r', hreach', rfl⟩ hij
    exact hc.apart (hc.reaches hr hreach).2 (hc.reaches hr hreach').2 hij
  · rintro i r' ⟨r, hreach, rfl⟩ hchild
    exact ⟨(hc.child (hc.reaches hr hreach).2 hchild).1, r', hreach.child hchild, rfl⟩

/-- When the cursor is at the end, the children of what was moved have been moved. -/
theorem Copying.child {h₀ h : Heap} {nodes : Nat → Prop} {order : List Nat}
    (hcp : Copying h₀ nodes h order h.free) (hc : h₀.Laid nodes) {i : Nat} {r : Ref} (hi : i ∈ order)
    (hr : h₀.Child i r) : h₀.Into (· ∈ order) r := by
  obtain ⟨k, hk, hw⟩ := hr
  have hfits := (hc.node (hcp.among i hi)).fits
  have hlt := hcp.lt_free hi (k := headerSize + k) (by omega)
  exact hcp.done i hi k hk (by omega) r hw

/-- Then what was moved is what can be reached. -/
theorem Copying.mem_iff {h₀ h : Heap} {roots : List Ref} {order : List Nat}
    (hcp : Copying h₀ (fun i => ∃ r, h₀.Reaches roots r ∧ r.index = i) h order h.free)
    (hc : h₀.Laid (fun i => ∃ r, h₀.Reaches roots r ∧ r.index = i))
    (hr : ∀ r ∈ roots, r.index ∈ order) (i : Nat) :
    i ∈ order ↔ ∃ r, h₀.Reaches roots r ∧ r.index = i := by
  refine ⟨hcp.among i, ?_⟩
  rintro ⟨r, hreach, rfl⟩
  induction hreach with
  | root hmem => exact hr _ hmem
  | child _ hchild ih => exact (hcp.child hc ih hchild).2

/-- The heap with the old half wiped, and the collection in its record. -/
def settle (old : FromSpace) (h : Heap) : Heap :=
  { h with collections := h.collections.push ⟨old.stop - old.start, h.used⟩ }.fill old.start .empty
    h.semispace

theorem retire_eq {old : FromSpace} {h : Heap} (hfit : old.start + h.semispace ≤ h.words.size) :
    retire old h = .ok () (h.settle old) := by
  simp only [retire, Actions.bind_apply, Actions.modify_apply, Actions.get_apply]
  refine (clear_eq (Nat.le_add_right _ _) ?_).trans ?_
  · exact hfit
  · rw [settle, Nat.add_sub_cancel_left]

@[simp] theorem settle_fields (old : FromSpace) (h : Heap) :
    (h.settle old).words.size = h.words.size ∧ (h.settle old).semispace = h.semispace ∧
      (h.settle old).base = h.base ∧ (h.settle old).free = h.free ∧
      (h.settle old).epoch = h.epoch ∧
      (h.settle old).collections = h.collections.push ⟨old.stop - old.start, h.used⟩ := by
  simp [settle]

theorem Copying.retire {h₀ h : Heap} {nodes : Nat → Prop} {order : List Nat} {cursor : Nat}
    (hcp : Copying h₀ nodes h order cursor) (hh : h₀.Halved) :
    Heap.retire h₀.fromSpace h = .ok () (h.settle h₀.fromSpace) := by
  refine retire_eq ?_
  rw [hcp.semispace, hcp.size]
  exact hh.half_le

/-- Wiping the old half is not seen in the new one. -/
theorem Copying.word_settle {h₀ h : Heap} {nodes : Nat → Prop} {order : List Nat} {cursor : Nat}
    (hcp : Copying h₀ nodes h order cursor) (hh : h₀.Halved) (hc : h₀.Laid nodes) {j : Nat}
    (hlow : h.base ≤ j) (hup : j < h.free) : (h.settle h₀.fromSpace).word j = h.word j := by
  have hle := hcp.free_le hh hc
  rw [hcp.base] at hlow
  have hout : j < h₀.base ∨ h₀.base + h.semispace ≤ j := by
    rw [hcp.semispace]
    exact hh.flip_beside hlow (by omega)
  rw [settle]
  exact word_fill_outside _ _ _ _ hout

/-- What stands in the new half in the end. -/
theorem Copying.word_settled {h₀ h : Heap} {nodes : Nat → Prop} {order : List Nat}
    (hcp : Copying h₀ nodes h order h.free) (hh : h₀.Halved) (hc : h₀.Laid nodes) {i : Nat}
    (hi : i ∈ order) {k : Nat} (hk : k < h₀.sizeAt i) :
    (h.settle h₀.fromSpace).word ((h₀.newRef order i).index + k) = h₀.relocated order i k := by
  have hlt := hcp.lt_free hi hk
  have hnew := hcp.new i hi k hk
  rw [if_pos hlt] at hnew
  rw [← hnew]
  refine hcp.word_settle hh hc ?_ hlt
  rw [hcp.base]
  simp only [newRef]
  omega

theorem Copying.collected {h₀ h : Heap} {roots : List Ref} {order : List Nat}
    (hcp : Copying h₀ (fun i => ∃ r, h₀.Reaches roots r ∧ r.index = i) h order h.free)
    (hh : h₀.Halved) (hc : h₀.Laid (fun i => ∃ r, h₀.Reaches roots r ∧ r.index = i))
    (hr : ∀ r ∈ roots, r.index ∈ order) :
    Collected h₀ roots (h.settle h₀.fromSpace) order := by
  refine ⟨by simp [hcp.size], by simp [hcp.semispace], by simp [hcp.base], by simp [hcp.epoch],
    by simp [hcp.collections], by simp [hcp.free], hcp.nodup, hcp.mem_iff hc hr, ?_⟩
  intro i hi k hk
  exact hcp.word_settled hh hc hi hk

end ClosureMachine.Heap

namespace ClosureMachine.Store

open Heap

variable {ρ : Type} [RootSet ρ]

/-- A collection ends well, with all nodes moved that the roots lead to, or it ends at the first reference it
finds that leads nowhere. -/
theorem collect_cases {h₀ : Heap} {nodes : Nat → Prop} (hh : h₀.Halved) (hc : h₀.Traceable nodes)
    (roots : ρ) (hr : ∀ r ∈ RootSet.toList roots, h₀.Into nodes r ∨ h₀.Rejected nodes r) :
    (∃ h order, collect ⟨h₀, roots⟩ = .ok () ⟨h.settle h₀.fromSpace, RootSet.replace roots
        ((RootSet.toList roots).map fun r => h₀.newRef order r.index)⟩ ∧
      Copying h₀ nodes h order h.free ∧ ∀ r ∈ RootSet.toList roots, h₀.Into (· ∈ order) r) ∨
    ∃ e s, collect ⟨h₀, roots⟩ = .error e s ∧ (∃ order cursor, Copying h₀ nodes s.heap order cursor) ∧
      ∃ r, (r ∈ RootSet.toList roots ∨ ∃ i, nodes i ∧ h₀.Child i r) ∧ h₀.Rejected nodes r ∧
        e = .staleReference r.index := by
  obtain ⟨order, hv⟩ := Copying.roots hh hc.toLaid (RootSet.toList roots)
    (p := ⟨h₀.flip, #[], none⟩) hr Copying.start
  rw [List.nil_append] at hv
  generalize hpass : (RootSet.toList roots).foldl (RootPass.visit h₀.fromSpace)
    ⟨h₀.flip, #[], none⟩ = pass at hv
  cases hfail : pass.failure with
  | some e =>
    right
    have hrun : collect ⟨h₀, roots⟩ =
        .error e ⟨pass.heap, RootSet.replace roots pass.moved.toList⟩ := by
      unfold collect
      simp only [hpass, hfail]
    obtain ⟨r, hmem, hbad⟩ := (hv.failed hfail).resolve_left (by simp)
    exact ⟨e, _, hrun, ⟨order, _, hv.copying⟩, r, .inl hmem, hbad⟩
  | none =>
    have hinto := hv.quiet hfail
    have hmoved : pass.moved.toList =
        (RootSet.toList roots).map (fun r => h₀.newRef order r.index) := by
      rw [hv.replaced hinto]
      rfl
    have hbase : pass.heap.base = h₀.flip.base + total h₀.sizeAt [] := hv.copying.base
    have hscan := Copying.scan hh hc pass.heap.words.size
      (show Copying h₀ nodes pass.heap ([] ++ order) (h₀.flip.base + total h₀.sizeAt []) from
        hv.copying) (by rw [hv.copying.size, hh.size]; omega)
    rw [← hbase] at hscan
    cases hrun : Heap.scan h₀.fromSpace pass.heap.base pass.heap.words.size pass.heap with
    | error e h =>
      right
      rw [hrun] at hscan
      obtain ⟨hcopying, i, r, hi, hr, hbad⟩ := hscan
      refine ⟨e, ⟨h, RootSet.replace roots pass.moved.toList⟩, ?_, hcopying, r, .inr ⟨i, hi, hr⟩, hbad⟩
      unfold collect
      simp [hpass, hfail, complete, hrun]
    | ok _ h =>
      left
      rw [hrun] at hscan
      obtain ⟨more, hcp⟩ := hscan
      rw [List.nil_append] at hcp
      have hmem : ∀ r ∈ RootSet.toList roots, r.index ∈ order :=
        fun r hm => hv.moved r hm (hinto r hm)
      refine ⟨h, order ++ more, ?_, hcp,
        fun r hm => ⟨(hinto r hm).1, List.mem_append_left more (hmem r hm)⟩⟩
      have hmap : (RootSet.toList roots).map (fun r => h₀.newRef order r.index) =
          (RootSet.toList roots).map (fun r => h₀.newRef (order ++ more) r.index) :=
        List.map_congr_left fun r hm => (newRef_append more (hmem r hm)).symm
      unfold collect
      simp [hpass, hfail, complete, hrun, hcp.retire hh, hmoved, hmap]

/-- A collection whose roots lead into a closed set of nodes succeeds. -/
theorem collect_eq {h₀ : Heap} {nodes : Nat → Prop} (hh : h₀.Halved) (hc : h₀.Closed nodes) (roots : ρ)
    (hr : ∀ r ∈ RootSet.toList roots, h₀.Into nodes r) :
    ∃ h order, collect ⟨h₀, roots⟩ = .ok () ⟨h, RootSet.replace roots
        ((RootSet.toList roots).map fun r => h₀.newRef order r.index)⟩ ∧
      Collected h₀ (RootSet.toList roots) h order := by
  have hc' := hc.restrict hr
  have hinto : ∀ r ∈ RootSet.toList roots,
      h₀.Into (fun i => ∃ r, h₀.Reaches (RootSet.toList roots) r ∧ r.index = i) r :=
    fun r hm => ⟨(hr r hm).1, r, .root hm, rfl⟩
  rcases collect_cases hh hc'.traceable roots fun r hm => .inl (hinto r hm) with
    ⟨h, order, hrun, hcp, hmem⟩ | ⟨e, s, -, -, r, hbad, hrejected, -⟩
  · exact ⟨_, order, hrun, hcp.collected hh hc'.toLaid fun r hm => (hmem r hm).2⟩
  · rcases hbad with hroot | ⟨i, hi, hchild⟩
    · exact absurd (hinto r hroot) hrejected.1
    · exact absurd (hc'.child hi hchild) hrejected.1

/-! ## Making room -/

/-- There is room as it is, or a collection makes it, or there is not enough. -/
theorem reserve_cases (size : Nat) (s : Store ρ) :
    reserve size s = .ok () s ∧ ¬ s.heap.available < size ∨
    (∃ e s', collect s = .error e s' ∧ reserve size s = .error e s') ∨
    ∃ s', collect s = .ok () s' ∧
      (reserve size s = .error (.outOfMemory size s'.heap.available) s' ∧ s'.heap.available < size ∨
        reserve size s = .ok () s' ∧ ¬ s'.heap.available < size) := by
  simp only [reserve, Actions.bind_apply, Actions.get_apply]
  by_cases havail : s.heap.available < size
  · right
    simp only [if_pos havail, Actions.bind_apply, Actions.get_apply]
    cases collect s with
    | error e s' => exact .inl ⟨e, s', rfl, rfl⟩
    | ok _ s' =>
      refine .inr ⟨s', rfl, ?_⟩
      by_cases hshort : s'.heap.available < size
      · exact .inl ⟨by simp only [if_pos hshort]; rfl, hshort⟩
      · exact .inr ⟨by simp only [if_neg hshort]; rfl, hshort⟩
  · exact .inl ⟨by rw [if_neg havail]; rfl, havail⟩

end ClosureMachine.Store
