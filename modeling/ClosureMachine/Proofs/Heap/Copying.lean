import ClosureMachine.Proofs.Heap.Graph

/-!
# What a collection keeps true while it copies

While a collection is at work, the old half holds the nodes as they were, with a forwarding word over
the header of each one that has been moved, and the new half holds the moved nodes one behind the other
in the order in which they arrived. The words before the cursor have their references already turned
to the new half; those from the cursor on are plain copies. `Copying` says this, in terms of the heap
before the collection and of the list of nodes moved so far.

The cursor of the statement goes word by word, not node by node: then one lemma covers the cursor in
the middle of a node, and the steps over headers and over words behind the children change nothing.
-/

set_option autoImplicit false

namespace ClosureMachine.Heap

/-! ## Nodes one behind the other -/

/-- How far behind the start of the list `i` stands, where each entry takes its size. -/
def offset (size : Nat → Nat) : List Nat → Nat → Nat
  | [], _ => 0
  | j :: rest, i => if j = i then 0 else size j + offset size rest i

/-- The room that all entries take. -/
def total (size : Nat → Nat) : List Nat → Nat
  | [] => 0
  | i :: rest => size i + total size rest

section Order

attribute [local simp] offset total

variable {size : Nat → Nat} {order : List Nat}

@[simp] theorem total_append (more : List Nat) :
    total size (order ++ more) = total size order + total size more := by
  induction order with
  | nil => simp [total]
  | cons i rest ih =>
    rw [List.cons_append, total, ih, total]
    omega

@[simp] theorem total_singleton (i : Nat) : total size [i] = size i := by simp [total]

theorem total_eq_sum (hn : order.Nodup) : total size order = ∑ i ∈ order.toFinset, size i := by
  induction order with
  | nil => simp [total]
  | cons i rest ih =>
    obtain ⟨hi, hrest⟩ := List.nodup_cons.mp hn
    rw [total, ih hrest, List.toFinset_cons, Finset.sum_insert (by simpa using hi)]

theorem mul_length_le_total {least : Nat} (hle : ∀ i ∈ order, least ≤ size i) :
    least * order.length ≤ total size order := by
  induction order with
  | nil => simp [total]
  | cons i rest ih =>
    have hrest := ih fun j hj => hle j (List.mem_cons_of_mem i hj)
    have hfirst := hle i (List.mem_cons_self ..)
    rw [List.length_cons, total, Nat.mul_succ]
    omega

/-- What stands in the list does not move when others arrive behind it. -/
theorem offset_append_of_mem {i : Nat} (more : List Nat) (hi : i ∈ order) :
    offset size (order ++ more) i = offset size order i := by
  induction order with
  | nil => simp at hi
  | cons j rest ih =>
    simp only [List.cons_append, offset]
    by_cases hji : j = i
    · simp [hji]
    · have hmem : i ∈ rest := by
        rcases List.mem_cons.mp hi with rfl | hm
        · exact absurd rfl hji
        · exact hm
      simp [hji, ih hmem]

/-- The first that arrives stands behind all others. -/
theorem offset_append_self {i : Nat} (rest : List Nat) (hi : i ∉ order) :
    offset size (order ++ i :: rest) i = total size order := by
  induction order with
  | nil => simp [offset, total]
  | cons j before ih =>
    have hji : j ≠ i := fun hq => hi (by simp [hq])
    have hrest : i ∉ before := fun hm => hi (by simp [hm])
    simp [offset, hji, ih hrest, total]

theorem offset_add_size_le {i : Nat} (hi : i ∈ order) :
    offset size order i + size i ≤ total size order := by
  induction order with
  | nil => simp at hi
  | cons j rest ih =>
    simp only [offset, total]
    by_cases hji : j = i
    · simp [hji]
    · have hmem : i ∈ rest := by
        rcases List.mem_cons.mp hi with rfl | hm
        · exact absurd rfl hji
        · exact hm
      have := ih hmem
      rw [if_neg hji]
      omega

/-- Entries do not overlap. -/
theorem offset_apart {i j : Nat} (hi : i ∈ order) (hj : j ∈ order) (hij : i ≠ j) :
    offset size order i + size i ≤ offset size order j ∨
      offset size order j + size j ≤ offset size order i := by
  induction order with
  | nil => simp at hi
  | cons x rest ih =>
    simp only [offset]
    by_cases hxi : x = i
    · subst hxi
      simp [hij]
    · by_cases hxj : x = j
      · subst hxj
        simp [hxi]
      · have hi' : i ∈ rest := (List.mem_cons.mp hi).resolve_left fun hq => hxi hq.symm
        have hj' : j ∈ rest := (List.mem_cons.mp hj).resolve_left fun hq => hxj hq.symm
        have := ih hi' hj'
        simp only [if_neg hxi, if_neg hxj]
        omega

/-- Entries leave no gaps. -/
theorem exists_offset (hn : order.Nodup) {j : Nat} (hj : j < total size order) :
    ∃ i ∈ order, offset size order i ≤ j ∧ j < offset size order i + size i := by
  induction order generalizing j with
  | nil => exact absurd hj (Nat.not_lt_zero j)
  | cons x rest ih =>
    obtain ⟨hx, hrest⟩ := List.nodup_cons.mp hn
    rw [total] at hj
    by_cases hfirst : j < size x
    · exact ⟨x, List.mem_cons_self .., by simp [offset], by simpa [offset] using hfirst⟩
    · obtain ⟨i, hi, hle, hlt⟩ := ih hrest (show j - size x < total size rest by omega)
      have hne : x ≠ i := fun heq => hx (heq ▸ hi)
      refine ⟨i, List.mem_cons_of_mem x hi, ?_, ?_⟩ <;> rw [offset, if_neg hne] <;> omega

end Order

/-! ## The invariant -/

/-- The reference to the new place of the node that was at `i`. -/
def newRef (h₀ : Heap) (order : List Nat) (i : Nat) : Ref :=
  ⟨h₀.flip.base + offset h₀.sizeAt order i, h₀.flip.epoch⟩

/-- A word as it stands in the new half in the end: a child that is a reference goes to the new place
of its target, and everything else is as it was. -/
def relocated (h₀ : Heap) (order : List Nat) (i k : Nat) : Word :=
  if headerSize ≤ k ∧ k < headerSize + h₀.childrenAt i then
    match h₀.word (i + k) with
    | .ref r => .ref (h₀.newRef order r.index)
    | w => w
  else h₀.word (i + k)

/-- A collection of `h₀` at work: of its `nodes`, those in `order` have been moved, in that order, and
the words of the new half before `cursor` are done with. -/
structure Copying (h₀ : Heap) (nodes : Nat → Prop) (h : Heap) (order : List Nat) (cursor : Nat) :
    Prop where
  size : h.words.size = h₀.words.size
  semispace : h.semispace = h₀.semispace
  base : h.base = h₀.flip.base
  epoch : h.epoch = h₀.flip.epoch
  collections : h.collections = h₀.collections
  free : h.free = h₀.flip.base + total h₀.sizeAt order
  nodup : order.Nodup
  among : ∀ i ∈ order, nodes i
  cursor_le : cursor ≤ h.free
  old : ∀ j, h₀.base ≤ j → j < h₀.free →
    h.word j = if j ∈ order then .forward (h₀.newRef order j) else h₀.word j
  new : ∀ i ∈ order, ∀ k < h₀.sizeAt i,
    h.word ((h₀.newRef order i).index + k) =
      if (h₀.newRef order i).index + k < cursor then h₀.relocated order i k else h₀.word (i + k)
  done : ∀ i ∈ order, ∀ k < h₀.childrenAt i, (h₀.newRef order i).index + headerSize + k < cursor →
    ∀ r, h₀.word (i + headerSize + k) = .ref r → h₀.Into (· ∈ order) r

@[simp] theorem newRef_append {h₀ : Heap} {order : List Nat} {i : Nat} (more : List Nat)
    (hi : i ∈ order) : h₀.newRef (order ++ more) i = h₀.newRef order i := by
  simp [newRef, offset_append_of_mem more hi]

/-- A word that is done with does not change when others arrive. -/
theorem relocated_append {h₀ : Heap} {order : List Nat} {i k : Nat} (more : List Nat)
    (ht : ∀ r, headerSize ≤ k → k < headerSize + h₀.childrenAt i →
      h₀.word (i + k) = .ref r → r.index ∈ order) :
    h₀.relocated (order ++ more) i k = h₀.relocated order i k := by
  unfold relocated
  by_cases hk : headerSize ≤ k ∧ k < headerSize + h₀.childrenAt i
  · rw [if_pos hk, if_pos hk]
    cases hw : h₀.word (i + k) with
    | ref r => simp [newRef_append more (ht r hk.1 hk.2 hw)]
    | _ => rfl
  · rw [if_neg hk, if_neg hk]

section

variable {h₀ h : Heap} {nodes : Nat → Prop} {order : List Nat} {cursor : Nat}

/-- The moved nodes fit into a half, because they did not overlap before. -/
theorem Laid.total_le (hc : h₀.Laid nodes) (hn : order.Nodup) (ho : ∀ i ∈ order, nodes i) :
    total h₀.sizeAt order ≤ h₀.free - h₀.base := by
  rw [total_eq_sum hn]
  refine sum_size_le order.toFinset id h₀.sizeAt h₀.base h₀.free (fun i hi => ?_)
    (fun i hi j hj hij => ?_)
  · have hnode := hc.node (ho i (List.mem_toFinset.mp hi))
    exact ⟨hnode.lower, hnode.upper⟩
  · exact hc.apart (ho i (List.mem_toFinset.mp hi)) (ho j (List.mem_toFinset.mp hj)) hij

/-- The new half lies beside the old one. -/
theorem Halved.flip_beside (hh : h₀.Halved) {j : Nat} (hlow : h₀.flip.base ≤ j)
    (hup : j < h₀.flip.base + h₀.semispace) : j < h₀.base ∨ h₀.base + h₀.semispace ≤ j := by
  unfold flip at hlow hup
  rcases hh.base with hb | hb
  · simp only [hb, if_true] at hlow
    omega
  · rw [if_neg (by omega)] at hup
    simp only at hup
    omega

theorem Halved.flip_apart (hh : h₀.Halved) {j : Nat} (hj : h₀.base ≤ j ∧ j < h₀.free) :
    j < h₀.flip.base ∨ h₀.flip.base + h₀.semispace ≤ j := by
  have hf := hh.free_le
  by_contra hin
  have := hh.flip_beside (j := j) (by omega) (by omega)
  omega

theorem Halved.flip_le (hh : h₀.Halved) : h₀.flip.base + h₀.semispace ≤ h₀.words.size := by
  have hs := hh.size
  unfold flip
  rcases hh.base with hb | hb <;> simp only <;> split <;> omega

/-- At the start nothing has been moved. -/
theorem Copying.start : Copying h₀ nodes h₀.flip [] h₀.flip.base where
  size := rfl
  semispace := rfl
  base := rfl
  epoch := rfl
  collections := rfl
  free := by simp [total, flip]
  nodup := List.nodup_nil
  among := by simp
  cursor_le := by simp [flip]
  old := by intro j _ _; simp [flip, word]
  new := by simp
  done := by simp

/-! ## Moving one node -/

theorem word_extract (h : Heap) {i n k : Nat} (hb : i + n ≤ h.words.size) (hk : k < n) :
    (h.words.extract i (i + n)).toList[k]? = some (h.word (i + k)) := by
  have hlt : i + k < h.words.size := by omega
  have hin : k < min (i + n) h.words.size - i := by omega
  rw [Array.getElem?_toList, Array.getElem?_extract, if_pos hin, Array.getElem?_eq_getElem hlt]
  simp [word, Array.getD, hlt]

/-- The heap with the `n` words at `i` copied to where the free words begin, and a forwarding word in
their place. -/
def moved (h : Heap) (i n : Nat) : Heap :=
  ({ h with free := h.free + n }.setWords h.free (h.words.extract i (i + n)).toList).setWord i
    (.forward ⟨h.free, h.epoch⟩)

theorem move_eq {h : Heap} {i n : Nat} (hpos : 0 < n) (hi : i + n ≤ h.words.size)
    (hf : h.free + n ≤ h.words.size) : move i n h = .ok ⟨h.free, h.epoch⟩ (h.moved i n) := by
  have hcopy : copy i h.free n h = .ok () (h.setWords h.free (h.words.extract i (i + n)).toList) := by
    simp [copy, spans_eq (Nat.le_add_right i n) hi, spans_eq (Nat.le_add_right h.free n) hf]
  rw [move, moved, setWords_withFree]
  simp only [Actions.bind_apply, Actions.get_apply, hcopy, Actions.modify_apply]
  rw [put_eq (by simp; omega)]
  simp

/-- After a move the old header forwards, the node stands at the end, and nothing else has changed. -/
theorem word_moved (h : Heap) {i n : Nat} (hi : i + n ≤ h.words.size) (hf : h.free + n ≤ h.words.size)
    (hpos : 0 < n) (hap : i < h.free ∨ h.free + n ≤ i) :
    (h.moved i n).word i = .forward ⟨h.free, h.epoch⟩ ∧
      (∀ k < n, (h.moved i n).word (h.free + k) = h.word (i + k)) ∧
      ∀ j, j ≠ i → (j < h.free ∨ h.free + n ≤ j) → (h.moved i n).word j = h.word j := by
  have hlen : (h.words.extract i (i + n)).toList.length = n := by simp; omega
  refine ⟨?_, fun k hk => ?_, fun j hj hout => ?_⟩
  · exact word_setWord_self _ _ _ (by simp; omega)
  · rw [moved, word_setWord_ne _ _ (by omega)]
    refine word_setWords_inside _ _ _ (by rw [hlen]; exact hf) ?_
    exact word_extract h hi hk
  · rw [moved, word_setWord_ne _ _ hj, word_setWords_outside _ _ _ (by rw [hlen]; exact hout)]
    rfl

@[simp] theorem moved_fields (h : Heap) (i n : Nat) :
    (h.moved i n).words.size = h.words.size ∧ (h.moved i n).semispace = h.semispace ∧
      (h.moved i n).base = h.base ∧ (h.moved i n).free = h.free + n ∧
      (h.moved i n).epoch = h.epoch ∧ (h.moved i n).collections = h.collections := by
  simp [moved]

/-- The words of a node that has not been moved are still as they were. -/
theorem Copying.old_node (hcp : Copying h₀ nodes h order cursor) (hc : h₀.Laid nodes) {i : Nat}
    (hi : nodes i) (hnot : i ∉ order) {k : Nat} (hk : k < h₀.sizeAt i) :
    h.word (i + k) = h₀.word (i + k) := by
  have hnode := hc.node hi
  have hlow := hnode.lower
  have hup := hnode.upper
  rw [hcp.old (i + k) (by omega) (by omega), if_neg]
  intro hmem
  rcases Nat.eq_zero_or_pos k with rfl | hpos
  · exact hnot hmem
  · exact hc.not_inside hi ⟨hpos, hk⟩ (hcp.among _ hmem)

theorem Copying.nodup_snoc (hcp : Copying h₀ nodes h order cursor) {i : Nat} (hnot : i ∉ order) :
    (order ++ [i]).Nodup := by
  rw [List.nodup_append]
  refine ⟨hcp.nodup, by simp, ?_⟩
  intro a ha b hb hab
  obtain rfl : b = i := by simpa using hb
  exact hnot (hab ▸ ha)

theorem Copying.among_snoc (hcp : Copying h₀ nodes h order cursor) {i : Nat} (hi : nodes i) :
    ∀ j ∈ order ++ [i], nodes j := by
  intro j hj
  rcases List.mem_append.mp hj with hm | hm
  · exact hcp.among j hm
  · obtain rfl : j = i := by simpa using hm
    exact hi

/-- One more node fits. -/
theorem Copying.free_add_le (hcp : Copying h₀ nodes h order cursor) (hh : h₀.Halved)
    (hc : h₀.Laid nodes) {i : Nat} (hi : nodes i) (hnot : i ∉ order) :
    h.free + h₀.sizeAt i ≤ h₀.flip.base + h₀.semispace := by
  have htot := hc.total_le (hcp.nodup_snoc hnot) (hcp.among_snoc hi)
  have hfree := hh.free_le
  rw [total_append, total_singleton] at htot
  rw [hcp.free]
  omega

/-- The nodes of the old half are inside the array. -/
theorem Copying.old_inside (hcp : Copying h₀ nodes h order cursor) (hh : h₀.Halved)
    (hc : h₀.Laid nodes) {i : Nat} (hi : nodes i) : i + h₀.sizeAt i ≤ h.words.size := by
  rw [hcp.size]
  exact (hc.node hi).upper.trans hh.free_inside

/-- Counting a header word of a node that has not been moved. -/
theorem Copying.countAt_size (hcp : Copying h₀ nodes h order cursor) (hh : h₀.Halved)
    (hc : h₀.Laid nodes) {i : Nat} (hi : nodes i) (hnot : i ∉ order) :
    countAt (i + 1) h = .ok (h₀.sizeAt i) := by
  have hnode := hc.node hi
  have hpos := hnode.size_pos
  unfold headerSize at hpos
  have hinside := hcp.old_inside hh hc hi
  refine countAt_eq (by omega) ?_
  rw [hcp.old_node hc hi hnot (by omega), hnode.size]

/-- A node that arrives stands behind the others, and everything said so far stays true. -/
theorem Copying.move (hcp : Copying h₀ nodes h order cursor) (hh : h₀.Halved) (hc : h₀.Laid nodes)
    {i : Nat} (hi : nodes i) (hnot : i ∉ order) :
    Copying h₀ nodes (h.moved i (h₀.sizeAt i)) (order ++ [i]) cursor := by
  have hnode := hc.node hi
  have hlow := hnode.lower
  have hup := hnode.upper
  have hpos := hnode.size_pos
  have hroom := hcp.free_add_le hh hc hi hnot
  have hflip := hh.flip_le
  have hfle := hh.free_le
  have hfree := hcp.free
  have hself : (h₀.newRef (order ++ [i]) i).index = h.free := by
    simp [newRef, offset_append_self [] hnot, hfree]
  unfold headerSize at hpos
  -- The old half and the new one do not meet, so the copy cannot touch what it is made from.
  have hold : ∀ j, h₀.base ≤ j → j < h₀.free → j < h.free ∨ h.free + h₀.sizeAt i ≤ j := by
    intro j hj hj'
    rcases hh.flip_apart ⟨hj, hj'⟩ with hlt | hle <;> omega
  have hbound := hh.half_le
  obtain ⟨hfwd, hcopy, hrest⟩ := word_moved h (i := i) (n := h₀.sizeAt i)
    (by rw [hcp.size]; omega) (by rw [hcp.size]; omega) (by omega) (hold i hlow (by omega))
  refine ⟨by simp [hcp.size], by simp [hcp.semispace], by simp [hcp.base], by simp [hcp.epoch],
    by simp [hcp.collections], by simp [hfree]; omega, hcp.nodup_snoc hnot, hcp.among_snoc hi,
    ?_, ?_, ?_, ?_⟩
  · have := hcp.cursor_le
    simp
    omega
  · intro j hj hj'
    by_cases hji : j = i
    · subst hji
      rw [hfwd, if_pos (by simp)]
      simp only [newRef, offset_append_self [] hnot]
      rw [hfree, hcp.epoch]
    · rw [hrest j hji (hold j hj hj'), hcp.old j hj hj']
      by_cases hm : j ∈ order
      · simp [hm]
      · simp [hm, hji]
  · intro j hj k hk
    rcases List.mem_append.mp hj with hm | hm
    · have hle := @offset_add_size_le h₀.sizeAt order _ hm
      have hin : (h₀.newRef order j).index + k < h.free := by
        simp only [newRef]
        omega
      have hge : h₀.flip.base ≤ (h₀.newRef order j).index + k := by
        simp only [newRef]
        omega
      have hne : (h₀.newRef order j).index + k ≠ i := by
        intro hq
        rcases hh.flip_apart ⟨hlow, (by omega : i < h₀.free)⟩ with hlt | hle' <;> omega
      rw [newRef_append _ hm, hrest _ hne (Or.inl hin), hcp.new j hm k hk]
      by_cases hcur : (h₀.newRef order j).index + k < cursor
      · rw [if_pos hcur, if_pos hcur, relocated_append]
        intro r hk1 hk2 hr
        refine (hcp.done j hm (k - headerSize) (by omega) (by omega) r ?_).2
        rwa [show j + headerSize + (k - headerSize) = j + k by omega]
      · rw [if_neg hcur, if_neg hcur]
    · obtain rfl : j = i := by simpa using hm
      have hcur := hcp.cursor_le
      rw [hself, hcopy k hk, if_neg (by omega), hcp.old_node hc hi hnot hk]
  · intro j hj k hk hcur r hr
    rcases List.mem_append.mp hj with hm | hm
    · rw [newRef_append _ hm] at hcur
      have hinto := hcp.done j hm k hk hcur r hr
      exact ⟨hinto.1, List.mem_append_left _ hinto.2⟩
    · obtain rfl : j = i := by simpa using hm
      rw [hself] at hcur
      have := hcp.cursor_le
      omega

/-- What is asked for has the stamp of the old half and lies in it. -/
theorem Laid.not_outside (hc : h₀.Laid nodes) {r : Ref} (hr : h₀.Into nodes r) :
    ¬ (r.epoch ≠ h₀.fromSpace.epoch ∨ r.index < h₀.fromSpace.start ∨
      h₀.fromSpace.stop ≤ r.index) := by
  have hnode := hc.node hr.2
  have hlow := hnode.lower
  have hup := hnode.upper
  have hpos := hnode.size_pos
  unfold headerSize at hpos
  rintro (hne | hlt | hle)
  · exact hne hr.1
  · exact absurd hlt (Nat.not_lt.mpr hlow)
  · have : h₀.free ≤ r.index := hle
    omega

/-- A node that has been moved is found by its forwarding word. -/
theorem Copying.evacuate_again (hcp : Copying h₀ nodes h order cursor) (hh : h₀.Halved)
    (hc : h₀.Laid nodes) {r : Ref} (hr : h₀.Into nodes r) (hin : r.index ∈ order) :
    h.word r.index = .forward (h₀.newRef order r.index) ∧
      Heap.evacuate h₀.fromSpace r h = .ok (h₀.newRef order r.index) h := by
  have hpos := (hc.node hr.2).size_pos
  unfold headerSize at hpos
  have hinside := hcp.old_inside hh hc hr.2
  have hw : h.word r.index = .forward (h₀.newRef order r.index) := by
    have hup := (hc.node hr.2).upper
    rw [hcp.old r.index (hc.node hr.2).lower (by omega), if_pos hin]
  refine ⟨hw, ?_⟩
  unfold Heap.evacuate
  rw [if_neg (hc.not_outside hr)]
  simp [look_eq (show r.index < h.words.size by omega), hw]

/-- A node that has not been moved is moved. -/
theorem Copying.evacuate_first (hcp : Copying h₀ nodes h order cursor) (hh : h₀.Halved)
    (hc : h₀.Laid nodes) {r : Ref} (hr : h₀.Into nodes r) (hnot : r.index ∉ order) :
    (∃ kind, h.word r.index = .tag kind) ∧
      Heap.evacuate h₀.fromSpace r h =
        .ok (h₀.newRef (order ++ [r.index]) r.index) (h.moved r.index (h₀.sizeAt r.index)) := by
  obtain ⟨kind, hkind⟩ := (hc.node hr.2).tag
  have hpos := (hc.node hr.2).size_pos
  unfold headerSize at hpos
  have hw : h.word r.index = .tag kind := by
    rw [← hkind]
    exact hcp.old_node hc hr.2 hnot (k := 0) (by omega)
  have hinside := hcp.old_inside hh hc hr.2
  have hroom := hcp.free_add_le hh hc hr.2 hnot
  have hmove : Heap.move r.index (h₀.sizeAt r.index) h =
      .ok ⟨h.free, h.epoch⟩ (h.moved r.index (h₀.sizeAt r.index)) :=
    move_eq (by omega) hinside (by rw [hcp.size]; exact hroom.trans hh.flip_le)
  refine ⟨⟨kind, hw⟩, ?_⟩
  unfold Heap.evacuate
  rw [if_neg (hc.not_outside hr)]
  simp [look_eq (show r.index < h.words.size by omega), hw, hcp.countAt_size hh hc hr.2 hnot, hmove,
    newRef, offset_append_self [] hnot, hcp.free, hcp.epoch]

/-- The new reference to a node, which has then been moved. -/
theorem Copying.evacuate (hcp : Copying h₀ nodes h order cursor) (hh : h₀.Halved)
    (hc : h₀.Laid nodes) {r : Ref} (hr : h₀.Into nodes r) :
    ∃ h' more, Heap.evacuate h₀.fromSpace r h = .ok (h₀.newRef (order ++ more) r.index) h' ∧
      Copying h₀ nodes h' (order ++ more) cursor ∧ r.index ∈ order ++ more := by
  by_cases hin : r.index ∈ order
  · refine ⟨h, [], ?_, by simpa using hcp, by simpa using hin⟩
    simpa using (hcp.evacuate_again hh hc hr hin).2
  · exact ⟨h.moved r.index (h₀.sizeAt r.index), [r.index], (hcp.evacuate_first hh hc hr hin).2,
      hcp.move hh hc hr.2 hin, by simp⟩

end

end ClosureMachine.Heap
