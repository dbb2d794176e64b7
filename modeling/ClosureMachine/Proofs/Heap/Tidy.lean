import ClosureMachine.Proofs.Heap.Collection

/-!
# Nodes one behind the other

The allocated part of a heap is read from its start: a node stands there, behind it the next one, and so on to the
first free word. `Header` says at which positions nodes begin by this reading. A heap is `Tidy` if the
reading makes sense, that is, if there is a proper header wherever one is expected, and if no other word of the
allocated part looks like a header. Then the word under a reference tells whether a node begins there, and
references that lead nowhere are noticed, whatever they came from.

What is written behind the header of a node does not matter, nor does a new node at the end. A collection leaves a
tidy heap behind as well, even one that fails.
-/

set_option autoImplicit false

namespace ClosureMachine

/-- The word is neither the beginning of a node nor the place where one was. -/
def Word.Plain : Word → Prop
  | .tag _ | .forward _ => False
  | _ => True

namespace Heap

/-- The positions at which nodes begin. -/
inductive Header (h : Heap) : Nat → Prop
  | first : h.base < h.free → Header h h.base
  | next {i : Nat} : Header h i → i + h.sizeAt i < h.free → Header h (i + h.sizeAt i)

/-- A reference that is current and leads to a node. -/
def Valid (h : Heap) (r : Ref) : Prop := h.Into h.Header r

/-- Valid references differ in where they lead. -/
theorem Valid.eq_of_index {h : Heap} {r r' : Ref} (hv : h.Valid r) (hv' : h.Valid r')
    (heq : r.index = r'.index) : r = r' := by
  obtain ⟨index, epoch⟩ := r
  obtain ⟨index', epoch'⟩ := r'
  obtain ⟨rfl, -⟩ := hv
  obtain ⟨rfl, -⟩ := hv'
  obtain rfl : index = index' := heq
  rfl

structure Tidy (h : Heap) : Prop where
  halved : h.Halved
  node : ∀ {i}, h.Header i → h.NodeAt i
  plain : ∀ {i}, h.Header i → ∀ k, 0 < k → k < h.sizeAt i → (h.word (i + k)).Plain

section

variable {h h' : Heap} {i j k : Nat}

theorem Header.base_le (hi : h.Header i) : h.base ≤ i := by
  induction hi with
  | first => exact Nat.le_refl _
  | next _ _ ih => exact Nat.le_trans ih (Nat.le_add_right _ _)

theorem Header.lt_free (hi : h.Header i) : i < h.free := by
  cases hi with
  | first hlt => exact hlt
  | next _ hlt => exact hlt

namespace Tidy

theorem size_pos (ht : h.Tidy) (hi : h.Header i) : 0 < h.sizeAt i := by
  have hpos := (ht.node hi).size_pos
  unfold headerSize at hpos
  omega

/-- A node ends before the next one begins. The induction is on both positions, because the walk to one
of them passes the other. -/
theorem add_size_le (ht : h.Tidy) (hi : h.Header i) (hj : h.Header j) (hlt : i < j) :
    i + h.sizeAt i ≤ j := by
  obtain ⟨n, hn⟩ : ∃ n, i + j < n := ⟨_, Nat.lt_succ_self _⟩
  induction n generalizing i j with
  | zero => omega
  | succ n ih =>
    cases hj with
    | first => exact absurd hi.base_le (Nat.not_le.mpr hlt)
    | @next m hm hm' =>
      have hpos := ht.size_pos hm
      rcases Nat.lt_trichotomy i m with hlt' | rfl | hgt
      · exact Nat.le_trans (ih hi hm hlt' (by omega)) (Nat.le_add_right _ _)
      · exact Nat.le_refl _
      · have := ih hm hi hgt (by omega)
        omega

theorem laid (ht : h.Tidy) : h.Laid h.Header where
  node := ht.node
  apart := by
    intro i j hi hj hne
    rcases Nat.lt_or_gt_of_ne hne with hlt | hgt
    · exact .inl (ht.add_size_le hi hj hlt)
    · exact .inr (ht.add_size_le hj hi hgt)

/-- Every word of the allocated part belongs to a node. -/
theorem cover (ht : h.Tidy) (hlow : h.base ≤ j) (hup : j < h.free) :
    ∃ i k, h.Header i ∧ k < h.sizeAt i ∧ j = i + k := by
  induction j with
  | zero =>
    obtain hbase : h.base = 0 := by omega
    have hfirst := Header.first (h := h) (by omega)
    rw [hbase] at hfirst
    exact ⟨0, 0, hfirst, ht.size_pos hfirst, rfl⟩
  | succ j ih =>
    by_cases heq : h.base = j + 1
    · have hfirst := Header.first (h := h) (by omega)
      rw [heq] at hfirst
      exact ⟨j + 1, 0, hfirst, ht.size_pos hfirst, rfl⟩
    · obtain ⟨i, k, hi, hk, rfl⟩ := ih (by omega) (by omega)
      by_cases hnext : k + 1 < h.sizeAt i
      · exact ⟨i, k + 1, hi, hnext, rfl⟩
      · have hend : i + k + 1 = i + h.sizeAt i := by omega
        have hnew : h.Header (i + k + 1) := by
          rw [hend]
          exact .next hi (by omega)
        exact ⟨i + k + 1, 0, hnew, ht.size_pos hnew, rfl⟩

/-- Where no node begins, nothing looks like one. -/
theorem plain_of_not_header (ht : h.Tidy) (hlow : h.base ≤ j) (hup : j < h.free) (hj : ¬ h.Header j) :
    (h.word j).Plain := by
  obtain ⟨i, k, hi, hk, rfl⟩ := ht.cover hlow hup
  have hpos : 0 < k := by
    rcases Nat.eq_zero_or_pos k with rfl | hpos
    · exact absurd hi hj
    · exact hpos
  exact ht.plain hi k hpos hk

theorem header_of_tag (ht : h.Tidy) (hlow : h.base ≤ j) (hup : j < h.free) {kind : Kind}
    (hword : h.word j = .tag kind) : h.Header j := by
  by_contra hj
  have hplain := ht.plain_of_not_header hlow hup hj
  rw [hword] at hplain
  exact hplain

end Tidy

/-! ## Changes behind the headers -/

/-- Both heaps have the same halves and the same free words. -/
structure SameExtent (h h' : Heap) : Prop where
  size : h'.words.size = h.words.size
  semispace : h'.semispace = h.semispace
  base : h'.base = h.base
  free : h'.free = h.free

theorem Header.of_sizes (hbase : h'.base = h.base) (hfree : h'.free = h.free)
    (hsize : ∀ i, h.Header i → h'.sizeAt i = h.sizeAt i) (hi : h'.Header i) : h.Header i := by
  induction hi with
  | first hlt =>
    rw [hbase]
    exact .first (by omega)
  | next _ hlt ih =>
    rw [hsize _ ih]
    rw [hsize _ ih] at hlt
    exact .next ih (by omega)

theorem Header.to_sizes (hbase : h'.base = h.base) (hfree : h'.free = h.free)
    (hsize : ∀ i, h.Header i → h'.sizeAt i = h.sizeAt i) (hi : h.Header i) : h'.Header i := by
  induction hi with
  | first hlt =>
    rw [← hbase]
    exact .first (by omega)
  | @next i hi' hlt ih =>
    rw [← hsize _ hi']
    rw [← hsize _ hi'] at hlt
    exact .next ih (by omega)

theorem sizeAt_congr (hw : h'.word (i + 1) = h.word (j + 1)) : h'.sizeAt i = h.sizeAt j := by
  rw [sizeAt, sizeAt, hw]

theorem childrenAt_congr (hw : h'.word (i + 2) = h.word (j + 2)) : h'.childrenAt i = h.childrenAt j := by
  rw [childrenAt, childrenAt, hw]

/-- A node whose header is the same is still a node. -/
theorem NodeAt.congr (hn : h.NodeAt i) (hhead : ∀ k < headerSize, h'.word (j + k) = h.word (i + k))
    (hlow : h'.base ≤ j) (hup : j + h.sizeAt i ≤ h'.free) : h'.NodeAt j := by
  have htag := hhead 0 (by decide)
  have hsize := hhead 1 (by decide)
  have hchildren := hhead 2 (by decide)
  have hsize' : h'.sizeAt j = h.sizeAt i := sizeAt_congr hsize
  have hchildren' : h'.childrenAt j = h.childrenAt i := childrenAt_congr hchildren
  refine ⟨?_, ?_, ?_, ?_, hlow, by rwa [hsize']⟩
  · obtain ⟨kind, hkind⟩ := hn.tag
    exact ⟨kind, htag.trans hkind⟩
  · rw [hsize, hn.size, hsize']
  · rw [hchildren, hn.children, hchildren']
  · rw [hsize', hchildren']
    exact hn.fits

/-- Other words behind the headers make no difference, if they do not look like headers. -/
theorem Tidy.change (ht : h.Tidy) (he : SameExtent h h')
    (hhead : ∀ i, h.Header i → ∀ k < headerSize, h'.word (i + k) = h.word (i + k))
    (hplain : ∀ i, h.Header i → ∀ k, headerSize ≤ k → k < h.sizeAt i → (h'.word (i + k)).Plain) :
    h'.Tidy ∧ ∀ i, h'.Header i ↔ h.Header i := by
  have hsize : ∀ i, h.Header i → h'.sizeAt i = h.sizeAt i :=
    fun i hi => sizeAt_congr (hhead i hi 1 (by decide))
  have hof : ∀ {i}, h'.Header i → h.Header i := fun hi => hi.of_sizes he.base he.free hsize
  have hh := ht.halved
  refine ⟨⟨⟨?_, ?_, ?_, ?_⟩, ?_, ?_⟩, fun i => ⟨hof, fun hi => hi.to_sizes he.base he.free hsize⟩⟩
  · rw [he.size, he.semispace, hh.size]
  · rw [he.base, he.semispace]
    exact hh.base
  · rw [he.base, he.free]
    exact hh.base_le
  · rw [he.base, he.free, he.semispace]
    exact hh.free_le
  · intro i hi
    have hn := ht.node (hof hi)
    refine hn.congr (hhead i (hof hi)) ?_ ?_
    · rw [he.base]
      exact hn.lower
    · rw [he.free]
      exact hn.upper
  · intro i hi k hpos hk
    rw [hsize i (hof hi)] at hk
    by_cases hlt : k < headerSize
    · rw [hhead i (hof hi) k hlt]
      exact ht.plain (hof hi) k hpos hk
    · exact hplain i (hof hi) k (by omega) hk

/-- A word behind the header of a node is in no header. -/
theorem Tidy.header_ne (ht : h.Tidy) (hi : h.Header i) (hk : headerSize ≤ k) (hk' : k < h.sizeAt i)
    (hj : h.Header j) {l : Nat} (hl : l < headerSize) : j + l ≠ i + k := by
  intro heq
  have hpos := (ht.node hj).size_pos
  rcases Nat.lt_trichotomy i j with hlt | rfl | hgt
  · have := ht.add_size_le hi hj hlt
    omega
  · omega
  · have := ht.add_size_le hj hi hgt
    omega

/-- One word behind the header of a node. -/
theorem Tidy.setWord (ht : h.Tidy) (hi : h.Header i) (hk : headerSize ≤ k) (hk' : k < h.sizeAt i)
    {w : Word} (hw : w.Plain) :
    (h.setWord (i + k) w).Tidy ∧ ∀ j, (h.setWord (i + k) w).Header j ↔ h.Header j := by
  refine ht.change ⟨setWord_size .., rfl, rfl, rfl⟩ ?_ ?_
  · intro j hj l hl
    exact word_setWord_ne _ _ (ht.header_ne hi hk hk' hj hl)
  · intro j hj l hl hl'
    have hup := (ht.node hi).upper
    have hfree := ht.halved.free_le
    have hin : i + k < h.words.size := by
      have hhalf := ht.halved.half_le
      omega
    rw [word_setWord _ _ _ _ hin]
    split
    · exact hw
    · exact ht.plain hj l (by unfold headerSize at hl; omega) hl'

/-! ## A node at the end -/

theorem Header.of_append {size : Nat} (hi : h'.Header i) (ht : h.Tidy) (hbase : h'.base = h.base)
    (hfree : h'.free = h.free + size) (hbelow : ∀ j < h.free, h'.word j = h.word j)
    (hsize : h'.sizeAt h.free = size) : h.Header i ∨ i = h.free := by
  induction hi with
  | first hlt =>
    have hle := ht.halved.base_le
    rw [hbase]
    by_cases heq : h.base = h.free
    · exact .inr heq
    · exact .inl (.first (by omega))
  | @next i hi' hlt ih =>
    rcases ih with hold | rfl
    · have hup := (ht.node hold).upper
      have hpos := (ht.node hold).size_pos
      unfold headerSize at hpos
      rw [sizeAt_congr (hbelow (i + 1) (by omega))]
      by_cases heq : i + h.sizeAt i = h.free
      · exact .inr heq
      · exact .inl (.next hold (by omega))
    · omega

/-- One more node behind the others. -/
theorem Tidy.append (ht : h.Tidy) {size : Nat} (hwords : h'.words.size = h.words.size)
    (hsemi : h'.semispace = h.semispace) (hbase : h'.base = h.base) (hfree : h'.free = h.free + size)
    (hroom : h.free + size ≤ h.base + h.semispace) (hbelow : ∀ j < h.free, h'.word j = h.word j)
    (hsize : h'.sizeAt h.free = size) (hnode : h'.NodeAt h.free)
    (hplain : ∀ k, 0 < k → k < size → (h'.word (h.free + k)).Plain) : h'.Tidy := by
  have hh := ht.halved
  have hle := hh.base_le
  refine ⟨⟨?_, ?_, ?_, ?_⟩, ?_, ?_⟩
  · rw [hwords, hsemi, hh.size]
  · rw [hbase, hsemi]
    exact hh.base
  · omega
  · omega
  · intro i hi
    rcases hi.of_append ht hbase hfree hbelow hsize with hold | rfl
    · have hn := ht.node hold
      have hlow := hn.lower
      have hup := hn.upper
      have hpos := hn.size_pos
      refine hn.congr (fun k hk => hbelow _ (by omega)) (by omega) (by omega)
    · exact hnode
  · intro i hi k hpos hk
    rcases hi.of_append ht hbase hfree hbelow hsize with hold | rfl
    · have hup := (ht.node hold).upper
      have hpos' := (ht.node hold).size_pos
      unfold headerSize at hpos'
      rw [sizeAt_congr (hbelow (i + 1) (by omega))] at hk
      rw [hbelow _ (by omega)]
      exact ht.plain hold k hpos hk
    · rw [hsize] at hk
      exact hplain k hpos hk

end

/-! ## Collections -/

section

variable {h₀ h : Heap} {nodes : Nat → Prop} {order before rest : List Nat} {cursor i j k : Nat}

/-- Headers are copied as they are. -/
theorem Copying.header_word (hcp : Copying h₀ nodes h order cursor) (hc : h₀.Laid nodes)
    (hi : i ∈ order) (hk : k < headerSize) :
    h.word ((h₀.newRef order i).index + k) = h₀.word (i + k) := by
  have hpos := (hc.node (hcp.among i hi)).size_pos
  have hnot : ¬ (headerSize ≤ k ∧ k < headerSize + h₀.childrenAt i) := by omega
  rw [hcp.new i hi k (by omega), relocated, if_neg hnot, ite_self]

theorem Copying.sizeAt_new (hcp : Copying h₀ nodes h order cursor) (hc : h₀.Laid nodes)
    (hi : i ∈ order) : h.sizeAt (h₀.newRef order i).index = h₀.sizeAt i :=
  sizeAt_congr (hcp.header_word hc hi (by decide))

/-- The headers of the new half are those of the nodes that were moved, in this order. -/
theorem Copying.header_split (hcp : Copying h₀ nodes h order cursor) (hc : h₀.Laid nodes)
    (hj : h.Header j) :
    ∃ before i rest, order = before ++ i :: rest ∧ j = h₀.flip.base + total h₀.sizeAt before := by
  have hfree := hcp.free
  induction hj with
  | first hlt =>
    rw [hcp.base] at hlt ⊢
    cases order with
    | nil =>
      simp only [total] at hfree
      omega
    | cons i rest => exact ⟨[], i, rest, rfl, rfl⟩
  | next _ hlt ih =>
    obtain ⟨before, i, rest, rfl, rfl⟩ := ih
    have hsize := hcp.sizeAt_new hc (i := i) (by simp)
    rw [index_newRef hcp.nodup] at hsize
    rw [hsize] at hlt ⊢
    cases rest with
    | nil =>
      rw [total_append, total_singleton] at hfree
      omega
    | cons i' rest =>
      refine ⟨before ++ [i], i', rest, by simp, ?_⟩
      rw [total_append, total_singleton]
      omega

theorem Copying.header_of_split (hcp : Copying h₀ nodes h (before ++ i :: rest) cursor)
    (hc : h₀.Laid nodes) : h.Header (h₀.flip.base + total h₀.sizeAt before) := by
  -- the walk over the new half meets the nodes one by one, so the induction is on the last one passed
  induction before using List.reverseRecOn generalizing i rest with
  | nil =>
    have hpos := hcp.lt_free (i := i) (k := 0) (by simp) (by
      have := (hc.node (hcp.among i (by simp))).size_pos
      unfold headerSize at this
      omega)
    rw [index_newRef hcp.nodup] at hpos
    rw [total, Nat.add_zero] at hpos ⊢
    rw [← hcp.base]
    exact .first (by rw [hcp.base]; exact hpos)
  | append_singleton before b ih =>
    have horder : before ++ [b] ++ i :: rest = before ++ b :: (i :: rest) := by simp
    have hpos := hcp.lt_free (i := i) (k := 0) (by simp) (by
      have := (hc.node (hcp.among i (by simp))).size_pos
      unfold headerSize at this
      omega)
    rw [index_newRef hcp.nodup, total_append, total_singleton] at hpos
    rw [horder] at hcp
    have hsize := hcp.sizeAt_new hc (i := b) (by simp)
    rw [index_newRef hcp.nodup] at hsize
    have hnext := Header.next (ih hcp) (by rw [hsize]; omega)
    rw [hsize] at hnext
    rwa [total_append, total_singleton, ← Nat.add_assoc]

theorem Copying.header_iff (hcp : Copying h₀ nodes h order cursor) (hc : h₀.Laid nodes) :
    h.Header j ↔ ∃ i ∈ order, (h₀.newRef order i).index = j := by
  constructor
  · intro hj
    obtain ⟨before, i, rest, rfl, rfl⟩ := hcp.header_split hc hj
    exact ⟨i, by simp, index_newRef hcp.nodup⟩
  · rintro ⟨i, hi, rfl⟩
    obtain ⟨before, rest, rfl⟩ := List.append_of_mem hi
    rw [index_newRef hcp.nodup]
    exact hcp.header_of_split hc

theorem relocated_plain (hw : (h₀.word (i + k)).Plain) : (h₀.relocated order i k).Plain := by
  unfold relocated
  split
  · split
    · exact trivial
    · exact hw
  · exact hw

/-- A collection leaves a tidy heap, wherever it stops. -/
theorem Copying.tidy (hcp : Copying h₀ nodes h order cursor) (ht : h₀.Tidy)
    (hsub : ∀ i, nodes i → h₀.Header i) : h.Tidy := by
  have hh := ht.halved
  have hc : h₀.Laid nodes := ht.laid.mono hsub
  refine ⟨⟨?_, ?_, ?_, ?_⟩, ?_, ?_⟩
  · rw [hcp.size, hcp.semispace, hh.size]
  · rw [hcp.base, hcp.semispace, flip]
    dsimp only
    split
    · exact .inr rfl
    · exact .inl rfl
  · rw [hcp.base, hcp.free]
    exact Nat.le_add_right _ _
  · rw [hcp.base, hcp.semispace]
    exact hcp.free_le hh hc
  · intro j hj
    obtain ⟨i, hi, rfl⟩ := (hcp.header_iff hc).mp hj
    have hle := @offset_add_size_le h₀.sizeAt order _ hi
    refine (hc.node (hcp.among i hi)).congr (fun k hk => hcp.header_word hc hi hk) ?_ ?_
    · rw [hcp.base]
      exact Nat.le_add_right _ _
    · rw [hcp.free]
      simp only [newRef]
      omega
  · intro j hj k hpos hk
    obtain ⟨i, hi, rfl⟩ := (hcp.header_iff hc).mp hj
    rw [hcp.sizeAt_new hc hi] at hk
    have hplain := ht.plain (hsub i (hcp.among i hi)) k hpos hk
    rw [hcp.new i hi k hk]
    split
    · exact relocated_plain hplain
    · exact hplain

/-- Wiping the old half changes nothing in the new one. -/
theorem Copying.tidy_settle (hcp : Copying h₀ nodes h order cursor) (ht : h₀.Tidy)
    (hsub : ∀ i, nodes i → h₀.Header i) :
    (h.settle h₀.fromSpace).Tidy ∧ ∀ j, (h.settle h₀.fromSpace).Header j ↔ h.Header j := by
  have hc : h₀.Laid nodes := ht.laid.mono hsub
  have htidy := hcp.tidy ht hsub
  have hword : ∀ i, h.Header i → ∀ k < h.sizeAt i,
      (h.settle h₀.fromSpace).word (i + k) = h.word (i + k) := by
    intro i hi k hk
    have hlow := (htidy.node hi).lower
    have hup := (htidy.node hi).upper
    exact hcp.word_settle ht.halved hc (by omega) (by omega)
  refine htidy.change ⟨by simp, by simp, by simp, by simp⟩ ?_ ?_
  · intro i hi k hk
    have hpos := (htidy.node hi).size_pos
    exact hword i hi k (by omega)
  · intro i hi k hk hk'
    rw [hword i hi k hk']
    exact htidy.plain hi k (by unfold headerSize at hk; omega) hk'

/-- In a tidy heap a collection notices what leads nowhere. -/
theorem Tidy.rejected (ht : h₀.Tidy) (hsub : ∀ i, nodes i → h₀.Header i) {r : Ref}
    (hr : ¬ h₀.Valid r) : h₀.Rejected nodes r := by
  refine ⟨fun hinto => hr ⟨hinto.1, hsub _ hinto.2⟩, ?_⟩
  intro h order cursor hcp
  unfold Heap.evacuate
  by_cases hguard : r.epoch ≠ h₀.fromSpace.epoch ∨ r.index < h₀.fromSpace.start ∨
      h₀.fromSpace.stop ≤ r.index
  · rw [if_pos hguard]
    rfl
  · rw [if_neg hguard]
    simp only [fromSpace, not_or, not_not, Nat.not_lt, Nat.not_le] at hguard
    obtain ⟨hepoch, hlow, hup⟩ := hguard
    have hnot : ¬ h₀.Header r.index := fun hi => hr ⟨hepoch, hi⟩
    have hplain := ht.plain_of_not_header hlow hup hnot
    have hword : h.word r.index = h₀.word r.index := by
      rw [hcp.old _ hlow hup, if_neg]
      exact fun hm => hnot (hsub _ (hcp.among _ hm))
    have hinside : r.index < h.words.size := by
      rw [hcp.size]
      exact Nat.lt_of_lt_of_le hup ht.halved.free_inside
    cases hw : h₀.word r.index with
    | tag kind =>
      rw [hw] at hplain
      exact hplain.elim
    | forward target =>
      rw [hw] at hplain
      exact hplain.elim
    | _ => simp [look_eq hinside, hword, hw]

/-- A reference leads to a node or is noticed. -/
theorem Tidy.into_or_rejected (ht : h₀.Tidy) (r : Ref) :
    h₀.Into h₀.Header r ∨ h₀.Rejected h₀.Header r := by
  by_cases hv : h₀.Valid r
  · exact .inl hv
  · exact .inr (ht.rejected (fun _ hi => hi) hv)

end

end Heap

end ClosureMachine
