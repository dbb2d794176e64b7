import ClosureMachine.Proofs.Heap.Shapes

/-!
# What an allocation does

An allocation makes room if there is none, and only then. What it needs is room for the new node beside everything
that the roots lead to; nodes that were given up do not count, whether or not they have been collected yet. If there
is that much room the new node is made, and otherwise nothing is. Either way the roots lead to the same graph as
before (`Heap.Relocation`), in which nodes may have been moved.
-/

set_option autoImplicit false

namespace ClosureMachine

open Heap (headerSize)

namespace Heap

/-- What `roots'` lead to in `h'` is what `roots` lead to in `h`, node by node under other references. -/
structure Relocation (h : Heap) (roots : List Ref) (h' : Heap) (roots' : List Ref) (image : Ref → Ref) :
    Prop where
  replaced : roots' = roots.map image
  injective : ∀ {r r'}, h.Traced roots r → h.Traced roots r' → image r = image r' → r = r'
  onto : ∀ r', h'.Traced roots' r' ↔ ∃ r, h.Traced roots r ∧ image r = r'
  alike : ∀ {r}, h.Traced roots r → h.Alike h' image r (image r)

/-- A node of which nothing is known but its header: it stands apart from all others and nothing leads to it. -/
structure Unused (h : Heap) (roots : List Ref) (r : Ref) (kind : Kind) (size children : Nat) : Prop where
  found : Heap.kind r h = .ok kind
  extent : Heap.size r h = .ok size
  links : Heap.childCount r h = .ok children
  empty : ∀ k, headerSize ≤ k → k < size → Heap.read r k h = .ok .empty
  apart : ∀ r', h.Valid r' → r' ≠ r →
    r'.index + h.sizeAt r'.index ≤ r.index ∨ r.index + size ≤ r'.index
  unreached : ¬ h.Traced roots r

section

variable {h h' : Heap} {roots : List Ref} {image : Ref → Ref} {r r' : Ref}

/-! ## The same graph -/

theorem Alike.valid (ha : h.Alike h' image r r') (ht' : h'.Tidy) : h'.Valid r' := by
  obtain ⟨kind, -, hkind⟩ := ha.kind
  exact ht'.valid_of_kind hkind

/-- Nodes that are alike have the same header. -/
theorem Alike.head (ha : h.Alike h' image r r') (ht : h.Tidy) (ht' : h'.Tidy) (hv : h.Valid r)
    (hv' : h'.Valid r') : ∀ k < headerSize, h'.word (r'.index + k) = h.word (r.index + k) := by
  have hn := ht.node hv.2
  have hn' := ht'.node hv'.2
  intro k hk
  obtain rfl | rfl | rfl : k = 0 ∨ k = 1 ∨ k = 2 := by
    unfold headerSize at hk
    omega
  · obtain ⟨found, hfound⟩ := hn.tag
    obtain ⟨found', hfound'⟩ := hn'.tag
    obtain ⟨kind, hkind, hkind'⟩ := ha.kind
    rw [ht.kind_valid hv hfound] at hkind
    rw [ht'.kind_valid hv' hfound'] at hkind'
    cases hkind
    cases hkind'
    exact hfound'.trans hfound.symm
  · have hsize := (ht'.size_valid hv').symm.trans ha.size.2
    rw [hn.size, hn'.size, Except.ok.inj hsize]
  · have hchildren := (ht'.childCount_valid hv').symm.trans ha.children.2
    rw [hn.children, hn'.children, Except.ok.inj hchildren]

/-- Behind the header the words correspond. -/
theorem Alike.word (ha : h.Alike h' image r r') (ht : h.Tidy) (ht' : h'.Tidy) (hv : h.Valid r)
    (hv' : h'.Valid r') {k : Nat} (hk : headerSize ≤ k) (hk' : k < h.sizeAt r.index) :
    h'.word (r'.index + k) =
      if k < headerSize + h.childrenAt r.index then (h.word (r.index + k)).mapRef image
      else h.word (r.index + k) := by
  have hsize : h'.sizeAt r'.index = h.sizeAt r.index := sizeAt_congr (ha.head ht ht' hv hv' 1 (by decide))
  obtain ⟨w, hw, hw'⟩ := ha.words k hk hk'
  rw [ht.read_valid hv hk hk'] at hw
  rw [ht'.read_valid hv' hk (by omega)] at hw'
  cases hw
  exact Except.ok.inj hw'

/-- The children of nodes that are alike are images of each other. -/
theorem Alike.child_iff (ha : h.Alike h' image r r') (ht : h.Tidy) (ht' : h'.Tidy) (hv : h.Valid r)
    (hv' : h'.Valid r') (target : Ref) :
    h'.Child r'.index target ↔ ∃ source, h.Child r.index source ∧ image source = target := by
  have hchildren : h'.childrenAt r'.index = h.childrenAt r.index :=
    childrenAt_congr (ha.head ht ht' hv hv' 2 (by decide))
  have hfits := (ht.node hv.2).fits
  have hword : ∀ k < h.childrenAt r.index, h'.word (r'.index + headerSize + k) =
      (h.word (r.index + headerSize + k)).mapRef image := by
    intro k hk
    rw [Nat.add_assoc, Nat.add_assoc, ha.word ht ht' hv hv' (Nat.le_add_right _ _) (by omega),
      if_pos (by omega)]
  constructor
  · rintro ⟨k, hk, hw⟩
    rw [hchildren] at hk
    rw [hword k hk] at hw
    cases hsource : h.word (r.index + headerSize + k) with
    | ref source =>
      rw [hsource] at hw
      exact ⟨source, ⟨k, hk, hsource⟩, by simpa [Word.mapRef] using hw⟩
    | _ =>
      rw [hsource] at hw
      cases hw
  · rintro ⟨source, ⟨k, hk, hw⟩, rfl⟩
    refine ⟨k, by rwa [hchildren], ?_⟩
    rw [hword k hk, hw]
    rfl

/-- Where every node has an image that is alike, the images are what the images of the roots lead to. -/
theorem Relocation.of_alike (ht : h.Tidy) (ht' : h'.Tidy)
    (hv : ∀ r, h.Traced roots r → h.Valid r) (hv' : ∀ r, h.Traced roots r → h'.Valid (image r))
    (hinj : ∀ {r r'}, h.Traced roots r → h.Traced roots r' → image r = image r' → r = r')
    (halike : ∀ {r}, h.Traced roots r → h.Alike h' image r (image r)) :
    h.Relocation roots h' (roots.map image) image := by
  refine ⟨rfl, hinj, fun r' => ⟨fun hr' => ?_, ?_⟩, halike⟩
  · induction hr' with
    | root hmem =>
      obtain ⟨r, hr, rfl⟩ := List.mem_map.mp hmem
      exact ⟨r, .root hr, rfl⟩
    | child _ _ hchild ih =>
      obtain ⟨r, hr, rfl⟩ := ih
      obtain ⟨source, hsource, rfl⟩ :=
        ((halike hr).child_iff ht ht' (hv r hr) (hv' r hr) _).mp hchild
      exact ⟨source, .child hr (hv r hr) hsource, rfl⟩
  · rintro ⟨r, hr, rfl⟩
    induction hr with
    | root hmem => exact .root (List.mem_map_of_mem hmem)
    | child hr _ hchild ih =>
      exact .child ih (hv' _ hr) (((halike hr).child_iff ht ht' (hv _ hr) (hv' _ hr) _).mpr ⟨_, hchild, rfl⟩)

/-- Nodes are alike themselves. -/
theorem Tidy.alike_self (ht : h.Tidy) (hv : h.Valid r) : h.Alike h id r r := by
  refine ht.alike ht hv hv (fun _ _ => rfl) fun k _ _ => ?_
  split
  · cases h.word (r.index + k) <;> rfl
  · rfl

/-- Where nothing has happened, all is where it was. -/
theorem Relocation.refl (ht : h.Tidy) (hv : ∀ r, h.Traced roots r → h.Valid r) :
    h.Relocation roots h (roots.map id) id :=
  .of_alike ht ht hv hv (fun _ _ heq => heq) fun hr => ht.alike_self (hv _ hr)

/-! ## How much is in use -/

/-- What the roots lead to, if all of it is valid. -/
theorem Tidy.traced_nodes (hv : ∀ r, h.Traced roots r → h.Valid r) :
    ∃ nodes : Finset Ref, ∀ r, r ∈ nodes ↔ h.Traced roots r := by
  classical
  refine ⟨((Finset.range h.free).image fun i => (⟨i, h.epoch⟩ : Ref)).filter (h.Traced roots), fun r => ?_⟩
  rw [Finset.mem_filter, Finset.mem_image]
  refine ⟨fun hr => hr.2, fun hr => ⟨⟨r.index, ?_, ?_⟩, hr⟩⟩
  · exact Finset.mem_range.mpr (hv r hr).2.lt_free
  · rw [← (hv r hr).1]

/-- It takes no more room than there is in use. -/
theorem Tidy.sum_le_used (ht : h.Tidy) {nodes : Finset Ref} (hv : ∀ r ∈ nodes, h.Valid r) :
    ∑ r ∈ nodes, h.sizeAt r.index ≤ h.used := by
  refine sum_size_le nodes Ref.index (fun r => h.sizeAt r.index) h.base h.free ?_ ?_
  · intro r hr
    have hn := ht.node (hv r hr).2
    exact ⟨hn.lower, hn.upper⟩
  · intro r hr r' hr' hne
    exact ht.laid.apart (hv r hr).2 (hv r' hr').2 fun heq => hne ((hv r hr).eq_of_index (hv r' hr') heq)

end

/-! ## One more node -/

section

variable {h h' : Heap} {size children : Nat}

/-- `h'` is `h` with more behind its nodes. -/
structure Extended (h h' : Heap) : Prop where
  base : h'.base = h.base
  free : h.free ≤ h'.free
  epoch : h'.epoch = h.epoch
  below : ∀ j < h.free, h'.word j = h.word j

theorem Header.extended {i : Nat} (hi : h.Header i) (ht : h.Tidy) (he : h.Extended h') : h'.Header i := by
  have hfree := he.free
  induction hi with
  | first hlt =>
    rw [← he.base]
    exact .first (by rw [he.base]; omega)
  | @next i hi hlt ih =>
    have hup := (ht.node hi).upper
    have hpos := (ht.node hi).size_pos
    unfold headerSize at hpos
    have hsize := sizeAt_congr (he.below (i + 1) (by omega))
    rw [← hsize] at hlt ⊢
    exact .next ih (by omega)

/-- Nodes of the heap are the same beside new ones. -/
theorem Extended.alike (he : h.Extended h') (ht : h.Tidy) (ht' : h'.Tidy) {r : Ref} (hv : h.Valid r) :
    h'.Valid r ∧ Heap.kind r h' = Heap.kind r h ∧ Heap.size r h' = Heap.size r h ∧
      Heap.childCount r h' = Heap.childCount r h ∧
      ∀ k, headerSize ≤ k → k < h.sizeAt r.index → Heap.read r k h' = Heap.read r k h := by
  have hn := ht.node hv.2
  have hup := hn.upper
  have hpos := hn.size_pos
  unfold headerSize at hpos
  have hword : ∀ k < h.sizeAt r.index, h'.word (r.index + k) = h.word (r.index + k) :=
    fun k hk => he.below _ (by omega)
  have hsize : h'.sizeAt r.index = h.sizeAt r.index := sizeAt_congr (hword 1 (by omega))
  have hchildren : h'.childrenAt r.index = h.childrenAt r.index := childrenAt_congr (hword 2 (by omega))
  have hv' : h'.Valid r := ⟨hv.1.trans he.epoch.symm, hv.2.extended ht he⟩
  obtain ⟨found, htag⟩ := hn.tag
  refine ⟨hv', ?_, ?_, ?_, ?_⟩
  · rw [ht.kind_valid hv htag, ht'.kind_valid hv' ((hword 0 (by omega)).trans htag)]
  · rw [ht.size_valid hv, ht'.size_valid hv', hsize]
  · rw [ht.childCount_valid hv, ht'.childCount_valid hv', hchildren]
  · intro k hk hk'
    rw [ht.read_valid hv hk hk', ht'.read_valid hv' hk (by omega), hword k hk']

theorem Alike.extended {h₀ : Heap} {image : Ref → Ref} {r r' : Ref} (ha : h₀.Alike h image r r')
    (ht : h.Tidy) (ht' : h'.Tidy) (he : h.Extended h') (hv : h.Valid r') : h₀.Alike h' image r r' := by
  obtain ⟨-, hkind, hsize, hchildren, hread⟩ := he.alike ht ht' hv
  refine ⟨by rw [hkind]; exact ha.kind, by rw [hsize]; exact ha.size,
    by rw [hchildren]; exact ha.children, fun k hk hk' => ?_⟩
  have hextent : h.sizeAt r'.index = h₀.sizeAt r.index := by
    simpa using (ht.size_valid hv).symm.trans ha.size.2
  rw [hread k hk (by omega)]
  exact ha.words k hk hk'

theorem extended_blank (kind : Kind) : h.Extended (h.blank kind size children) := by
  obtain ⟨-, -, hbase, hfree, hepoch⟩ := @blank_fields h kind size children
  exact ⟨hbase, by omega, hepoch, fun j hj => word_blank_below hj⟩

/-- A blank node behind the others. -/
theorem Tidy.blank (ht : h.Tidy) (kind : Kind) (hfits : headerSize + children ≤ size)
    (hroom : h.free + size ≤ h.base + h.semispace) :
    (h.blank kind size children).Tidy ∧ (h.blank kind size children).sizeAt h.free = size ∧
      (h.blank kind size children).childrenAt h.free = children := by
  obtain ⟨hwords, hsemi, hbase, hfree, -⟩ := @blank_fields h kind size children
  have hfit : h.free + size ≤ h.words.size := hroom.trans ht.halved.half_le
  have hheader : headerSize ≤ size := by omega
  have htag := @word_blank_header h kind size children 0 _ hfit hheader rfl
  have hsize := @word_blank_header h kind size children 1 _ hfit hheader rfl
  have hchildren := @word_blank_header h kind size children 2 _ hfit hheader rfl
  have hsizeAt : (h.blank kind size children).sizeAt h.free = size := by rw [sizeAt, hsize]
  have hchildrenAt : (h.blank kind size children).childrenAt h.free = children := by
    rw [childrenAt, hchildren]
  refine ⟨?_, hsizeAt, hchildrenAt⟩
  refine ht.append hwords hsemi hbase hfree hroom (fun j hj => word_blank_below hj) hsizeAt
    ⟨⟨kind, htag⟩, ?_, ?_, ?_, ?_, ?_⟩ ?_
  · rw [hsizeAt]
    exact hsize
  · rw [hchildrenAt]
    exact hchildren
  · rw [hsizeAt, hchildrenAt]
    exact hfits
  · rw [hbase]
    exact ht.halved.base_le
  · rw [hsizeAt, hfree]
  · intro k hpos hk
    rcases cases_header k with rfl | rfl | rfl | ⟨p, rfl⟩
    · exact absurd hpos (Nat.lt_irrefl 0)
    · rw [hsize]
      trivial
    · rw [hchildren]
      trivial
    · rw [← Nat.add_assoc, word_blank_behind hfit hk]
      trivial

/-- The new node can be told from all others. -/
theorem Tidy.unused (ht : h.Tidy) (kind : Kind) (hfits : headerSize + children ≤ size)
    (hroom : h.free + size ≤ h.base + h.semispace) {roots : List Ref}
    (hold : ∀ r, (h.blank kind size children).Traced roots r → h.Valid r) :
    (h.blank kind size children).Unused roots ⟨h.free, h.epoch⟩ kind size children := by
  obtain ⟨-, -, hbase, hfree, hepoch⟩ := @blank_fields h kind size children
  obtain ⟨htidy, hsize, hchildren⟩ := ht.blank kind hfits hroom
  have hfit : h.free + size ≤ h.words.size := hroom.trans ht.halved.half_le
  have hheader : headerSize ≤ size := by omega
  have hpos : 0 < size := by
    unfold headerSize at hheader
    omega
  have hword := @word_blank_header h kind size children 0 _ hfit hheader rfl
  have hvalid : (h.blank kind size children).Valid ⟨h.free, h.epoch⟩ :=
    ⟨hepoch.symm, htidy.header_of_tag (by rw [hbase]; exact ht.halved.base_le)
      (by rw [hfree]; exact Nat.lt_add_of_pos_right hpos) hword⟩
  refine ⟨htidy.kind_valid hvalid hword, ?_, ?_, ?_, ?_, ?_⟩
  · rw [htidy.size_valid hvalid, hsize]
  · rw [htidy.childCount_valid hvalid, hchildren]
  · intro k hk hk'
    rw [htidy.read_valid hvalid hk (by rw [hsize]; exact hk')]
    obtain ⟨j, rfl⟩ : ∃ j, k = headerSize + j := ⟨k - headerSize, by omega⟩
    rw [← Nat.add_assoc, word_blank_behind hfit hk']
  · intro r hr hne
    have happart := htidy.laid.apart hr.2 hvalid.2 fun heq => hne (hr.eq_of_index hvalid heq)
    rwa [hsize] at happart
  · intro hr
    exact absurd (hold _ hr).2.lt_free (Nat.lt_irrefl _)

theorem Tidy.alike_blank (ht : h.Tidy) (kind : Kind) (hfits : headerSize + children ≤ size)
    (hroom : h.free + size ≤ h.base + h.semispace) {r : Ref} (hv : h.Valid r) :
    (h.blank kind size children).Valid r ∧ Heap.kind r (h.blank kind size children) = Heap.kind r h ∧
      Heap.size r (h.blank kind size children) = Heap.size r h ∧
      Heap.childCount r (h.blank kind size children) = Heap.childCount r h ∧
      ∀ k, headerSize ≤ k → k < h.sizeAt r.index →
        Heap.read r k (h.blank kind size children) = Heap.read r k h :=
  (extended_blank kind).alike ht (ht.blank kind hfits hroom).1 hv

theorem Alike.blank {h₀ : Heap} {image : Ref → Ref} {r r' : Ref} (ha : h₀.Alike h image r r') (ht : h.Tidy)
    (kind : Kind) (hfits : headerSize + children ≤ size) (hroom : h.free + size ≤ h.base + h.semispace)
    (hv : h.Valid r') : h₀.Alike (h.blank kind size children) image r r' :=
  ha.extended ht (ht.blank kind hfits hroom).1 (extended_blank kind) hv

end

/-! ## Room -/

section

variable {h : Heap} {ρ : Type} [RootSet ρ]

/-- A collection of roots that lead to nothing invalid. -/
theorem Tidy.collect_traced (ht : h.Tidy) (roots : ρ)
    (hv : ∀ r, h.Traced (RootSet.toList roots) r → h.Valid r) :
    ∃ h' image, Store.collect ⟨h, roots⟩ =
        .ok () ⟨h', RootSet.replace roots ((RootSet.toList roots).map image)⟩ ∧
      h.Image (h.Traced (RootSet.toList roots)) h' image ∧ h'.Tidy ∧ h'.semispace = h.semispace := by
  have hsub : ∀ i, h.TracedNode (RootSet.toList roots) i → h.Header i := fun _ hi => hi.1
  have hc := ht.traceable_traced (RootSet.toList roots)
  have hroots : ∀ r ∈ RootSet.toList roots, h.Into (h.TracedNode (RootSet.toList roots)) r :=
    fun r hr => ⟨(hv r (.root hr)).1, (Traced.root hr).node (hv r (.root hr))⟩
  rcases Store.collect_cases ht.halved hc roots fun r hr => .inl (hroots r hr) with
    ⟨h', order, hrun, hcp, hmoved⟩ | ⟨e, s, -, -, r, hfrom, hrejected, -⟩
  · exact ⟨_, _, hrun, hcp.image ht hmoved, (hcp.tidy_settle ht hsub).1, by simp [hcp.semispace]⟩
  · -- a reference that leads nowhere would have been traced
    have htraced : h.Traced (RootSet.toList roots) r := by
      rcases hfrom with hroot | ⟨i, hi, hchild⟩
      · exact .root hroot
      · exact .child hi.2 ⟨rfl, hi.1⟩ hchild
    exact absurd ⟨(hv r htraced).1, htraced.node (hv r htraced)⟩ hrejected.1

/-- Room is made for what is in use and no more, and what is in use is kept. -/
theorem Tidy.reserve_traced [LawfulRootSet ρ] (ht : h.Tidy) (roots : ρ)
    (hv : ∀ r, h.Traced (RootSet.toList roots) r → h.Valid r) {nodes : Finset Ref}
    (hnodes : ∀ r, r ∈ nodes ↔ h.Traced (RootSet.toList roots) r) (size : Nat) :
    ∃ h' image, h'.Tidy ∧ (∀ r, h.Traced (RootSet.toList roots) r → h'.Valid (image r)) ∧
      h.Relocation (RootSet.toList roots) h' ((RootSet.toList roots).map image) image ∧
      (h.semispace < ∑ r ∈ nodes, h.sizeAt r.index + size ∧
          Store.reserve size ⟨h, roots⟩ =
            .error (.outOfMemory size (h.semispace - ∑ r ∈ nodes, h.sizeAt r.index))
              ⟨h', RootSet.replace roots ((RootSet.toList roots).map image)⟩ ∨
        ∑ r ∈ nodes, h.sizeAt r.index + size ≤ h.semispace ∧
          Store.reserve size ⟨h, roots⟩ =
            .ok () ⟨h', RootSet.replace roots ((RootSet.toList roots).map image)⟩ ∧
          h'.free + size ≤ h'.base + h'.semispace) := by
  have hfree := ht.halved.free_le
  have hbase := ht.halved.base_le
  rcases Store.reserve_cases size ⟨h, roots⟩ with ⟨hrun, havail⟩ | hcollected
  · -- there is room as it is, also for what has been given up
    have hsum : ∑ r ∈ nodes, h.sizeAt r.index ≤ h.used :=
      ht.sum_le_used fun r hr => hv r ((hnodes r).mp hr)
    refine ⟨h, id, ht, hv, .refl ht hv, ?_⟩
    rw [Heap.used] at hsum
    dsimp only [Heap.available] at havail
    rw [List.map_id, LawfulRootSet.replace_toList]
    exact .inr ⟨by omega, hrun, by omega⟩
  · obtain ⟨h', image, hcollect, himage, ht', hsemi⟩ := ht.collect_traced roots hv
    have hvalid : ∀ r, h.Traced (RootSet.toList roots) r → h'.Valid (image r) :=
      fun r hr => (himage.onto _).mpr ⟨r, hr, rfl⟩
    have hfree' := ht'.halved.free_le
    have hbase' := ht'.halved.base_le
    have hused : ∑ r ∈ nodes, h.sizeAt r.index = h'.used := by
      obtain ⟨nodes', hnodes', hused⟩ := himage.used
      obtain rfl : nodes = nodes' := Finset.ext fun r => (hnodes r).trans (hnodes' r).symm
      exact hused.symm
    refine ⟨h', image, ht', hvalid, ?_, ?_⟩
    · exact .of_alike ht ht' hv hvalid himage.injective himage.alike
    · have havail : h'.available = h.semispace - ∑ r ∈ nodes, h.sizeAt r.index := by
        rw [hused, Heap.available, Heap.used]
        omega
      rw [Heap.used] at hused
      rcases hcollected with ⟨e, s, hfail, -⟩ | ⟨s, hdone, hend⟩
      · rw [hcollect] at hfail
        cases hfail
      · rw [hcollect] at hdone
        cases hdone
        rcases hend with ⟨hrun, hshort⟩ | ⟨hrun, henough⟩
        · dsimp only at hrun hshort
          rw [havail] at hrun hshort
          exact .inl ⟨by omega, hrun⟩
        · dsimp only at henough
          rw [havail] at henough
          exact .inr ⟨by omega, hrun, by omega⟩

end

end Heap

/-- An allocation fails if and only if the new node does not fit beside what the roots lead to, and says how much
room there is. Otherwise it makes a node that nothing leads to. In both cases the roots lead to the same as before. -/
theorem allocate_outcome {h : Heap} (hb : Built h) {ρ : Type} [RootSet ρ] [LawfulRootSet ρ] (roots : ρ)
    (hv : ∀ r, h.Traced (RootSet.toList roots) r → h.Valid r) (kind : Kind) {size children : Nat}
    (hfits : headerSize + children ≤ size) :
    ∃ nodes : Finset Ref, (∀ r, r ∈ nodes ↔ h.Traced (RootSet.toList roots) r) ∧
      ∃ h' roots' image, roots' = RootSet.replace roots ((RootSet.toList roots).map image) ∧
        h.Relocation (RootSet.toList roots) h' (RootSet.toList roots') image ∧
        (h.semispace < ∑ r ∈ nodes, h.sizeAt r.index + size ∧
            Store.allocate kind size children ⟨h, roots⟩ =
              .error (.outOfMemory size (h.semispace - ∑ r ∈ nodes, h.sizeAt r.index)) ⟨h', roots'⟩ ∨
          ∑ r ∈ nodes, h.sizeAt r.index + size ≤ h.semispace ∧
            ∃ r, Store.allocate kind size children ⟨h, roots⟩ = .ok r ⟨h', roots'⟩ ∧
              h'.Unused (RootSet.toList roots') r kind size children) := by
  have ht := hb.tidy
  obtain ⟨nodes, hnodes⟩ := Heap.Tidy.traced_nodes hv
  obtain ⟨h', image, ht', hvalid, hrel, hend⟩ := ht.reserve_traced roots hv hnodes size
  have hlist : RootSet.toList (RootSet.replace roots ((RootSet.toList roots).map image)) =
      (RootSet.toList roots).map image := LawfulRootSet.toList_replace roots _ (List.length_map _)
  refine ⟨nodes, hnodes, ?_⟩
  rcases hend with ⟨hshort, hrun⟩ | ⟨henough, hrun, hroom⟩
  · refine ⟨h', _, image, rfl, by rwa [hlist], .inl ⟨hshort, ?_⟩⟩
    rw [Store.allocate_short hrun]
  · have hvalid' : ∀ r, h.Traced (RootSet.toList roots) r →
        (h'.blank kind size children).Valid (image r) :=
      fun r hr => (ht'.alike_blank kind hfits hroom (hvalid r hr)).1
    have hrel' : h.Relocation (RootSet.toList roots) (h'.blank kind size children)
        ((RootSet.toList roots).map image) image :=
      .of_alike ht (ht'.blank kind hfits hroom).1 hv hvalid' hrel.injective
        fun hr => (hrel.alike hr).blank ht' kind hfits hroom (hvalid _ hr)
    refine ⟨h'.blank kind size children, _, image, rfl, by rwa [hlist], .inr ⟨henough, ?_⟩⟩
    rw [Store.allocate_eq ((Nat.le_add_right _ _).trans hfits) hrun (hroom.trans ht'.halved.half_le), hlist]
    refine ⟨_, rfl, ht'.unused kind hfits hroom fun r hr => ?_⟩
    obtain ⟨source, hsource, rfl⟩ := (hrel'.onto r).mp hr
    exact hvalid source hsource

/-- The closure and the environment of the knot lead to each other and nowhere else. -/
theorem valid_of_traced_knot {r : Ref} (hr : knot.Traced [⟨9, 0⟩] r) : knot.Valid r := by
  have hepoch : knot.epoch = 0 := by decide +kernel
  have henv : knot.Valid ⟨0, 0⟩ :=
    ⟨hepoch.symm, built_knot.tidy.header_of_tag (by decide +kernel) (by decide +kernel)
      (show knot.word 0 = .tag .environment by decide +kernel)⟩
  have hclosure : knot.Valid ⟨9, 0⟩ :=
    ⟨hepoch.symm, built_knot.tidy.header_of_tag (by decide +kernel) (by decide +kernel)
      (show knot.word 9 = .tag .closure by decide +kernel)⟩
  suffices hr : r = ⟨9, 0⟩ ∨ r = ⟨0, 0⟩ by
    rcases hr with rfl | rfl
    · exact hclosure
    · exact henv
  induction hr with
  | root hmem => exact .inl (List.mem_singleton.mp hmem)
  | child _ _ hchild ih =>
    obtain ⟨k, hk, hword⟩ := hchild
    rcases ih with rfl | rfl
    · rw [show knot.childrenAt (⟨9, 0⟩ : Ref).index = 1 by decide +kernel] at hk
      obtain rfl : k = 0 := by omega
      rw [show knot.word ((⟨9, 0⟩ : Ref).index + headerSize + 0) = .ref ⟨0, 0⟩ by decide +kernel] at hword
      cases hword
      exact .inr rfl
    · rw [show knot.childrenAt (⟨0, 0⟩ : Ref).index = 2 by decide +kernel] at hk
      obtain rfl | rfl : k = 0 ∨ k = 1 := by omega
      · rw [show knot.word ((⟨0, 0⟩ : Ref).index + headerSize + 0) = .ref ⟨9, 0⟩ by decide +kernel] at hword
        cases hword
        exact .inl rfl
      · rw [show knot.word ((⟨0, 0⟩ : Ref).index + headerSize + 1) = .nil by decide +kernel] at hword
        cases hword

/-- Nothing but the knot counts: eighteen words fit beside its twelve, the box notwithstanding, and no more. -/
theorem allocate_outcome_knot :
    Built knot ∧ (∀ r, knot.Traced [⟨9, 0⟩] r → knot.Valid r) ∧
      (∃ r h' roots', Store.allocate .environment 18 15 ⟨knot, (#[⟨9, 0⟩] : Array Ref)⟩ = .ok r ⟨h', roots'⟩ ∧
        h'.Unused (RootSet.toList roots') r .environment 18 15) ∧
      ∃ h' roots', Store.allocate .environment 19 15 ⟨knot, (#[⟨9, 0⟩] : Array Ref)⟩ =
        .error (.outOfMemory 19 18) ⟨h', roots'⟩ := by
  have hv : ∀ r, knot.Traced [⟨9, 0⟩] r → knot.Valid r := fun _ => valid_of_traced_knot
  refine ⟨built_knot, hv, ?_, ?_⟩
  · obtain ⟨nodes, -, h', roots', -, -, -, ⟨-, hrun⟩ | ⟨-, r, hrun, hunused⟩⟩ :=
      allocate_outcome built_knot (#[⟨9, 0⟩] : Array Ref) hv .environment
        (show headerSize + 15 ≤ 18 by decide)
    · have hok : (Store.allocate .environment 18 15 ⟨knot, (#[⟨9, 0⟩] : Array Ref)⟩ matches .ok ..) = true := by
        decide +kernel
      rw [hrun] at hok
      cases hok
    · exact ⟨r, h', roots', hrun, hunused⟩
  · have hout : (Store.allocate .environment 19 15 ⟨knot, (#[⟨9, 0⟩] : Array Ref)⟩
        matches .error (.outOfMemory 19 18) _) = true := by
      decide +kernel
    obtain ⟨nodes, -, h', roots', -, -, -, ⟨-, hrun⟩ | ⟨-, r, hrun, -⟩⟩ :=
      allocate_outcome built_knot (#[⟨9, 0⟩] : Array Ref) hv .environment
        (show headerSize + 15 ≤ 19 by decide)
    · rw [hrun] at hout ⊢
      split at hout
      · rename_i s heq
        exact ⟨s.heap, s.roots, heq⟩
      · cases hout
    · rw [hrun] at hout
      cases hout

end ClosureMachine
