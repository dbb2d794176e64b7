import ClosureMachine.Proofs.Heap.Histories

/-!
# A collection copies what can be reached

A collection is described here from outside, without saying how it goes about it. What its roots lead to is
`Traced`, and it succeeds if and only if all of that is valid. Then there is a new reference for each traced one
(`Image`): the new references are all there are in the new heap, the nodes under them are the same as before, and
where a node referred to another one, it now refers to the image of that one.
-/

set_option autoImplicit false

namespace ClosureMachine

open Heap (headerSize)

/-- A word with another reference in it, if it has one. -/
def Word.mapRef (image : Ref → Ref) : Word → Word
  | .ref r => .ref (image r)
  | w => w

namespace Heap

/-- The references that the roots lead to. Only those that are valid lead further. -/
inductive Traced (h : Heap) (roots : List Ref) : Ref → Prop
  | root {r : Ref} (hr : r ∈ roots) : Traced h roots r
  | child {r r' : Ref} (hr : Traced h roots r) (hv : h.Valid r) (hc : h.Child r.index r') :
      Traced h roots r'

/-- The nodes under two references of two heaps are alike: same kind, size and number of children, and the
same words behind the header, but for the children, which are taken to their images. -/
structure Alike (h h' : Heap) (image : Ref → Ref) (r r' : Ref) : Prop where
  kind : ∃ kind, Heap.kind r h = .ok kind ∧ Heap.kind r' h' = .ok kind
  size : Heap.size r h = .ok (h.sizeAt r.index) ∧ Heap.size r' h' = .ok (h.sizeAt r.index)
  children : Heap.childCount r h = .ok (h.childrenAt r.index) ∧
    Heap.childCount r' h' = .ok (h.childrenAt r.index)
  words : ∀ k, headerSize ≤ k → k < h.sizeAt r.index → ∃ w, Heap.read r k h = .ok w ∧
    Heap.read r' k h' =
      .ok (if k < headerSize + h.childrenAt r.index then w.mapRef image else w)

/-- The heap `h'` holds the images of the references `R` of the heap `h`, and nothing else. -/
structure Image (h : Heap) (R : Ref → Prop) (h' : Heap) (image : Ref → Ref) : Prop where
  epoch : h'.epoch = h.epoch + 1
  injective : ∀ {r r'}, R r → R r' → image r = image r' → r = r'
  onto : ∀ r', h'.Valid r' ↔ ∃ r, R r ∧ image r = r'
  alike : ∀ {r}, R r → h.Alike h' image r (image r)
  used : ∃ nodes : Finset Ref, (∀ r, r ∈ nodes ↔ R r) ∧ h'.used = ∑ r ∈ nodes, h.sizeAt r.index
  live : h'.liveAfterCollection = h'.used
  copied : h'.wordsCopied = h.wordsCopied + h'.used

section

variable {h : Heap} {r : Ref}

/-! ## What is found under a valid reference -/

theorem Tidy.kind_valid (ht : h.Tidy) (hv : h.Valid r) {found : Kind}
    (hw : h.word r.index = .tag found) : Heap.kind r h = .ok found :=
  (ht.leads hv hw).kind_eq

theorem Tidy.size_valid (ht : h.Tidy) (hv : h.Valid r) :
    Heap.size r h = .ok (h.sizeAt r.index) := by
  obtain ⟨found, hw⟩ := (ht.node hv.2).tag
  exact (ht.leads hv hw).size_eq

theorem Tidy.childCount_valid (ht : h.Tidy) (hv : h.Valid r) :
    Heap.childCount r h = .ok (h.childrenAt r.index) := by
  obtain ⟨found, hw⟩ := (ht.node hv.2).tag
  exact (ht.leads hv hw).childCount_eq

theorem Tidy.read_valid (ht : h.Tidy) (hv : h.Valid r) {k : Nat} (hk : headerSize ≤ k)
    (hk' : k < h.sizeAt r.index) : Heap.read r k h = .ok (h.word (r.index + k)) := by
  obtain ⟨found, hw⟩ := (ht.node hv.2).tag
  exact (ht.leads hv hw).read_eq hk hk'

/-- Nodes whose words correspond are alike. -/
theorem Tidy.alike {h' : Heap} (ht : h.Tidy) (ht' : h'.Tidy) {image : Ref → Ref} {r' : Ref}
    (hv : h.Valid r) (hv' : h'.Valid r')
    (hhead : ∀ k < headerSize, h'.word (r'.index + k) = h.word (r.index + k))
    (hwords : ∀ k, headerSize ≤ k → k < h.sizeAt r.index → h'.word (r'.index + k) =
      if k < headerSize + h.childrenAt r.index then (h.word (r.index + k)).mapRef image
      else h.word (r.index + k)) : h.Alike h' image r r' := by
  have hsize : h'.sizeAt r'.index = h.sizeAt r.index := sizeAt_congr (hhead 1 (by decide))
  have hchildren : h'.childrenAt r'.index = h.childrenAt r.index :=
    childrenAt_congr (hhead 2 (by decide))
  obtain ⟨found, hfound⟩ := (ht.node hv.2).tag
  refine ⟨⟨found, ht.kind_valid hv hfound, ht'.kind_valid hv' ?_⟩, ⟨ht.size_valid hv, ?_⟩,
    ⟨ht.childCount_valid hv, ?_⟩, ?_⟩
  · rw [← hfound]
    exact hhead 0 (by decide)
  · rw [ht'.size_valid hv', hsize]
  · rw [ht'.childCount_valid hv', hchildren]
  · intro k hk hk'
    refine ⟨_, ht.read_valid hv hk hk', ?_⟩
    rw [ht'.read_valid hv' hk (by rw [hsize]; exact hk'), hwords k hk hk']

end

/-! ## The outcome -/

section

variable {h₀ h : Heap} {roots : List Ref} {order : List Nat}

/-- The nodes that the roots lead to. -/
def TracedNode (h : Heap) (roots : List Ref) (i : Nat) : Prop :=
  h.Header i ∧ h.Traced roots ⟨i, h.epoch⟩

theorem Traced.node {r : Ref} (hr : h.Traced roots r) (hv : h.Valid r) : h.TracedNode roots r.index := by
  obtain ⟨index, epoch⟩ := r
  obtain ⟨rfl, hi⟩ := hv
  exact ⟨hi, hr⟩

theorem Tidy.traceable_traced (ht : h.Tidy) (roots : List Ref) :
    h.Traceable (h.TracedNode roots) := by
  refine ht.traceable (fun _ hi => hi.1) ?_
  intro i r hi hr hv
  exact (Traced.child hi.2 ⟨rfl, hi.1⟩ hr).node hv

/-- All that was traced has been moved, if the roots were and the collection came to its end. -/
theorem Copying.into_of_traced {nodes : Nat → Prop} (hcp : Copying h₀ nodes h order h.free)
    (hc : h₀.Laid nodes) (hroots : ∀ r ∈ roots, h₀.Into (· ∈ order) r) {r : Ref}
    (hr : h₀.Traced roots r) : h₀.Into (· ∈ order) r := by
  induction hr with
  | root hmem => exact hroots _ hmem
  | child _ _ hchild ih => exact hcp.child hc ih.2 hchild

theorem relocated_eq {i k : Nat} (hk : headerSize ≤ k) :
    h₀.relocated order i k =
      if k < headerSize + h₀.childrenAt i then
        (h₀.word (i + k)).mapRef fun r => h₀.newRef order r.index
      else h₀.word (i + k) := by
  unfold relocated
  by_cases hlt : k < headerSize + h₀.childrenAt i
  · rw [if_pos ⟨hk, hlt⟩, if_pos hlt]
    cases h₀.word (i + k) <;> rfl
  · rw [if_neg (fun hin => hlt hin.2), if_neg hlt]

/-- The room that the moved nodes take is that of what was traced. -/
theorem Copying.used_settle {nodes : Nat → Prop} {cursor : Nat}
    (hcp : Copying h₀ nodes h order cursor) :
    (h.settle h₀.fromSpace).used =
      ∑ r ∈ order.toFinset.image (fun i => (⟨i, h₀.epoch⟩ : Ref)), h₀.sizeAt r.index := by
  rw [Finset.sum_image]
  · rw [← total_eq_sum hcp.nodup, Heap.used]
    simp [hcp.free, hcp.base]
  · intro i _ j _ heq
    exact congrArg Ref.index heq

/-- A collection that comes to its end has made an image of what was traced. -/
theorem Copying.image (hcp : Copying h₀ (h₀.TracedNode roots) h order h.free) (ht : h₀.Tidy)
    (hroots : ∀ r ∈ roots, h₀.Into (· ∈ order) r) :
    h₀.Image (h₀.Traced roots) (h.settle h₀.fromSpace) fun r => h₀.newRef order r.index := by
  have hc := (ht.traceable_traced roots).toLaid
  have hsub : ∀ i, h₀.TracedNode roots i → h₀.Header i := fun _ hi => hi.1
  have hmoved : ∀ {r}, h₀.Traced roots r → h₀.Into (· ∈ order) r :=
    fun hr => hcp.into_of_traced hc hroots hr
  have htraced : ∀ {i}, i ∈ order → h₀.Traced roots ⟨i, h₀.epoch⟩ := fun hi => (hcp.among _ hi).2
  obtain ⟨htidy, hheader⟩ := hcp.tidy_settle ht hsub
  have hepoch : (h.settle h₀.fromSpace).epoch = h₀.epoch + 1 := by
    simp [hcp.epoch, flip]
  have hvalid : ∀ {i}, i ∈ order → (h.settle h₀.fromSpace).Valid (h₀.newRef order i) := by
    intro i hi
    refine ⟨hepoch.symm, (hheader _).mpr ?_⟩
    exact (hcp.header_iff hc).mpr ⟨i, hi, rfl⟩
  refine ⟨hepoch, ?_, ?_, ?_, ⟨_, ?_, hcp.used_settle⟩, ?_, ?_⟩
  · intro r r' hr hr' heq
    obtain ⟨index, epoch⟩ := r
    obtain ⟨index', epoch'⟩ := r'
    obtain ⟨rfl, hi⟩ := hmoved hr
    obtain ⟨rfl, hi'⟩ := hmoved hr'
    have hpos := ht.size_pos (hsub _ (hcp.among _ hi))
    have hpos' := ht.size_pos (hsub _ (hcp.among _ hi'))
    obtain ⟨rfl, -⟩ := newRef_unique hi hi' hpos hpos' (congrArg Ref.index heq)
    rfl
  · intro r'
    constructor
    · intro hv
      obtain ⟨index', epoch'⟩ := r'
      obtain ⟨hep, hi'⟩ := hv
      obtain ⟨i, hi, rfl⟩ := (hcp.header_iff hc).mp ((hheader _).mp hi')
      refine ⟨_, htraced hi, ?_⟩
      obtain rfl : epoch' = h₀.epoch + 1 := hep.trans hepoch
      rfl
    · rintro ⟨r, hr, rfl⟩
      exact hvalid (hmoved hr).2
  · intro r hr
    obtain ⟨hep, hi⟩ := hmoved hr
    have hheader := hsub _ (hcp.among _ hi)
    refine ht.alike htidy ⟨hep, hheader⟩ (hvalid hi) ?_ ?_
    · intro k hk
      have hpos := (ht.node hheader).size_pos
      rw [hcp.word_settled ht.halved hc hi (by omega), relocated, if_neg (by omega)]
    · intro k hk hk'
      rw [hcp.word_settled ht.halved hc hi hk', relocated_eq hk]
  · intro r
    rw [Finset.mem_image]
    constructor
    · rintro ⟨i, hi, rfl⟩
      exact htraced (List.mem_toFinset.mp hi)
    · intro hr
      obtain ⟨hep, hi⟩ := hmoved hr
      exact ⟨r.index, List.mem_toFinset.mpr hi, by rw [← hep]⟩
  · simp [liveAfterCollection, Heap.used]
  · simp [wordsCopied, hcp.collections, Heap.used]

end

end Heap

/-- A collection succeeds if and only if all that its roots lead to is valid, and then makes an image of it,
in which the roots are replaced by their images. -/
theorem collect_faithful {h : Heap} (hb : Built h) {ρ : Type} [RootSet ρ] [LawfulRootSet ρ] (roots : ρ) :
    ((∃ s, Store.collect ⟨h, roots⟩ = .ok () s) ↔
        ∀ r, h.Traced (RootSet.toList roots) r → h.Valid r) ∧
      ((¬ ∀ r, h.Traced (RootSet.toList roots) r → h.Valid r) →
        ∃ r s, h.Traced (RootSet.toList roots) r ∧ ¬ h.Valid r ∧
          Store.collect ⟨h, roots⟩ = .error (.staleReference r.index) s) ∧
      ∀ s, Store.collect ⟨h, roots⟩ = .ok () s →
        ∃ image, h.Image (h.Traced (RootSet.toList roots)) s.heap image ∧
          RootSet.toList s.roots = (RootSet.toList roots).map image ∧
          s.roots = RootSet.replace roots ((RootSet.toList roots).map image) := by
  have ht := hb.tidy
  have hsub : ∀ i, h.TracedNode (RootSet.toList roots) i → h.Header i := fun _ hi => hi.1
  have hc := ht.traceable_traced (RootSet.toList roots)
  have hroots : ∀ r ∈ RootSet.toList roots, h.Into (h.TracedNode (RootSet.toList roots)) r ∨
      h.Rejected (h.TracedNode (RootSet.toList roots)) r := by
    intro r hr
    by_cases hv : h.Valid r
    · exact .inl ⟨hv.1, (Heap.Traced.root hr).node hv⟩
    · exact .inr (ht.rejected hsub hv)
  rcases Store.collect_cases ht.halved hc roots hroots with
    ⟨h', order, hrun, hcp, hmoved⟩ | ⟨e, s, hrun, -, r, hfrom, hrejected, rfl⟩
  · have hall : ∀ r, h.Traced (RootSet.toList roots) r → h.Valid r := by
      intro r hr
      obtain ⟨hep, hi⟩ := hcp.into_of_traced hc.toLaid hmoved hr
      exact ⟨hep, hsub _ (hcp.among _ hi)⟩
    refine ⟨⟨fun _ => hall, fun _ => ⟨_, hrun⟩⟩, fun hnot => absurd hall hnot, ?_⟩
    intro s hs
    rw [hrun] at hs
    cases hs
    refine ⟨_, hcp.image ht hmoved, ?_, rfl⟩
    exact LawfulRootSet.toList_replace roots _ (List.length_map _)
  · -- the reference that was met leads nowhere, although it was traced
    have htraced : h.Traced (RootSet.toList roots) r := by
      rcases hfrom with hroot | ⟨i, hi, hchild⟩
      · exact .root hroot
      · exact .child hi.2 ⟨rfl, hi.1⟩ hchild
    have hnot : ¬ h.Valid r := fun hv => hrejected.1 ⟨hv.1, htraced.node hv⟩
    refine ⟨⟨?_, fun hall => absurd (hall r htraced) hnot⟩, fun _ => ⟨r, s, htraced, hnot, hrun⟩, ?_⟩
    · rintro ⟨s', hs⟩
      rw [hrun] at hs
      cases hs
    · intro s' hs
      rw [hrun] at hs
      cases hs

/-- The heap after an operation without roots. -/
def Heap.operated {α : Type} (act : StoreM Unit α) (h : Heap) : Heap := (Actions.after act ⟨h, ()⟩).heap

/-- A closure in an environment that has the closure in its slot, and a box that nothing refers to. -/
def knot : Heap :=
  Heap.ofCapacity 60
    |>.operated (Environment.new 1)
    |>.operated (Boxed.new .null)
    |>.operated (Closure.new 2 7 4)
    |>.operated (liftM (Closure.setEnv ⟨9, 0⟩ ⟨0, 0⟩))
    |>.operated (liftM (Environment.setSlot ⟨0, 0⟩ 0 ⟨9, 0⟩))

theorem built_knot : Built knot := by
  apply Built.operate (.setSlot ⟨0, 0⟩ 0 ⟨9, 0⟩)
  apply Built.operate (.setClosureEnv ⟨9, 0⟩ ⟨0, 0⟩)
  apply Built.operate (.closure 2 7 4)
  apply Built.operate (.boxed .null)
  apply Built.operate (.environment 1)
  exact .empty 60

theorem collect_faithful_knot :
    Built knot ∧
      (∃ s, Store.collect ⟨knot, (#[⟨9, 0⟩, ⟨9, 0⟩] : Array Ref)⟩ = .ok () s ∧
        ∃ image, knot.Image (knot.Traced [⟨9, 0⟩, ⟨9, 0⟩]) s.heap image ∧
          s.roots = #[image ⟨9, 0⟩, image ⟨9, 0⟩]) ∧
      ∃ r s, knot.Traced [⟨0, 0⟩, ⟨9, 5⟩] r ∧ ¬ knot.Valid r ∧
        Store.collect ⟨knot, Registers.start ⟨0, 0⟩ ⟨9, 5⟩⟩ = .error (.staleReference r.index) s := by
  refine ⟨built_knot, ?_, ?_⟩
  · have hok : (Store.collect ⟨knot, (#[⟨9, 0⟩, ⟨9, 0⟩] : Array Ref)⟩ matches .ok ..) = true := by
      decide +kernel
    split at hok
    · rename_i s hrun
      obtain ⟨-, -, himage⟩ := collect_faithful built_knot (#[⟨9, 0⟩, ⟨9, 0⟩] : Array Ref)
      obtain ⟨image, hi, -, hroots⟩ := himage s hrun
      exact ⟨s, hrun, image, hi, hroots⟩
    · cases hok
  · obtain ⟨-, hstale, -⟩ := collect_faithful built_knot (Registers.start ⟨0, 0⟩ ⟨9, 5⟩)
    refine hstale fun hall => ?_
    have hv := hall ⟨9, 5⟩ (.root (by decide))
    have hepoch : knot.epoch = 0 := by decide +kernel
    rw [Heap.Valid, Heap.Into, hepoch] at hv
    exact absurd hv.1 (by decide)

end ClosureMachine
