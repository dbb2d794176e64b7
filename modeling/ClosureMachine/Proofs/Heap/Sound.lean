import ClosureMachine.Proofs.Heap.Allocation

/-!
# Heaps without stray references

A reference from before a collection leads nowhere, but a setter would take it. Here setters are given valid
references only. Then all references that the nodes hold are valid and stay so: a heap of this sort is `Sound`, and
the setters, the constructors and the collections leave it sound. What is rooted in it can always be collected, and
a new node can be made with nothing lost but what was given up.

A setter changes one node and no other (`SameBut`).
-/

set_option autoImplicit false

namespace ClosureMachine

open Heap (headerSize)
open ClosureMachine.Ideal

/-- The setters, each with the node that it writes to and the references that it brings. -/
inductive Setter : {α : Type} → (target : Ref) → (values : List Ref) → HeapM α → Prop
  | slot (env : Ref) (slot : Nat) (value : Ref) : Setter env [value] (Environment.setSlot env slot value)
  | enclosing (env outer : Ref) : Setter env [outer] (Environment.setEnclosing env outer)
  | closureEnv (closure env : Ref) : Setter closure [env] (Closure.setEnv closure env)
  | frameEnv (frame env : Ref) : Setter frame [env] (Frame.setEnv frame env)
  | frameStack (frame stack : Ref) : Setter frame [stack] (CallFrame.setStack frame stack)
  | push (stack value : Ref) : Setter stack [value] (OperandStack.push stack value)
  | pop (stack : Ref) : Setter stack [] (OperandStack.pop stack)

theorem Setter.writes {α : Type} {target : Ref} {values : List Ref} {act : HeapM α}
    (hset : Setter target values act) : Heap.Writes target values act := by
  cases hset with
  | slot _ slot value => exact Heap.writes_setSlot _ slot value
  | enclosing _ outer => exact Heap.writes_setEnclosing _ outer
  | closureEnv _ env => exact Heap.writes_setClosureEnv _ env
  | frameEnv _ env => exact Heap.writes_setFrameEnv _ env
  | frameStack _ stack => exact Heap.writes_setFrameStack _ stack
  | push _ value => exact Heap.writes_push _ value
  | pop _ => exact Heap.writes_pop _

/-- The ways to make a node. -/
inductive Constructor (ρ : Type) [RootSet ρ] : StoreM ρ Ref → Prop
  | environment (slots : Nat) : Constructor ρ (Environment.new slots)
  | closure (arity entry stack : Nat) : Constructor ρ (Closure.new arity entry stack)
  | primitive (id : Nat) : Constructor ρ (PrimitiveFunction.new id)
  | callFrame (returnAddress : Nat) : Constructor ρ (CallFrame.new returnAddress)
  | blockFrame : Constructor ρ BlockFrame.new
  | operandStack (capacity : Nat) : Constructor ρ (OperandStack.new capacity)
  | boxed (value : Datum) : Constructor ρ (Boxed.new value)

theorem Constructor.builds {ρ : Type} [RootSet ρ] {make : StoreM ρ Ref} (hmake : Constructor ρ make) :
    ∃ texts n, Builds texts make n := by
  cases hmake with
  | environment slots => exact ⟨.empty, _, builds_environment slots⟩
  | closure arity entry stack => exact ⟨.empty, _, builds_closure arity entry stack⟩
  | primitive id => exact ⟨.empty, _, builds_primitive id⟩
  | callFrame address => exact ⟨.empty, _, builds_callFrame address⟩
  | blockFrame => exact ⟨.empty, _, builds_blockFrame⟩
  | operandStack capacity => exact ⟨.empty, _, builds_operandStack capacity⟩
  | boxed value =>
    obtain ⟨texts, x, hmeans⟩ := exists_means value
    exact ⟨texts, _, builds_boxed hmeans⟩

/-- What the roots lead to in one store is what they lead to in the other. -/
def Store.Relocates {ρ : Type} [RootSet ρ] (s s' : Store ρ) (image : Ref → Ref) : Prop :=
  s.heap.Relocation (RootSet.toList s.roots) s'.heap (RootSet.toList s'.roots) image

namespace Heap

/-- A tidy heap in which nodes refer to nodes. -/
structure Sound (h : Heap) : Prop extends Tidy h where
  child : ∀ {i r}, h.Header i → h.Child i r → h.Valid r

/-- `h'` is `h`, but for words behind the header of one node. -/
structure SameBut (target : Ref) (h h' : Heap) : Prop where
  valid_iff : ∀ {r}, h'.Valid r ↔ h.Valid r
  words : ∀ {r}, h.Valid r → r ≠ target → ∀ k < h.sizeAt r.index, h'.word (r.index + k) = h.word (r.index + k)

section

variable {h h' h'' : Heap} {r target : Ref} {values : List Ref}

theorem sound_ofCapacity (capacity : Nat) : (Heap.ofCapacity capacity).Sound where
  toTidy := tidy_ofCapacity capacity
  child := fun hi => absurd hi.lt_free (Nat.not_lt_zero _)

theorem Sound.traced (hs : h.Sound) {roots : List Ref} (hroots : ∀ r ∈ roots, h.Valid r)
    (hr : h.Traced roots r) : h.Valid r := by
  cases hr with
  | root hmem => exact hroots _ hmem
  | child _ hv hchild => exact hs.child hv.2 hchild

/-! ## Setters -/

theorem SameBut.refl (target : Ref) (h : Heap) : SameBut target h h :=
  ⟨Iff.rfl, fun _ _ _ _ => rfl⟩

theorem SameBut.trans (hb : SameBut target h h') (hb' : SameBut target h' h'') (ht : h.Tidy) :
    SameBut target h h'' := by
  refine ⟨hb'.valid_iff.trans hb.valid_iff, fun {r} hv hne k hk => ?_⟩
  have hpos := (ht.node hv.2).size_pos
  unfold headerSize at hpos
  have hsize : h'.sizeAt r.index = h.sizeAt r.index := sizeAt_congr (hb.words hv hne 1 (by omega))
  rw [hb'.words (hb.valid_iff.mpr hv) hne k (by omega), hb.words hv hne k hk]

section

variable {offset : Nat} {w : Word}

theorem Tidy.sameBut_setWord (ht : h.Tidy) (hok : checkOffset target offset h = .ok ()) (hw : w.Plain) :
    SameBut target h (h.setWord (target.index + offset) w) := by
  obtain ⟨hv, hlow, hup⟩ := ht.of_checkOffset hok
  refine ⟨and_congr_right fun _ => (ht.setWord hv.2 hlow hup hw).2 _, fun {r} hr hne k hk => ?_⟩
  have happart := ht.laid.apart hr.2 hv.2 fun heq => hne (hr.eq_of_index hv heq)
  exact word_setWord_ne _ _ (by omega)

/-- A child of a node after a write was one before, or has just been written. -/
theorem Sound.setWord (hs : h.Sound) (hok : checkOffset target offset h = .ok ()) (hw : w.Among values)
    (hvalues : ∀ v ∈ values, h.Valid v) : (h.setWord (target.index + offset) w).Sound := by
  obtain ⟨hv, hlow, hup⟩ := hs.of_checkOffset hok
  obtain ⟨htidy, hheader⟩ := hs.toTidy.setWord hv.2 hlow hup hw.plain
  refine ⟨htidy, fun {i r} hi hchild => (hs.sameBut_setWord hok hw.plain).valid_iff.mpr ?_⟩
  have hi' := (hheader i).mp hi
  have hchildren : (h.setWord (target.index + offset) w).childrenAt i = h.childrenAt i :=
    childrenAt_congr (word_setWord_ne _ _ (hs.header_ne hv.2 hlow hup hi' (by decide)))
  obtain ⟨k, hk, hword⟩ := hchild
  rw [hchildren] at hk
  by_cases heq : i + headerSize + k = target.index + offset
  · have hin : target.index + offset < h.words.size := by
      have hupper := (hs.node hv.2).upper
      have hfree := hs.halved.free_le
      have hhalf := hs.halved.half_le
      omega
    rw [heq, word_setWord_self _ _ _ hin] at hword
    subst hword
    exact hvalues r hw
  · rw [word_setWord_ne _ _ heq] at hword
    exact hs.child hi' ⟨k, hk, hword⟩

end

theorem Written.sound (hw : Written target values h h') (hs : h.Sound)
    (hvalues : ∀ v ∈ values, h.Valid v) : h'.Sound ∧ SameBut target h h' := by
  induction hw with
  | start => exact ⟨hs, .refl target h⟩
  | write _ hok ha ih =>
    obtain ⟨hs', hb⟩ := ih
    exact ⟨hs'.setWord hok ha fun v hv => hb.valid_iff.mpr (hvalues v hv),
      hb.trans (hs'.sameBut_setWord hok ha.plain) hs.toTidy⟩

end

/-! ## Room -/

section

variable {h : Heap} {ρ : Type} [RootSet ρ]

/-- A collection of valid roots succeeds. What a node of the new heap refers to is the image of what its original
referred to. -/
theorem Sound.collect (hs : h.Sound) (roots : ρ) (hroots : ∀ r ∈ RootSet.toList roots, h.Valid r) :
    ∃ h' image, Store.collect ⟨h, roots⟩ =
        .ok () ⟨h', RootSet.replace roots ((RootSet.toList roots).map image)⟩ ∧ h'.Sound ∧
      h.Image (h.Traced (RootSet.toList roots)) h' image ∧
      h.Relocation (RootSet.toList roots) h' ((RootSet.toList roots).map image) image := by
  have hv : ∀ r, h.Traced (RootSet.toList roots) r → h.Valid r := fun _ hr => hs.traced hroots hr
  obtain ⟨h', image, hrun, himage, ht', -⟩ := hs.collect_traced roots hv
  have hv' : ∀ r, h.Traced (RootSet.toList roots) r → h'.Valid (image r) :=
    fun r hr => (himage.onto _).mpr ⟨r, hr, rfl⟩
  refine ⟨h', image, hrun, ⟨ht', fun {i r'} hi hchild => ?_⟩, himage,
    .of_alike hs.toTidy ht' hv hv' himage.injective himage.alike⟩
  -- the node at `i` is a copy, so its child is the image of a child of the original
  obtain ⟨r, hr, hindex⟩ := (himage.onto ⟨i, h'.epoch⟩).mp ⟨rfl, hi⟩
  have hat : (image r).index = i := congrArg Ref.index hindex
  obtain ⟨source, hsource, rfl⟩ :=
    ((himage.alike hr).child_iff hs.toTidy ht' (hv r hr) (hv' r hr) r').mp (hat.symm ▸ hchild)
  exact hv' source (.child hr (hv r hr) hsource)

variable [LawfulRootSet ρ]

theorem Sound.reserve (hs : h.Sound) (roots : ρ) (hroots : ∀ r ∈ RootSet.toList roots, h.Valid r)
    (size : Nat) :
    ∃ h' image, h'.Sound ∧
      h.Relocation (RootSet.toList roots) h' ((RootSet.toList roots).map image) image ∧
      ((∃ e, Store.reserve size ⟨h, roots⟩ =
          .error e ⟨h', RootSet.replace roots ((RootSet.toList roots).map image)⟩) ∨
        Store.reserve size ⟨h, roots⟩ =
          .ok () ⟨h', RootSet.replace roots ((RootSet.toList roots).map image)⟩ ∧
        h'.free + size ≤ h'.base + h'.semispace) := by
  have hv : ∀ r, h.Traced (RootSet.toList roots) r → h.Valid r := fun _ hr => hs.traced hroots hr
  obtain ⟨nodes, hnodes⟩ := Tidy.traced_nodes hv
  obtain ⟨h', image, -, -, hrel, hend⟩ := hs.reserve_traced roots hv hnodes size
  have hcollect : (Actions.after Store.collect ⟨h, roots⟩).heap.Sound := by
    obtain ⟨h₁, image₁, hrun, hs₁, -⟩ := hs.collect roots hroots
    rw [Actions.after, hrun]
    exact hs₁
  have hsound := Store.reserve_keeps (fun hs => hs.halved) hs hcollect size
  rcases hend with ⟨-, hrun⟩ | ⟨-, hrun, hroom⟩ <;> rw [hrun] at hsound
  · exact ⟨h', image, hsound, hrel, .inl ⟨_, hrun⟩⟩
  · exact ⟨h', image, hsound.1, hrel, .inr ⟨hrun, hroom⟩⟩

end

end Heap

/-! ## New nodes -/

/-- In a world without places no cell shows a reference. -/
theorem World.Shows.not_ref {texts : StringTable} {c : Node.Cell} {v : Word}
    (hs : World.Shows ⟨fun _ => none, texts⟩ c v) (r : Ref) : v ≠ .ref r := by
  rintro rfl
  cases c with
  | ref l =>
    obtain ⟨r', hplace, -⟩ := hs
    cases hplace
  | literal x =>
    obtain ⟨d, hword, -⟩ := hs
    cases hword
  | count n => cases hs
  | nil => cases hs
  | unassigned => cases hs
  | empty => cases hs

section

variable {texts : StringTable} {h h' : Heap} {n : Node}

theorem Adds.extended (ha : Adds texts h h' n) : h.Extended h' :=
  ⟨ha.base, by rw [ha.free]; exact Nat.le_add_right _ _, ha.epoch, ha.below⟩

theorem Adds.sound (ha : Adds texts h h' n) (hs : h.Sound) (hroom : h.free + n.size ≤ h.base + h.semispace) :
    h'.Sound := by
  have hsize : h'.sizeAt h.free = n.size := by rw [Heap.sizeAt, ha.size]
  have hchildren : h'.childrenAt h.free = n.children := by rw [Heap.childrenAt, ha.children]
  have ht' := ha.tidy hs.toTidy hroom
  refine ⟨ht', fun {i r} hi hchild => ?_⟩
  obtain ⟨k, hk, hword⟩ := hchild
  rcases hi.of_append hs.toTidy ha.base ha.free ha.below hsize with hold | rfl
  · have hn := hs.node hold
    have hup := hn.upper
    have hfits := hn.fits
    have hcount : h'.childrenAt i = h.childrenAt i :=
      Heap.childrenAt_congr (ha.below _ (by have := hn.size_pos; unfold headerSize at this; omega))
    rw [ha.below _ (by omega)] at hword
    exact (ha.extended.alike hs.toTidy ht' (hs.child hold ⟨k, by omega, hword⟩)).1
  · -- the new node has not been linked to any other
    have hlt : k < n.cells.length := Nat.lt_of_lt_of_le (hchildren ▸ hk) n.children_le_cells
    exact absurd hword ((ha.cells (List.getElem?_eq_getElem hlt)).not_ref r)

variable {ρ : Type} [RootSet ρ] [LawfulRootSet ρ] {make : StoreM ρ Ref}

/-- A constructor makes room and then the node, if there is enough. Where there never can be, nothing is done. -/
theorem Builds.outcome (hb : Builds texts make n) (hs : h.Sound) (roots : ρ)
    (hroots : ∀ r ∈ RootSet.toList roots, h.Valid r) :
    ∃ h₁ roots' image, h₁.Sound ∧ Store.Relocates ⟨h, roots⟩ ⟨h₁, roots'⟩ image ∧
      ((∃ e, make ⟨h, roots⟩ = .error e ⟨h₁, roots'⟩) ∨
        ∃ h', make ⟨h, roots⟩ = .ok ⟨h₁.free, h₁.epoch⟩ ⟨h', roots'⟩ ∧ Adds texts h₁ h' n ∧ h'.Sound) := by
  have hmake := hb ⟨h, roots⟩
  split at hmake
  · refine ⟨h, roots, id, hs, ?_, .inl ⟨_, hmake⟩⟩
    have hrel := Heap.Relocation.refl hs.toTidy fun _ hr => hs.traced hroots hr
    rwa [List.map_id] at hrel
  obtain ⟨h₁, image, hs₁, hrel, hend⟩ := hs.reserve roots hroots n.size
  have hlist : RootSet.toList (RootSet.replace roots ((RootSet.toList roots).map image)) =
      (RootSet.toList roots).map image := LawfulRootSet.toList_replace roots _ (List.length_map _)
  refine ⟨h₁, _, image, hs₁, hlist.symm ▸ hrel, ?_⟩
  rcases hend with ⟨e, hrun⟩ | ⟨hrun, hroom⟩
  · rw [hrun] at hmake
    exact .inl ⟨e, hmake⟩
  · rw [hrun] at hmake
    obtain ⟨h', hmade, ha⟩ := hmake hs₁.halved.base_le (hroom.trans hs₁.halved.half_le)
    exact .inr ⟨h', hmade, ha, ha.sound hs₁ hroom⟩

/-- What is rooted is the same graph after a constructor, whether it succeeds or not. -/
theorem Builds.relocates (hb : Builds texts make n) (hs : h.Sound) (roots : ρ)
    (hroots : ∀ r ∈ RootSet.toList roots, h.Valid r) :
    (Actions.after make ⟨h, roots⟩).heap.Sound ∧
      ∃ image, Store.Relocates ⟨h, roots⟩ (Actions.after make ⟨h, roots⟩) image := by
  obtain ⟨h₁, roots', image, hs₁, hrel, ⟨e, hrun⟩ | ⟨h', hrun, ha, hs'⟩⟩ := hb.outcome hs roots hroots
  · rw [Actions.after, hrun]
    exact ⟨hs₁, image, hrel⟩
  · have hvalid : ∀ {r}, h.Traced (RootSet.toList roots) r → h₁.Valid (image r) :=
      fun hr => (hrel.alike hr).valid hs₁.toTidy
    rw [Actions.after, hrun]
    refine ⟨hs', image, ?_⟩
    rw [Store.Relocates, hrel.replaced]
    exact .of_alike hs.toTidy hs'.toTidy (fun _ hr => hs.traced hroots hr)
      (fun r hr => (ha.extended.alike hs₁.toTidy hs'.toTidy (hvalid hr)).1) hrel.injective
      fun hr => (hrel.alike hr).extended hs₁.toTidy hs'.toTidy ha.extended (hvalid hr)

end

end ClosureMachine
