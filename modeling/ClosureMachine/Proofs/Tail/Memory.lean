import ClosureMachine.Proofs.Ideal.Costs
import ClosureMachine.Proofs.Tail.Tandem

/-!
# Tail calls cost nothing

Everything that is within reach of the machine with tail calls has its image within reach of the plain one, and
images are as large as what they are images of. So whatever room the plain machine can do with, the other
one can do with as well (`Tracks.affords`).
-/

set_option autoImplicit false

namespace ClosureMachine.Ideal

variable {plain program : Program} {w saved : List Loc}

/-! ## Words and references of a node and its image -/

/-- Where the one cell refers to a node, the other one refers to its image. -/
def SameCell (w : List Loc) (x x' : Node.Cell) : Prop :=
  ∀ l', x' = .ref l' → ∃ l, x = .ref l ∧ Image w l l'

theorem sameCell_ref {l l' : Loc} (h : Image w l l') : SameCell w (.ref l) (.ref l') := by
  rintro _ ⟨⟩
  exact ⟨l, rfl, h⟩

theorem sameCell_slot {o o' : Option Loc} (h : Option.Rel (Image w) o o') :
    SameCell w (Node.slotCell o) (Node.slotCell o') := by
  cases h with
  | none => rintro _ ⟨⟩
  | some him => exact sameCell_ref him

theorem sameCell_link {o o' : Option Loc} (h : Option.Rel (Image w) o o') :
    SameCell w (Node.linkCell o) (Node.linkCell o') := by
  cases h with
  | none => rintro _ ⟨⟩
  | some him => exact sameCell_ref him

theorem sameCell_count (k k' : Nat) : SameCell w (.count k) (.count k') := by
  rintro _ ⟨⟩

theorem SameNode.cells {n n' : Node} (h : SameNode plain program w n n') :
    List.Forall₂ (SameCell w) n.cells n'.cells := by
  cases h with
  | environment hslots houter =>
    refine List.rel_append ?_ (.cons (sameCell_link houter) .nil)
    rw [List.forall₂_map_left_iff, List.forall₂_map_right_iff]
    exact hslots.imp fun _ _ hslot => sameCell_slot hslot
  | closure arity stack henv hentry =>
    exact .cons (sameCell_link henv) (.cons (sameCell_count _ _) (.cons (sameCell_count _ _)
      (.cons (sameCell_count _ _) .nil)))
  | primitive id => exact .cons (sameCell_count _ _) .nil
  | callFrame henv hstack haddress =>
    exact .cons (sameCell_link henv) (.cons (sameCell_link hstack) (.cons (sameCell_count _ _) .nil))
  | blockFrame henv => exact .cons (sameCell_link henv) .nil
  | operandStack free hoperands =>
    refine List.rel_append (List.rel_append ?_ ?_) (.cons (sameCell_count _ _) .nil)
    · rw [List.forall₂_map_left_iff, List.forall₂_map_right_iff, List.forall₂_reverse_iff]
      exact hoperands.imp fun _ _ him => sameCell_ref him
    · refine List.forall₂_same.mpr fun x hx => ?_
      rw [List.eq_of_mem_replicate hx]
      rintro _ ⟨⟩
  | boxed value =>
    refine .cons ?_ .nil
    rintro _ ⟨⟩

theorem SameNode.size {n n' : Node} (h : SameNode plain program w n n') : n.size = n'.size := by
  rw [Node.size, Node.size, h.cells.length_eq]

theorem SameNode.refs {n n' : Node} (h : SameNode plain program w n n') {l' : Loc} (hl : l' ∈ n'.refs) :
    ∃ l ∈ n.refs, Image w l l' := by
  obtain ⟨k, hk⟩ := List.mem_iff_getElem?.mp (Node.mem_refs.mp hl)
  obtain ⟨hlt', hk⟩ := List.getElem?_eq_some_iff.mp hk
  have hlt : k < n.cells.length := h.cells.length_eq ▸ hlt'
  obtain ⟨l, hcell, him⟩ := h.cells.get hlt hlt' l' hk
  exact ⟨l, Node.mem_refs.mpr (hcell ▸ List.getElem_mem hlt), him⟩

/-! ## What is within reach -/

section

variable {nodes nodes' : List Node} {roots roots' : List Loc}

theorem SameNodes.reaches (h : SameNodes plain program w nodes nodes')
    (hroots : ∀ l' ∈ roots', ∃ l ∈ roots, Image w l l') {l' : Loc} (hreach : Reaches nodes' roots' l') :
    ∃ l, Image w l l' ∧ Reaches nodes roots l := by
  induction hreach with
  | root hl =>
    obtain ⟨l, hmem, him⟩ := hroots _ hl
    exact ⟨l, him, .root hmem⟩
  | child _ hn hc ih =>
    obtain ⟨l, him, hreach⟩ := ih
    obtain ⟨n, hn, hsame⟩ := h.node him hn
    obtain ⟨k, hmem, himk⟩ := hsame.refs hc
    exact ⟨k, himk, .child hreach hn hmem⟩

/-- The plain machine has at least as much within reach. -/
theorem SameNodes.live_le (h : SameNodes plain program w nodes nodes')
    (hroots : ∀ l' ∈ roots', ∃ l ∈ roots, Image w l l') : live nodes' roots' ≤ live nodes roots := by
  classical
  let image : Loc → Loc := fun l' => w.getD l' 0
  let within' := (Finset.range nodes'.length).filter (Reaches nodes' roots')
  have himage : ∀ l' ∈ within', ∃ l, image l' = l ∧ Image w l l' ∧ Reaches nodes roots l := by
    intro l' hl'
    obtain ⟨l, him, hreach⟩ := h.reaches hroots (Finset.mem_filter.mp hl').2
    refine ⟨l, ?_, him, hreach⟩
    rw [show image l' = w.getD l' 0 from rfl, List.getD_eq_getElem?_getD, show w[l']? = some l from him,
      Option.getD_some]
  have hinj : Set.InjOn image within' := by
    intro k' hk' l' hl' heq
    obtain ⟨k, hk, himk, -⟩ := himage k' hk'
    obtain ⟨l, hl, himl, -⟩ := himage l' hl'
    exact (h.image_iff himk himl).mp (hk.symm.trans (heq.trans hl))
  have hwords : ∀ l' ∈ within', wordsOf nodes' l' = wordsOf nodes (image l') := by
    intro l' hl'
    obtain ⟨l, hl, him, -⟩ := himage l' hl'
    obtain ⟨n', hn'⟩ : ∃ n', nodes'[l']? = some n' := ⟨_, List.getElem?_eq_getElem (h.lt him).2⟩
    obtain ⟨n, hn, hsame⟩ := h.node him hn'
    rw [hl, wordsOf_eq hn, wordsOf_eq hn', hsame.size]
  have hsubset : within'.image image ⊆ (Finset.range nodes.length).filter (Reaches nodes roots) := by
    intro k hk
    obtain ⟨l', hl', rfl⟩ := Finset.mem_image.mp hk
    obtain ⟨l, hl, him, hreach⟩ := himage l' hl'
    rw [hl]
    exact Finset.mem_filter.mpr ⟨Finset.mem_range.mpr (h.lt him).1, hreach⟩
  calc live nodes' roots'
      = ∑ l' ∈ within', wordsOf nodes (image l') := Finset.sum_congr rfl hwords
    _ = ∑ l ∈ within'.image image, wordsOf nodes l := (Finset.sum_image hinj).symm
    _ ≤ live nodes roots := Finset.sum_le_sum_of_subset hsubset

end

/-! ## What moves need -/

section

variable {c c' d' : Core}

theorem Tracks.roots (h : Tracks plain program w saved c c') :
    ∀ l' ∈ c'.roots, ∃ l ∈ c.roots, Image w l l' := by
  intro l' hl'
  simp only [Core.roots, List.mem_cons, List.mem_reverse] at hl'
  rcases hl' with rfl | rfl | hl'
  · exact ⟨c.env, by simp [Core.roots], h.env⟩
  · exact ⟨c.stack, by simp [Core.roots], h.stack⟩
  · obtain ⟨l, hl, him⟩ := h.control.image l' hl'
    exact ⟨l, by simp [Core.roots, hl], him⟩

theorem Tracks.live_le (h : Tracks plain program w saved c c') :
    live c'.nodes c'.roots ≤ live c.nodes c.roots :=
  h.nodes.live_le h.roots

/-- The plain machine needs no less. -/
def NeedsNoMore (plain program : Program) (c c' : Core) : Prop :=
  ∃ k', Needs program c' k' ∧ (k' = 0 ∨ ∃ k, Needs plain c k ∧ k' ≤ k)

theorem NeedsNoMore.of_le {k k' : Nat} (hn : Needs plain c k) (hn' : Needs program c' k') (hle : k' ≤ k) :
    NeedsNoMore plain program c c' :=
  ⟨k', hn', .inr ⟨k, hn, hle⟩⟩

theorem NeedsNoMore.nothing (h : Needs program c' 0) : NeedsNoMore plain program c c' :=
  ⟨0, h, .inl rfl⟩

/-- The result of a primitive takes the same place, once the operands are gone. -/
theorem Tracks.primitive_needs (h : Tracks plain program w saved c c') (tail : Bool) {callee' : Loc}
    {locs' operands' : List Loc} {free : Nat} {args' : List Argument} {p : Primitive} {id : Nat}
    {value : Literal} (hi : program.code[c'.pc]? = some (callInstruction tail locs'.length))
    (hs : c'.nodes[c'.stack]? = some (.operandStack (locs' ++ callee' :: operands') free))
    (hcallee : c'.nodes[callee']? = some (.primitive id)) (hid : Primitive.ofId? id = some p)
    (harity : p.arity = locs'.length) (hargs : List.Forall₂ (HasArgument c'.nodes) locs' args')
    (hm : p.meaning args'.reverse = .ok value) (hstep : Step program c' d') :
    NeedsNoMore plain program c c' := by
  have hneeds' := needs_callPrimitive hi hs hcallee hid harity hargs hm hstep
  obtain ⟨operands, hs, hops⟩ := h.nodes.operands h.stack hs
  obtain ⟨locs, callee, rest, rfl, hlen, hlocs, him, hrest⟩ := images_call hops
  obtain ⟨args, hargs, hmeaning, -⟩ := h.nodes.arguments hlocs hargs p
  rw [← hmeaning] at hm
  rw [← hlen] at hi harity hneeds'
  have hcallee := h.nodes.primitive him hcallee
  have hp := h.call_code hi
  have hneeds := needs_callPrimitive hp hs hcallee hid harity hargs hm
    (step_callPrimitive hp hs hcallee hid harity hargs hm)
  refine .of_le hneeds hneeds' (Nat.add_le_add_right ?_ _)
  exact (h.nodes.set h.stack (.operandStack _ hrest)).live_le h.roots

/-- The activation takes the same place too. A call takes a frame besides. -/
theorem Tracks.closure_needs (h : Tracks plain program w saved c c') (tail : Bool) {callee' env' : Loc}
    {locs' operands' : List Loc} {free entry' capacity : Nat} {slots' slots'' : List (Option Loc)}
    {outer' outer'' : Option Loc} (hi : program.code[c'.pc]? = some (callInstruction tail locs'.length))
    (hs : c'.nodes[c'.stack]? = some (.operandStack (locs' ++ callee' :: operands') free))
    (hcallee : c'.nodes[callee']? = some (.closure (some env') locs'.length entry' capacity))
    (henv : c'.nodes[env']? = some (.environment slots' outer'))
    (hcurrent : c'.nodes[c'.env]? = some (.environment slots'' outer'')) (hstep : Step program c' d') :
    NeedsNoMore plain program c c' := by
  have hneeds' := needs_callClosure hi hs hcallee hstep
  obtain ⟨operands, hs, hops⟩ := h.nodes.operands h.stack hs
  obtain ⟨locs, callee, rest, rfl, hlen, -, him, -⟩ := images_call hops
  rw [← hlen] at hi hcallee hneeds'
  obtain ⟨env, entry, hcallee, hclosure, -⟩ := h.nodes.closure him hcallee
  obtain ⟨_, _, henv, -, -⟩ := h.nodes.environment hclosure henv
  obtain ⟨_, _, hcurrent, -, -⟩ := h.nodes.environment h.env hcurrent
  have hp := h.call_code hi
  have hneeds := needs_callClosure hp hs hcallee (step_callClosure hp hs hcallee henv hcurrent)
  refine .of_le hneeds hneeds' ?_
  refine Nat.add_le_add (Nat.add_le_add_right (Nat.add_le_add_right h.live_le _) _) ?_
  cases tail with
  | true => exact Nat.zero_le _
  | false => exact Nat.le_refl _

/-- **No move needs more than the plain machine does.** -/
theorem Tracks.affords (h : Tracks plain program w saved c c') (hm : Move program c' d') :
    NeedsNoMore plain program c c' := by
  have hstep := hm.step
  cases hm with
  | loadConstant hi hs =>
    obtain ⟨hp, -⟩ := h.pc.of_straight hi trivial
    obtain ⟨operands, hs₀, -⟩ := h.nodes.operands h.stack hs
    exact .of_le (needs_loadConstant hp hs₀) (needs_loadConstant hi hs) (Nat.add_le_add_right h.live_le _)
  | loadFunction hi henv hs =>
    obtain ⟨entry, hp, -, -⟩ := h.pc.of_loadFunction hi
    obtain ⟨operands, hs₀, -⟩ := h.nodes.operands h.stack hs
    obtain ⟨_, _, henv₀, -, -⟩ := h.nodes.environment h.env henv
    exact .of_le (needs_loadFunction hp henv₀ hs₀) (needs_loadFunction hi henv hs)
      (Nat.add_le_add_right h.live_le _)
  | enterScope hi henv =>
    obtain ⟨hp, -⟩ := h.pc.of_straight hi trivial
    obtain ⟨_, _, henv₀, -, -⟩ := h.nodes.environment h.env henv
    exact .of_le (needs_enterScope hp henv₀) (needs_enterScope hi henv)
      (Nat.add_le_add_right (Nat.add_le_add_right h.live_le _) _)
  | callPrimitive hi hs hcallee hid harity hargs hm =>
    exact h.primitive_needs false hi hs hcallee hid harity hargs hm hstep
  | tailCallPrimitive hi hs hcallee hid harity hargs hm =>
    exact h.primitive_needs true hi hs hcallee hid harity hargs hm hstep
  | callClosure hi hs hcallee henv hcurrent =>
    exact h.closure_needs false hi hs hcallee henv hcurrent hstep
  | tailCallClosure hi hs hcallee henv hcurrent =>
    exact h.closure_needs true hi hs hcallee henv hcurrent hstep
  | load hi | assign hi | pop hi | jump hi | jumpIfFalse hi | exitScope hi | ret hi =>
    exact .nothing (needs_nothing hi (fun _ => rfl) hstep)

end

end ClosureMachine.Ideal
