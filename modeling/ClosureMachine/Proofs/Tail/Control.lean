import ClosureMachine.Proofs.Tail.Images

/-!
# Callers that only return

Where one machine has made a tail call, the control stack of the plain machine has a frame more. Its caller has
nothing left to do but to return what it is given, so it is called *idle*. `SameControl` says where
idle callers can be: between frames that both machines have, and directly above a call.

A return of the plain machine therefore becomes a series of them, through all the idle callers, down to the
caller that the other machine returns to at once (`SameControl.returns`). Each idle operand stack takes the
value up and hands it on, and is in the end what it was.
-/

set_option autoImplicit false

namespace ClosureMachine.Ideal

/-- The frames of the two machines. The operand stacks that the plain machine keeps in its frames are
`saved`. -/
inductive SameControl (plain : Program) (w : List Loc) (nodes : List Node) :
    (control control' saved : List Loc) → Prop
  | nil : SameControl plain w nodes [] [] []
  | block {frame frame' : Loc} {env : Option Loc} {control control' saved : List Loc}
      (image : Image w frame frame') (hframe : nodes[frame]? = some (.blockFrame env))
      (rest : SameControl plain w nodes control control' saved) :
      SameControl plain w nodes (frame :: control) (frame' :: control') saved
  | call {frame frame' stack : Loc} {env : Option Loc} {address : Nat} {control control' saved : List Loc}
      (image : Image w frame frame') (hframe : nodes[frame]? = some (.callFrame env (some stack) address))
      (hlt : stack < nodes.length) (rest : SameControl plain w nodes control control' saved) :
      SameControl plain w nodes (frame :: control) (frame' :: control') (stack :: saved)
  | idle {frame env stack caller caller' : Loc} {address free : Nat} {n : Node}
      {operands blocks control control' saved : List Loc}
      (hframe : nodes[frame]? = some (.callFrame (some env) (some stack) address))
      (returns : Returns plain address)
      (hstack : nodes[stack]? = some (.operandStack operands (free + 1)))
      (hblocks : ∀ l ∈ blocks, ∃ env, nodes[l]? = some (.blockFrame env))
      (image : Image w caller caller') (hcaller : nodes[caller]? = some n) (hkind : n.kind = .callFrame)
      (rest : SameControl plain w nodes control (caller' :: control') saved) :
      SameControl plain w nodes (frame :: (blocks ++ control)) (caller' :: control') (stack :: saved)

namespace SameControl

variable {plain : Program} {w : List Loc} {nodes nodes' : List Node} {control control' saved : List Loc}

theorem mono (h : SameControl plain w nodes control control' saved) (more : List Loc) :
    SameControl plain (w ++ more) nodes control control' saved := by
  induction h with
  | nil => exact .nil
  | block image hframe _ ih => exact .block (image.mono more) hframe ih
  | call image hframe hlt _ ih => exact .call (image.mono more) hframe hlt ih
  | idle hframe returns hstack hblocks image hcaller hkind _ ih =>
    exact .idle hframe returns hstack hblocks (image.mono more) hcaller hkind ih

/-- Frames stay what they are, and so do the operand stacks of callers. -/
theorem later {written : Prop} {used : List Loc} (h : SameControl plain w nodes control control' saved)
    (hl : Later written used nodes nodes') (hunused : ∀ l ∈ saved, l ∉ used) :
    SameControl plain w nodes' control control' saved := by
  induction h with
  | nil => exact .nil
  | block image hframe _ ih =>
    exact .block image (hl.keep hframe (by simp [Node.kind]) (by simp [Node.kind])) (ih hunused)
  | call image hframe hlt _ ih =>
    rw [List.forall_mem_cons] at hunused
    exact .call image (hl.keep hframe (by simp [Node.kind]) (by simp [Node.kind]))
      (Nat.lt_of_lt_of_le hlt hl.length_le) (ih hunused.2)
  | idle hframe returns hstack hblocks image hcaller hkind _ ih =>
    rw [List.forall_mem_cons] at hunused
    refine .idle (hl.keep hframe (by simp [Node.kind]) (by simp [Node.kind])) returns
      (hl.keep_stack hstack hunused.1) ?_ image
      (hl.keep hcaller (by simp [hkind]) (by simp [hkind])) hkind (ih hunused.2)
    intro l hmem
    obtain ⟨env, hn⟩ := hblocks l hmem
    exact ⟨env, hl.keep hn (by simp [Node.kind]) (by simp [Node.kind])⟩

/-- The frames of the second machine are there in the plain one. -/
theorem image (h : SameControl plain w nodes control control' saved) :
    ∀ frame' ∈ control', ∃ frame ∈ control, Image w frame frame' := by
  induction h with
  | nil => simp
  | block image _ _ ih | call image _ _ _ ih =>
    refine List.forall_mem_cons.mpr ⟨⟨_, List.mem_cons_self, image⟩, ?_⟩
    intro frame' hmem
    obtain ⟨frame, hframe, himage⟩ := ih frame' hmem
    exact ⟨frame, List.mem_cons_of_mem _ hframe, himage⟩
  | idle _ _ _ _ _ _ _ _ ih =>
    intro frame' hmem
    obtain ⟨frame, hframe, himage⟩ := ih frame' hmem
    exact ⟨frame, List.mem_cons_of_mem _ (List.mem_append_right _ hframe), himage⟩

theorem saved_lt (h : SameControl plain w nodes control control' saved) :
    ∀ l ∈ saved, l < nodes.length := by
  induction h with
  | nil => simp
  | block _ _ _ ih => exact ih
  | call _ _ hlt _ ih => exact List.forall_mem_cons.mpr ⟨hlt, ih⟩
  | idle _ _ hstack _ _ _ _ _ ih =>
    exact List.forall_mem_cons.mpr ⟨(List.getElem?_eq_some_iff.mp hstack).1, ih⟩

/-- Block frames are not between idle callers and the call below them, so they come off on both sides. -/
theorem unwind {blocks' rest' : List Loc}
    (h : SameControl plain w nodes control (blocks' ++ rest') saved)
    (hblocks : ∀ l' ∈ blocks', ∀ l, Image w l l' → ∃ env, nodes[l]? = some (.blockFrame env)) :
    ∃ blocks rest, control = blocks ++ rest ∧ Images w blocks blocks' ∧
      (∀ l ∈ blocks, ∃ env, nodes[l]? = some (.blockFrame env)) ∧
      SameControl plain w nodes rest rest' saved := by
  induction blocks' generalizing control with
  | nil => exact ⟨[], control, rfl, .nil, by simp, h⟩
  | cons frame' blocks' ih =>
    rw [List.forall_mem_cons] at hblocks
    rw [List.cons_append] at h
    cases h with
    | block image hframe hrest =>
      obtain ⟨blocks, rest, rfl, himages, hb, hsame⟩ := ih hrest hblocks.2
      exact ⟨_ :: blocks, rest, rfl, .cons image himages,
        List.forall_mem_cons.mpr ⟨⟨_, hframe⟩, hb⟩, hsame⟩
    | call image hframe =>
      obtain ⟨env, hn⟩ := hblocks.1 _ image
      cases hframe.symm.trans hn
    | idle _ _ _ _ image hcaller hkind =>
      obtain ⟨env, hn⟩ := hblocks.1 _ image
      cases hcaller.symm.trans hn
      cases hkind

end SameControl

/-! ## Returning -/

section

variable {plain : Program} {w : List Loc}

/-- Jumps lead to the return. -/
theorem steps_of_returns {c : Core} {pc : Nat} (h : Returns plain pc) (hpc : c.pc = pc) :
    ∃ k pc', Steps plain k c { c with pc := pc' } ∧ plain.code[pc']? = some .ret := by
  induction h generalizing c with
  | ret hi =>
    subst hpc
    exact ⟨0, c.pc, rfl, hi⟩
  | @jump a target hi _ ih =>
    subst hpc
    obtain ⟨k, pc', hsteps, hret⟩ := ih (c := { c with pc := target }) rfl
    exact ⟨k + 1, pc', ⟨_, step_jump hi, hsteps⟩, hret⟩

/-- A return, with the jumps before it. -/
theorem steps_return {c : Core} {v env stack frame : Loc} {address free free' : Nat}
    {operands blocks rest operands' : List Loc} (hret : Returns plain c.pc)
    (hs : c.nodes[c.stack]? = some (.operandStack (v :: operands) free))
    (hc : c.control = blocks ++ frame :: rest)
    (hb : ∀ l ∈ blocks, ∃ env, c.nodes[l]? = some (.blockFrame env))
    (hframe : c.nodes[frame]? = some (.callFrame (some env) (some stack) address))
    (hstack : c.nodes[stack]? = some (.operandStack operands' (free' + 1))) (hne : c.stack ≠ stack) :
    ∃ k, Steps plain (k + 1) c { c with
      nodes := (c.nodes.set c.stack (.operandStack operands (free + 1))).set stack
        (.operandStack (v :: operands') free')
      pc := address
      env := env
      stack := stack
      control := rest } := by
  obtain ⟨k, pc', hsteps, hi⟩ := steps_of_returns hret rfl
  have hstep := step_ret (c := { c with pc := pc' }) hi hs hc hb hframe hstack hne
  exact ⟨k, hsteps.trans hstep.steps⟩

/-- The operand stack of a caller that both machines have is among those that are saved. -/
theorem SameControl.mem_saved {nodes : List Node} {control control' rest' saved : List Loc}
    {frame frame' stack : Loc} {env : Option Loc} {address : Nat}
    (h : SameControl plain w nodes control control' saved) (hcontrol : control' = frame' :: rest')
    (himage : Image w frame frame')
    (hframe : nodes[frame]? = some (.callFrame env (some stack) address)) : stack ∈ saved := by
  induction h with
  | nil => cases hcontrol
  | block image hblock =>
    cases hcontrol
    obtain rfl := image.unique himage
    cases hblock.symm.trans hframe
  | call image hcall =>
    cases hcontrol
    obtain rfl := image.unique himage
    cases hcall.symm.trans hframe
    exact List.mem_cons_self
  | idle _ _ _ _ _ _ _ _ ih => exact List.mem_cons_of_mem _ (ih hcontrol)

theorem unused_pair {saved : List Loc} {l l' : Loc} (hl : l ∉ saved) (hl' : l' ∉ saved) :
    ∀ k ∈ saved, k ∉ [l, l'] := by
  intro k hk
  rw [List.mem_cons, List.mem_singleton, not_or]
  exact ⟨fun heq => hl (heq ▸ hk), fun heq => hl' (heq ▸ hk)⟩

/-- A value goes from one operand stack to the next. -/
theorem later_handOn {nodes : List Node} {stack stack' v : Loc} {operands operands' : List Loc}
    {free free' : Nat} (hs : nodes[stack]? = some (.operandStack (v :: operands) free))
    (hs' : nodes[stack']? = some (.operandStack operands' (free' + 1))) (hne : stack ≠ stack') :
    Later True [stack, stack'] nodes ((nodes.set stack (.operandStack operands (free + 1))).set stack'
      (.operandStack (v :: operands') free')) := by
  have hstack' : (nodes.set stack (.operandStack operands (free + 1)))[stack']? =
      some (.operandStack operands' (free' + 1)) := (List.getElem?_set_ne hne).trans hs'
  exact (Later.use hs List.mem_cons_self).trans
    (.use hstack' (List.mem_cons_of_mem _ (List.mem_singleton_self _)))

/-- **The plain machine returns to the caller that the other one returns to**, by way of those that are idle.
The frames may have been compared earlier, if the operand stacks of the callers have not been used since. -/
theorem SameControl.returns {c : Core} {nodes : List Node} {control control' rest' saved used : List Loc}
    (h : SameControl plain w nodes control control' saved) (hl : Later True used nodes c.nodes)
    (hunused : ∀ l ∈ saved, l ∉ used) {frame frame' : Loc} (hcontrol : control' = frame' :: rest')
    (himage : Image w frame frame') {v env stack : Loc} {address free free' : Nat}
    {operands operands' blocks : List Loc}
    (hframe : c.nodes[frame]? = some (.callFrame (some env) (some stack) address))
    (hstack : c.nodes[stack]? = some (.operandStack operands' (free' + 1)))
    (hret : Returns plain c.pc) (hs : c.nodes[c.stack]? = some (.operandStack (v :: operands) free))
    (hc : c.control = blocks ++ control)
    (hb : ∀ l ∈ blocks, ∃ env, c.nodes[l]? = some (.blockFrame env))
    (hapart : (c.stack :: saved).Nodup) :
    ∃ k rest saved',
      Steps plain (k + 1) c { c with
        nodes := (c.nodes.set c.stack (.operandStack operands (free + 1))).set stack
          (.operandStack (v :: operands') free')
        pc := address
        env := env
        stack := stack
        control := rest } ∧
      SameControl plain w ((c.nodes.set c.stack (.operandStack operands (free + 1))).set stack
        (.operandStack (v :: operands') free')) rest rest' saved' ∧
      (stack :: saved').Nodup := by
  -- induction on the frames: the idle callers come off one by one
  induction h generalizing c operands free blocks used with
  | nil => cases hcontrol
  | block image hblock =>
    cases hcontrol
    obtain rfl := image.unique himage
    cases (hl.keep hblock (by simp [Node.kind]) (by simp [Node.kind])).symm.trans hframe
  | @call _ _ _ _ _ control _ saved image hcall _ rest =>
    cases hcontrol
    obtain rfl := image.unique himage
    cases (hl.keep hcall (by simp [Node.kind]) (by simp [Node.kind])).symm.trans hframe
    obtain ⟨hout, hapart⟩ := List.nodup_cons.mp hapart
    have hne : c.stack ≠ stack := fun heq => hout (heq ▸ List.mem_cons_self)
    obtain ⟨k, hsteps⟩ := steps_return hret hs hc hb hframe hstack hne
    have hrest := rest.later hl (List.forall_mem_cons.mp hunused).2
    refine ⟨k, control, saved, hsteps, hrest.later (later_handOn hs hstack hne) ?_, hapart⟩
    exact unused_pair (fun hmem => hout (List.mem_cons_of_mem _ hmem)) (List.nodup_cons.mp hapart).1
  | @idle _ envIdle idle _ _ addressIdle freeIdle _ operandsIdle blocksIdle control _ saved hidle hreturns
      hidleStack hblocks _ _ _ rest ih =>
    rw [List.forall_mem_cons] at hunused
    have hrest := rest.later hl hunused.2
    have hidle := hl.keep hidle (by simp [Node.kind]) (by simp [Node.kind])
    have hidleStack := hl.keep_stack hidleStack hunused.1
    obtain ⟨hout, hapart⟩ := List.nodup_cons.mp hapart
    have hout' : c.stack ∉ saved := fun hmem => hout (List.mem_cons_of_mem _ hmem)
    have hne : c.stack ≠ idle := fun heq => hout (heq ▸ List.mem_cons_self)
    obtain ⟨hidleOut, -⟩ := List.nodup_cons.mp hapart
    have hmem := hrest.mem_saved hcontrol himage hframe
    have hne₁ : c.stack ≠ stack := fun heq => hout' (heq ▸ hmem)
    have hne₂ : idle ≠ stack := fun heq => hidleOut (heq ▸ hmem)
    obtain ⟨k, hsteps⟩ := steps_return hret hs hc hb hidle hidleStack hne
    -- the core in which the idle caller has the value
    let nodes₁ := (c.nodes.set c.stack (.operandStack operands (free + 1))).set idle
      (.operandStack (v :: operandsIdle) freeIdle)
    have hhand : Later True [c.stack, idle] c.nodes nodes₁ := later_handOn hs hidleStack hne
    have hl₁ : Later True (used ++ [c.stack, idle]) nodes nodes₁ :=
      (hl.mono id fun l hmem => List.mem_append_left _ hmem).trans
        (hhand.mono id fun l hmem => List.mem_append_right _ hmem)
    have hunused₁ : ∀ l ∈ saved, l ∉ used ++ [c.stack, idle] := by
      intro l hmem
      rw [List.mem_append, not_or]
      exact ⟨hunused.2 l hmem, unused_pair hout' hidleOut l hmem⟩
    have hold : (c.nodes.set c.stack (.operandStack operands (free + 1)))[idle]? =
        some (.operandStack operandsIdle (freeIdle + 1)) := (List.getElem?_set_ne hne).trans hidleStack
    have hs₁ : nodes₁[idle]? = some (.operandStack (v :: operandsIdle) freeIdle) :=
      List.getElem?_set_self (List.getElem?_eq_some_iff.mp hold).1
    obtain ⟨k', rest₁, saved₁, hsteps₁, hsame₁, hapart₁⟩ :=
      ih (c := ⟨nodes₁, addressIdle, envIdle, idle, blocksIdle ++ control, c.output⟩) hl₁ hunused₁ hcontrol
        (hhand.keep hframe (by simp [Node.kind]) (by simp [Node.kind]))
        (hhand.keep_stack hstack (by simp [Ne.symm hne₁, Ne.symm hne₂])) hreturns hs₁ rfl
        (fun l hmem => (hblocks l hmem).imp fun env hn =>
          hl₁.keep hn (by simp [Node.kind]) (by simp [Node.kind])) hapart
    -- the idle operand stack is what it was
    have hsame : nodes₁.set idle (.operandStack operandsIdle (freeIdle + 1)) =
        c.nodes.set c.stack (.operandStack operands (free + 1)) := by
      obtain ⟨hlt, heq⟩ := List.getElem?_eq_some_iff.mp hold
      rw [List.set_set, ← heq, List.set_getElem_self]
    dsimp only at hsteps₁ hsame₁
    rw [hsame] at hsteps₁ hsame₁
    refine ⟨k + 1 + k', rest₁, saved₁, ?_, hsame₁, hapart₁⟩
    rw [Nat.add_assoc]
    exact hsteps.trans hsteps₁

end

end ClosureMachine.Ideal
