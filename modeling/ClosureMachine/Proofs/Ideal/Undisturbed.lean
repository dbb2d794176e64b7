import ClosureMachine.Proofs.Ideal.Passages

/-!
# Callers are left alone

A frame of a call keeps the environment and the operand stack of the caller, by name. Nothing in an instruction stops
the callee from using a stack that somebody else has saved; that it does not is an invariant, for any code.
All stacks in use are different ones, and those that wait have a place for the result, because the callee was
taken off them (`Undisturbed`).

So a caller can be followed from the call to the return (`Held`): whatever happens in between, its frame, the frames
below it and the operands that it left are the same, until a turn returns to it and adds one value to them.
-/

set_option autoImplicit false

namespace ClosureMachine.Ideal

/-! ## Saved stacks -/

/-- The operand stack that a frame keeps, if it is one of a call. -/
def savedStack? (nodes : List Node) (frame : Loc) : Option Loc :=
  match nodes[frame]? with
  | some (.callFrame _ stack _) => stack
  | _ => none

def savedStacks (nodes : List Node) (control : List Loc) : List Loc := control.filterMap (savedStack? nodes)

section

variable {nodes nodes' : List Node} {used control blocks rest : List Loc} {frame stack : Loc}

theorem savedStack?_call {env : Option Loc} {address : Nat}
    (hn : nodes[frame]? = some (.callFrame env (some stack) address)) : savedStack? nodes frame = some stack := by
  rw [savedStack?, hn]

theorem savedStack?_block (h : IsBlock nodes frame) : savedStack? nodes frame = none := by
  obtain ⟨env, hn⟩ := h
  rw [savedStack?, hn]

/-- Frames do not change. -/
theorem savedStack?_later (hl : Later True used nodes nodes') (hlt : frame < nodes.length) :
    savedStack? nodes' frame = savedStack? nodes frame := by
  have hold := List.getElem?_eq_getElem hlt
  obtain ⟨n', hn', hb⟩ := hl hold
  rw [savedStack?, savedStack?, hn', hold]
  generalize nodes[frame] = n at hb
  cases hb <;> rfl

theorem savedStacks_later (hl : Later True used nodes nodes') (hlt : ∀ l ∈ control, l < nodes.length) :
    savedStacks nodes' control = savedStacks nodes control :=
  List.filterMap_congr fun l hmem => savedStack?_later hl (hlt l hmem)

/-- Below the frames of blocks. -/
theorem savedStacks_append (hb : ∀ l ∈ blocks, IsBlock nodes l) :
    savedStacks nodes (blocks ++ rest) = savedStacks nodes rest := by
  have hnone : blocks.filterMap (savedStack? nodes) = [] :=
    List.filterMap_eq_nil_iff.mpr fun l hl => savedStack?_block (hb l hl)
  rw [savedStacks, List.filterMap_append, hnone]
  rfl

theorem savedStacks_cons {env : Option Loc} {address : Nat}
    (hn : nodes[frame]? = some (.callFrame env (some stack) address)) :
    savedStacks nodes (frame :: rest) = stack :: savedStacks nodes rest :=
  List.filterMap_cons_some (savedStack?_call hn)

end

/-! ## The invariant -/

/-- An operand stack with a place for one more. -/
def HasPlace (nodes : List Node) (stack : Loc) : Prop :=
  ∃ operands free, nodes[stack]? = some (.operandStack operands (free + 1))

/-- Every frame waits once, and every operand stack is in use by one activation only. A saved one has a place free. -/
structure Undisturbed (c : Core) : Prop where
  frames : ∀ l ∈ c.control, l < c.nodes.length
  once : c.control.Nodup
  apart : (c.stack :: savedStacks c.nodes c.control).Nodup
  places : ∀ stack ∈ savedStacks c.nodes c.control, HasPlace c.nodes stack

theorem undisturbed_boot (program : Program) : Undisturbed (bootState program).core where
  frames _ hl := absurd hl List.not_mem_nil
  once := List.nodup_nil
  apart := List.nodup_singleton _
  places _ hl := absurd hl List.not_mem_nil

namespace Undisturbed

variable {program : Program} {c c' : Core} {used : List Loc}

/-- Whoever runs does not use a saved stack. -/
theorem unused (h : Undisturbed c) {l : Loc} (hl : l ∈ savedStacks c.nodes c.control) : l ∉ [c.stack] := by
  intro hmem
  rw [List.mem_singleton.mp hmem] at hl
  exact (List.nodup_cons.mp h.apart).1 hl

/-- Nor does who returns to a caller, except for that of the caller. -/
theorem unused_both (h : Undisturbed c) {l stack : Loc} (hl : l ∈ savedStacks c.nodes c.control) (hne : l ≠ stack) :
    l ∉ [c.stack, stack] := by
  intro hmem
  rcases List.mem_pair.mp hmem with heq | heq
  · exact h.unused hl (List.mem_singleton.mpr heq)
  · exact hne heq

theorem saved_lt (h : Undisturbed c) {l : Loc} (hl : l ∈ savedStacks c.nodes c.control) : l < c.nodes.length := by
  obtain ⟨operands, free, hn⟩ := h.places l hl
  exact lt_of_getElem? hn

/-- Frames are taken off, or stay. -/
theorem shrink (h : Undisturbed c) (hnodes : Later True used c.nodes c'.nodes) (hsub : c'.control.Sublist c.control)
    (hapart : (c'.stack :: savedStacks c.nodes c'.control).Nodup)
    (hused : ∀ l ∈ savedStacks c.nodes c'.control, l ∉ used) : Undisturbed c' := by
  have hlt : ∀ l ∈ c'.control, l < c.nodes.length := fun l hl => h.frames l (hsub.subset hl)
  have hsaved := savedStacks_later hnodes hlt
  refine ⟨fun l hl => Nat.lt_of_lt_of_le (hlt l hl) hnodes.length_le, h.once.sublist hsub, hsaved ▸ hapart, ?_⟩
  rw [hsaved]
  intro stack hstack
  obtain ⟨operands, free, hn⟩ := h.places stack ((hsub.filterMap _).subset hstack)
  exact ⟨operands, free, hnodes.keep_stack hn (hused stack hstack)⟩

/-- A new frame is put on top. -/
theorem grow (h : Undisturbed c) (hnodes : Later True [c.stack] c.nodes c'.nodes) {frame : Loc} {n : Node}
    (hnew : c.nodes.length ≤ frame) (hframe : c'.nodes[frame]? = some n) (hcontrol : c'.control = frame :: c.control)
    (hapart : (c'.stack :: ((savedStack? c'.nodes frame).toList ++ savedStacks c.nodes c.control)).Nodup)
    (hplace : ∀ stack ∈ savedStack? c'.nodes frame, HasPlace c'.nodes stack) : Undisturbed c' := by
  have hold : ∀ l ∈ c.control, l < c'.nodes.length :=
    fun l hl => Nat.lt_of_lt_of_le (h.frames l hl) hnodes.length_le
  have hsaved : savedStacks c'.nodes c'.control =
      (savedStack? c'.nodes frame).toList ++ savedStacks c.nodes c.control := by
    rw [hcontrol, ← savedStacks_later hnodes h.frames, savedStacks, savedStacks, List.filterMap_cons]
    cases savedStack? c'.nodes frame <;> rfl
  constructor
  · rw [hcontrol]
    exact List.forall_mem_cons.mpr ⟨lt_of_getElem? hframe, hold⟩
  · rw [hcontrol]
    exact List.nodup_cons.mpr ⟨fun hmem => Nat.not_lt.mpr hnew (h.frames frame hmem), h.once⟩
  · rw [hsaved]
    exact hapart
  · rw [hsaved]
    intro stack hstack
    rcases List.mem_append.mp hstack with hmem | hmem
    · exact hplace stack (Option.mem_toList.mp hmem)
    · obtain ⟨operands, free, hn⟩ := h.places stack hmem
      exact ⟨operands, free, hnodes.keep_stack hn (h.unused hmem)⟩

/-- A stack that was not there is not in use. -/
theorem apart_new (h : Undisturbed c) {stack : Loc} {control : List Loc} (hnew : c.nodes.length ≤ stack)
    (hsub : control.Sublist c.control) : (stack :: savedStacks c.nodes control).Nodup := by
  have hsaved : (savedStacks c.nodes control).Sublist (savedStacks c.nodes c.control) := hsub.filterMap _
  refine List.nodup_cons.mpr ⟨fun hmem => ?_, (List.nodup_cons.mp h.apart).2.sublist hsaved⟩
  exact Nat.not_lt.mpr hnew (h.saved_lt (hsaved.subset hmem))

/-- **Every move keeps it.** -/
theorem move (h : Undisturbed c) (hmove : Move program c c') : Undisturbed c' := by
  have hunused : ∀ {control : List Loc}, control.Sublist c.control →
      ∀ l ∈ savedStacks c.nodes control, l ∉ [c.stack] := by
    intro control hsub l hl
    exact h.unused ((hsub.filterMap _).subset hl)
  cases hmove.passage with
  | stays _ _ _ _ _ hnodes hstack hcontrol =>
    have hsub : c'.control.Sublist c.control := hcontrol ▸ List.Sublist.refl _
    refine h.shrink hnodes hsub ?_ (hunused hsub)
    rw [hstack, hcontrol]
    exact h.apart
  | enters _ _ hnodes hstack hnew hframe hcontrol =>
    have hnone := savedStack?_block ⟨_, hframe⟩
    refine h.grow hnodes hnew hframe hcontrol ?_ (by simp [hnone])
    rw [hnone, hstack]
    exact h.apart
  | exits _ _ hnodes hstack hc _ hcontrol =>
    have hsub : c'.control.Sublist c.control := by
      rw [hc, hcontrol]
      exact List.sublist_cons_self _ _
    refine h.shrink hnodes hsub ?_ (hunused hsub)
    rw [hstack]
    exact h.apart.sublist ((hsub.filterMap _).cons_cons _)
  | calls hi hn hs _ hnodes hrest hnew hframe hpc hstack hcontrol =>
    have hsome := savedStack?_call hframe
    refine h.grow hnodes hnew hframe hcontrol ?_ ?_
    · -- the caller's stack has been saved, and the callee has a new one
      rw [hsome]
      refine List.nodup_cons.mpr ⟨fun hmem => ?_, h.apart⟩
      rcases List.mem_cons.mp hmem with heq | hmem
      · exact Nat.not_lt.mpr hstack (heq ▸ lt_of_getElem? hs)
      · exact Nat.not_lt.mpr hstack (h.saved_lt hmem)
    · rw [hsome]
      rintro _ ⟨⟩
      exact ⟨_, _, hrest⟩
  | hands _ _ _ hnodes hc _ _ _ _ hstack hcontrol =>
    have hsub : c'.control.Sublist c.control := by
      rw [hc, hcontrol]
      exact List.sublist_append_right _ _
    exact h.shrink hnodes hsub (h.apart_new hstack hsub) (hunused hsub)
  | returns _ _ hc hb hframe _ hnodes _ _ _ hstack hcontrol =>
    have hsub : c'.control.Sublist c.control := by
      rw [hc, hcontrol]
      exact (List.sublist_cons_self _ _).trans (List.sublist_append_right _ _)
    have hsaved := (List.nodup_cons.mp h.apart).2
    rw [hc, savedStacks_append hb, savedStacks_cons hframe, ← hcontrol] at hsaved
    refine h.shrink hnodes hsub (hstack ▸ hsaved) fun l hl => ?_
    refine h.unused_both ((hsub.filterMap _).subset hl) ?_
    rintro rfl
    exact (List.nodup_cons.mp hsaved).1 hl

end Undisturbed

/-! ## One caller -/

/-- The frame of a call waits above `below`, for a caller that goes on at the address, in the environment and with the
operands. -/
structure Held (c : Core) (frame env stack : Loc) (address : Nat) (operands : List Loc) (free : Nat)
    (below : List Loc) : Prop where
  waits : ∃ above, c.control = above ++ frame :: below
  links : c.nodes[frame]? = some (.callFrame (some env) (some stack) address)
  contents : c.nodes[stack]? = some (.operandStack operands (free + 1))

/-- The caller goes on, with one operand more. -/
structure Resumed (c : Core) (env stack : Loc) (address : Nat) (operands : List Loc) (free : Nat)
    (below : List Loc) : Prop where
  pc_eq : c.pc = address
  env_eq : c.env = env
  stack_eq : c.stack = stack
  control_eq : c.control = below
  contents : ∃ v, c.nodes[stack]? = some (.operandStack (v :: operands) free)

section

variable {program : Program} {c c' : Core} {frame env stack : Loc} {address free : Nat} {operands below : List Loc}

theorem Held.mem (h : Held c frame env stack address operands free below) : frame ∈ c.control := by
  obtain ⟨above, hc⟩ := h.waits
  rw [hc]
  simp

theorem Held.saved (h : Held c frame env stack address operands free below) :
    stack ∈ savedStacks c.nodes c.control :=
  List.mem_filterMap.mpr ⟨frame, h.mem, savedStack?_call h.links⟩

/-- To hold a frame is to hold what it links to, as long as its stack is not used. -/
theorem Held.later (h : Held c frame env stack address operands free below) {used : List Loc}
    (hnodes : Later True used c.nodes c'.nodes) (hstack : stack ∉ used)
    (hwaits : ∃ above, c'.control = above ++ frame :: below) :
    Held c' frame env stack address operands free below :=
  ⟨hwaits, hnodes.keep_callFrame h.links, hnodes.keep_stack h.contents hstack⟩

/-- Blocks in front of a frame of a call are above all frames of calls. -/
theorem suffix_of_blocks {nodes : List Node} {blocks above rest : List Loc} {top : Loc} {n : Node}
    (hb : ∀ l ∈ blocks, IsBlock nodes l) (hn : nodes[frame]? = some n) (hk : n.kind = .callFrame)
    (heq : blocks ++ top :: rest = above ++ frame :: below) :
    ∃ above', top :: rest = above' ++ frame :: below := by
  rcases List.append_eq_append_iff.mp heq with ⟨above', -, hrest⟩ | ⟨more, hblocks, hbelow⟩
  · exact ⟨above', hrest⟩
  · cases more with
    | nil => exact ⟨[], hbelow.symm⟩
    | cons l more =>
      obtain ⟨rfl, -⟩ := List.cons.inj hbelow
      exact absurd (hb frame (by simp [hblocks])) (not_isBlock hn hk)

/-- **The caller is held until it is resumed**, and then its frame is gone. -/
theorem Held.move (h : Held c frame env stack address operands free below) (hc : Undisturbed c)
    (hmove : Move program c c') :
    Held c' frame env stack address operands free below ∨
      frame ∉ c'.control ∧ Resumed c' env stack address operands free below ∧
        ∃ i, program.code[c.pc]? = some i ∧ i.returns c.calleeKind? = true := by
  have hunused : stack ∉ [c.stack] := hc.unused h.saved
  obtain ⟨above, hwaits⟩ := h.waits
  cases hmove.passage with
  | stays _ _ _ _ _ hnodes _ hcontrol => exact .inl (h.later hnodes hunused ⟨above, hcontrol.trans hwaits⟩)
  | @enters _ top _ _ _ hnodes _ _ _ hcontrol =>
    refine .inl (h.later hnodes hunused ⟨top :: above, ?_⟩)
    rw [hcontrol, hwaits]
    rfl
  | exits _ _ hnodes _ hc' hframe hcontrol =>
    rw [hc'] at hwaits
    cases above with
    | nil =>
      obtain ⟨rfl, -⟩ := List.cons.inj hwaits
      cases hframe.symm.trans h.links
    | cons top above =>
      obtain ⟨-, hrest⟩ := List.cons.inj hwaits
      exact .inl (h.later hnodes hunused ⟨above, hcontrol.trans hrest⟩)
  | @calls _ _ _ _ _ top _ _ _ _ _ _ _ hnodes _ _ _ _ _ hcontrol =>
    refine .inl (h.later hnodes hunused ⟨top :: above, ?_⟩)
    rw [hcontrol, hwaits]
    rfl
  | hands _ _ _ hnodes hc' hb _ _ _ _ hcontrol =>
    obtain ⟨above', hrest⟩ := suffix_of_blocks hb h.links rfl (hc'.symm.trans hwaits)
    exact .inl (h.later hnodes hunused ⟨above', hcontrol.trans hrest⟩)
  | @returns i v _ stack' top _ _ blocks rest _ hi hreturns hc' hb hframe hs hnodes hresult hpc henv hstack hcontrol =>
    obtain ⟨above', hrest⟩ := suffix_of_blocks hb h.links rfl (hc'.symm.trans hwaits)
    have honce := hc.once
    have hsaved := (List.nodup_cons.mp hc.apart).2
    rw [hc', savedStacks_append hb, savedStacks_cons hframe] at hsaved
    rw [hc'] at honce
    have htop : top ∉ rest := (List.nodup_cons.mp (List.nodup_append.mp honce).2.1).1
    cases above' with
    | nil =>
      -- this is the frame that is returned through
      obtain ⟨rfl, rfl⟩ := List.cons.inj hrest
      cases hframe.symm.trans h.links
      cases hs.symm.trans h.contents
      exact .inr ⟨hcontrol ▸ htop, ⟨hpc, henv, hstack, hcontrol, v, hresult⟩, i, hi, hreturns⟩
    | cons _ above' =>
      obtain ⟨rfl, htail⟩ := List.cons.inj hrest
      have htail : rest = above' ++ frame :: below := htail
      have hne : stack ≠ stack' := by
        rintro rfl
        refine (List.nodup_cons.mp hsaved).1 (List.mem_filterMap.mpr ⟨frame, ?_, savedStack?_call h.links⟩)
        rw [htail]
        simp
      exact .inl (h.later hnodes (hc.unused_both h.saved hne) ⟨above', hcontrol.trans htail⟩)

/-- What waits after a move waited before it, or is new. -/
theorem Move.mem_control (hmove : Move program c c') {l : Loc} (hl : l ∈ c'.control) (hlt : l < c.nodes.length) :
    l ∈ c.control := by
  cases hmove.passage with
  | stays _ _ _ _ _ _ _ hcontrol => exact hcontrol ▸ hl
  | enters _ _ _ _ hnew _ hcontrol | calls _ _ _ _ _ _ hnew _ _ _ hcontrol =>
    rw [hcontrol] at hl
    exact (List.mem_cons.mp hl).resolve_left fun heq => Nat.not_lt.mpr hnew (heq ▸ hlt)
  | exits _ _ _ _ hc _ hcontrol =>
    rw [hc, ← hcontrol]
    exact List.mem_cons_of_mem _ hl
  | hands _ _ _ _ hc _ _ _ _ _ hcontrol =>
    rw [hc, ← hcontrol]
    exact List.mem_append_right _ hl
  | returns _ _ hc _ _ _ _ _ _ _ _ hcontrol =>
    rw [hc, ← hcontrol]
    exact List.mem_append_right _ (List.mem_cons_of_mem _ hl)

end

end ClosureMachine.Ideal
