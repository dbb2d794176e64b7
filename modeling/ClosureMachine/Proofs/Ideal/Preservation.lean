import ClosureMachine.Proofs.Ideal.Roles

/-!
# Instructions keep every node where it belongs

One lemma for each action: in a sorted state it ends in a sorted state, whether it succeeds or fails, and it
fails only as `Ordinary` says, or as the instruction permits. That no environment is taken for a value,
that no link is missing, that no slot of a callee is out of bounds and that sums of words are too large only
where the code asks for them is all part of this.
-/

set_option autoImplicit false

namespace ClosureMachine

/-- The faults that any instruction may end in: those that are not about memory, that memory is short, and
that an operand stack is full or empty. -/
def Ordinary : Fault → Prop
  | .heap (.outOfMemory ..) | .heap (.operandStackOverflow _) | .heap .operandStackUnderflow => True
  | .heap _ => False
  | _ => True

/-- The instructions that pin nodes while they allocate others. -/
def Instruction.IsCall : Instruction → Prop
  | .call _ | .tailCall _ => True
  | _ => False

namespace Ideal

open Heap (headerSize)

/-- There is an environment for the address, but it does not have the slot. -/
def State.Lacks (s : State) (a : Address) : Prop :=
  ∃ env slots outer, outward s.env a.frame s.nodes = .ok (some env) s.nodes ∧
    s.nodes[env]? = some (.environment slots outer) ∧ slots.length ≤ a.slot

/-- The frame that is innermost is that of a call. -/
def State.InCall (s : State) : Prop := ∃ frame rest, s.control = frame :: rest ∧ InRole s.nodes .call frame

/-- A call of so many arguments needs a node that no memory can hold: an environment for them, or the operand
stack that the callee asks for. -/
def State.Overloads (s : State) (arguments : Nat) : Prop :=
  ∃ slots, wordLimit ≤ headerSize + (slots + 1) ∧ (slots = arguments ∨
    ∃ operands free callee outer arity entry, s.nodes[s.stack]? = some (.operandStack operands free) ∧
      operands[arguments]? = some callee ∧ s.nodes[callee]? = some (.closure outer arity entry slots))

/-- The faults that an instruction may end in. Leaving a scope may find the frame of a call; reading and
assigning may name a slot that the environment does not have; entering a scope and calling may need a node
that is too large. -/
inductive State.Permits (s : State) : Instruction → Fault → Prop
  | ordinary {i : Instruction} {f : Fault} (h : Ordinary f) : s.Permits i f
  | inCall (h : s.InCall) : s.Permits .exitScope (.heap (.kindMismatch 0 .blockFrame .callFrame))
  | load {a : Address} (h : s.Lacks a) : s.Permits (.load a) (.heap (Node.noSlot a.slot))
  | assign {a : Address} (h : s.Lacks a) : s.Permits (.assign a) (.heap (Node.noSlot a.slot))
  | enterScope {slots : Nat} (h : wordLimit ≤ headerSize + (slots + 1)) :
    s.Permits (.enterScope slots) (.heap (.overflow .nodeSize))
  | call {n : Nat} (h : s.Overloads n) : s.Permits (.call n) (.heap (.overflow .nodeSize))
  | tailCall {n : Nat} (h : s.Overloads n) : s.Permits (.tailCall n) (.heap (.overflow .nodeSize))

variable {E : Fault → Prop} {leaks : Prop} {pins : List Loc} {s : State}

/-- What is permitted does not depend on how many steps there were before. -/
theorem State.Permits.uncount {steps : Nat} {i : Instruction} {f : Fault}
    (h : State.Permits { s with steps := steps } i f) : s.Permits i f := by
  cases h with
  | ordinary h => exact .ordinary h
  | inCall h => exact .inCall h
  | load h => exact .load h
  | assign h => exact .assign h
  | enterScope h => exact .enterScope h
  | call h => exact .call h
  | tailCall h => exact .tailCall h

/-! ## Nodes by role -/

theorem InRole.stack_eq {nodes : List Node} {l : Loc} (h : InRole nodes .stack l) :
    ∃ operands free, nodes[l]? = some (.operandStack operands free) := by
  obtain ⟨n, hn, hp⟩ := h
  cases n with
  | operandStack operands free => exact ⟨operands, free, hn⟩
  | _ => exact hp.elim

theorem InRole.environment_eq {nodes : List Node} {l : Loc} (h : InRole nodes .environment l) :
    ∃ slots outer, nodes[l]? = some (.environment slots outer) := by
  obtain ⟨n, hn, hp⟩ := h
  cases n with
  | environment slots outer => exact ⟨slots, outer, hn⟩
  | _ => exact hp.elim

theorem InRole.call_eq {nodes : List Node} {l : Loc} (h : InRole nodes .call l) :
    ∃ env stack address, nodes[l]? = some (.callFrame (some env) (some stack) address) := by
  obtain ⟨n, hn, hp⟩ := h
  match n, hp with
  | .callFrame (some env) (some stack) address, _ => exact ⟨env, stack, address, hn⟩

theorem InRole.closure_eq {nodes : List Node} {l : Loc} (h : InRole nodes .closure l) :
    ∃ env arity entry stack, nodes[l]? = some (.closure (some env) arity entry stack) := by
  obtain ⟨n, hn, hp⟩ := h
  match n, hp with
  | .closure (some env) arity entry stack, _ => exact ⟨env, arity, entry, stack, hn⟩

/-- A frame is that of a call or that of a block. -/
theorem InRole.frame_cases {nodes : List Node} {l : Loc} (h : InRole nodes .frame l) :
    InRole nodes .call l ∨ ∃ env, nodes[l]? = some (.blockFrame (some env)) := by
  obtain ⟨n, hn, hp⟩ := h
  match n, hp with
  | .callFrame (some _) (some _) _, _ => exact .inl ⟨_, hn, trivial⟩
  | .blockFrame (some env), _ => exact .inr ⟨env, hn⟩

/-- A value can be taken for an argument. -/
theorem InRole.argument {nodes : List Node} {l : Loc} (h : InRole nodes .value l) :
    ∃ n a, nodes[l]? = some n ∧ n.argument l = .ok a := by
  obtain ⟨n, hn, hp⟩ := h
  match n, hp with
  | .boxed _, _ | .closure (some _) .., _ | .primitive _, _ => exact ⟨_, _, hn, rfl⟩

/-! ## Registers -/

theorem safe_jump (hs : s.Sorted) (target : Nat) :
    Safe E leaks pins (jump target) s (fun _ s' => s' = { s with pc := target }) :=
  Safe.modify { hs with } rfl rfl

theorem safe_advance (hs : s.Sorted) :
    Safe E leaks pins advance s (fun _ s' => s' = { s with pc := s.pc + 1 }) :=
  Safe.modify { hs with } rfl rfl

theorem safe_setEnv (hs : s.Sorted) {env : Loc} (he : InRole s.nodes .environment env) :
    Safe E leaks pins (setEnv env) s (fun _ s' => s' = { s with env := env }) :=
  Safe.modify { hs with env := he } rfl rfl

theorem safe_setStack (hs : s.Sorted) {stack : Loc} (ho : InRole s.nodes .stack stack) :
    Safe E leaks pins (setStack stack) s (fun _ s' => s' = { s with stack := stack }) :=
  Safe.modify { hs with stack := ho } rfl rfl

/-- A walk outward stays among environments. -/
theorem safe_outward (hs : s.Sorted) (hp : s.pinned = pins) (frames : Nat) {env : Loc}
    (he : InRole s.nodes .environment env) :
    Safe E leaks pins (liftM (outward env frames) : Act (Option Loc)) s
      (fun found s' => s' = s ∧ outward env frames s.nodes = .ok found s.nodes ∧
        ∀ l, found = some l → InRole s.nodes .environment l) := by
  induction frames generalizing env with
  | zero =>
    refine Safe.pure hs ⟨rfl, rfl, ?_⟩
    rintro _ ⟨⟩
    exact he
  | succ frames ih =>
    obtain ⟨slots, outer, hn⟩ := he.environment_eq
    rw [outward, lift_bind]
    refine Safe.bind (Safe.look hs hn hp (Q := fun found s' => s' = s ∧ found = outer) ⟨rfl, rfl⟩) ?_
    rintro found _ _ _ ⟨rfl, rfl⟩
    cases found with
    | none =>
      refine Safe.pure hs ⟨rfl, outward_outermost hn frames, ?_⟩
      rintro _ ⟨⟩
    | some o =>
      have hwalk := outward_enclosed hn frames
      rw [outward] at hwalk
      rw [hwalk]
      exact ih ((hs.nodes hn).2 o rfl)

theorem safe_argument (hs : s.Sorted) (hp : s.pinned = pins) {l : Loc}
    (hl : InRole s.nodes .value l) :
    Safe E leaks pins (liftM (look l (Node.argument l)) : Act Argument) s (fun _ s' => s' = s) := by
  obtain ⟨n, a, hn, ha⟩ := hl.argument
  refine Safe.look hs hn hp ?_
  rw [ha]

theorem safe_pushFrame (hs : s.Sorted) {frame : Loc} (hf : InRole s.nodes .frame frame) :
    Safe E leaks pins (pushFrame frame) s (fun _ s' => s'.nodes = s.nodes ∧ s'.pinned = s.pinned ∧
      s'.env = s.env ∧ s'.stack = s.stack) := by
  have hs' : State.Sorted { s with control := frame :: s.control } :=
    { hs with
      control := fun l hl => by
        rcases List.mem_cons.mp hl with rfl | hm
        · exact hf
        · exact hs.control l hm }
  refine Safe.bind (Safe.modify (Q := fun _ s' => s' = { s with control := frame :: s.control })
    hs' rfl rfl) ?_
  rintro _ _ _ _ rfl
  exact Safe.modify { hs' with } rfl ⟨rfl, rfl, rfl, rfl⟩

theorem safe_pin (hs : s.Sorted) {l : Loc}
    (hl : InRole s.nodes .environment l ∨ InRole s.nodes .stack l) :
    Safe E leaks pins (pin l) s (fun _ s' => s' = { s with pinned := l :: s.pinned }) := by
  refine Safe.get_bind (Safe.modify ?_ rfl rfl)
  exact
    { hs with
      pinned := fun l' hl' => by
        rcases List.mem_cons.mp hl' with rfl | hm
        · exact hl
        · exact hs.pinned l' hm }

theorem safe_unpin (hs : s.Sorted) {l : Loc} {rest : List Loc} (hp : s.pinned = l :: rest) :
    Safe E leaks pins unpin s (fun l' s' => l = l' ∧ s' = { s with pinned := rest }) := by
  refine Safe.get_bind ?_
  rw [hp]
  refine Safe.bind (Safe.modify (Q := fun _ s' => s' = { s with pinned := rest }) ?_ rfl rfl) ?_
  · exact { hs with pinned := fun l' hl' => hs.pinned l' (by simp [hp, hl']) }
  · rintro _ _ hs' _ rfl
    exact Safe.pure hs' ⟨rfl, rfl⟩

section

variable (hE : ∀ {f : Fault}, Ordinary f → E f)
include hE

theorem safe_environmentAt (hs : s.Sorted) (hp : s.pinned = pins) (frames : Nat) :
    Safe E leaks pins (environmentAt frames) s
      (fun l s' => s = s' ∧ outward s.env frames s.nodes = .ok (some l) s.nodes ∧
        InRole s.nodes .environment l) := by
  refine Safe.get_bind (Safe.bind (safe_outward hs hp frames hs.env) ?_)
  rintro found _ _ _ ⟨rfl, hwalk, hfound⟩
  cases found with
  | none => exact Safe.throw hs (hE trivial) hp
  | some l => exact Safe.pure hs ⟨rfl, hwalk, hfound l rfl⟩

/-! ## Operands -/

theorem safe_push (hs : s.Sorted) (hp : s.pinned = pins) {v : Loc} (hv : InRole s.nodes .value v) :
    Safe E leaks pins (push v) s (fun _ s' => ∃ n, s' = s.put s.stack n) := by
  obtain ⟨operands, free, hn⟩ := hs.stack.stack_eq
  refine Safe.alter hs hn hp ?_
  cases free with
  | zero => exact hE trivial
  | succ free =>
    refine ⟨?_, ?_, _, rfl⟩
    · intro v' hv'
      rcases List.mem_cons.mp hv' with rfl | hm
      · exact hv
      · exact hs.nodes hn v' hm
    · exact plays_operandStack

theorem safe_pop (hs : s.Sorted) (hp : s.pinned = pins) :
    Safe E leaks pins pop s (fun v s' => InRole s.nodes .value v ∧
      ∃ operands free, s.nodes[s.stack]? = some (.operandStack (v :: operands) free) ∧
        s' = s.put s.stack (.operandStack operands (free + 1))) := by
  obtain ⟨operands, free, hn⟩ := hs.stack.stack_eq
  refine Safe.alter hs hn hp ?_
  cases operands with
  | nil => exact hE trivial
  | cons v operands =>
    exact ⟨fun v' hv' => hs.nodes hn v' (by simp [hv']), plays_operandStack,
      hs.nodes hn v (by simp), _, _, hn, rfl⟩

/-- An operand further down, which stays where it is. -/
theorem safe_peek (hs : s.Sorted) (hp : s.pinned = pins) (below : Nat) :
    Safe E leaks pins (liftM (look s.stack (Node.peek below)) : Act Loc) s (fun v s' =>
      (∃ operands free, s.nodes[s.stack]? = some (.operandStack operands free) ∧
        operands[below]? = some v) ∧ s = s') := by
  obtain ⟨operands, free, hstack⟩ := hs.stack.stack_eq
  refine Safe.look hs hstack hp ?_
  cases hv : operands[below]? with
  | none =>
    simp only [Node.peek, hv]
    exact hE trivial
  | some v =>
    simp only [Node.peek, hv]
    exact ⟨⟨operands, free, hstack, hv⟩, trivial⟩

theorem safe_popOperands (n : Nat) {s : State} (hs : s.Sorted) (hp : s.pinned = pins)
    (rest : List Argument) :
    Safe E leaks pins (popOperands rest n) s (fun _ s' => s'.pinned = pins) := by
  induction n generalizing s rest with
  | zero => exact Safe.pure hs hp
  | succ n ih =>
    refine Safe.bind (safe_pop hE hs hp) ?_
    rintro l _ hs₁ hg ⟨hl, _, _, _, rfl⟩
    refine Safe.bind (safe_argument hs₁ hp (hg hl)) ?_
    rintro a _ _ _ rfl
    exact ih hs₁ hp _

/-! ## Frames -/

/-- Unwinding ends at the frame of a call, or with no frames left. -/
theorem safe_unwindBlocks {s : State} (hs : s.Sorted) (hp : s.pinned = pins) :
    Safe E leaks pins (unwindBlocks s.control) s
      (fun _ s' => ∃ frame rest, InRole s.nodes .call frame ∧
        s' = { s with control := frame :: rest }) := by
  generalize hc : s.control = frames
  induction frames generalizing s with
  | nil => exact Safe.throw hs (hE trivial) hp
  | cons frame rest ih =>
    rcases (hs.control frame (by simp [hc])).frame_cases with hcall | ⟨env, hn⟩
    · obtain ⟨env, stack, address, hn⟩ := hcall.call_eq
      refine Safe.bind (Safe.look hs hn hp (Q := fun k s' => k = .callFrame ∧ s = s') ⟨rfl, rfl⟩) ?_
      rintro _ _ _ _ ⟨rfl, rfl⟩
      refine Safe.pure hs ⟨frame, rest, hcall, ?_⟩
      rw [← hc]
    · refine Safe.bind (Safe.look hs hn hp (Q := fun k s' => k = .blockFrame ∧ s = s') ⟨rfl, rfl⟩) ?_
      rintro _ _ _ _ ⟨rfl, rfl⟩
      have hs' : State.Sorted { s with control := rest } :=
        { hs with control := fun l hl => hs.control l (by simp [hc, hl]) }
      refine Safe.bind (Safe.modify (Q := fun _ s' => s' = { s with control := rest }) ?_ rfl ?_) ?_
      · rw [hc]
        exact hs'
      · rw [hc, List.tail_cons]
      · rintro _ _ _ _ rfl
        exact (ih hs' hp rfl).mono id fun hq => hq

theorem safe_leaveBlocks (hs : s.Sorted) (hp : s.pinned = pins) :
    Safe E leaks pins leaveBlocks s (fun _ s' => ∃ frame rest, InRole s.nodes .call frame ∧
      s' = { s with control := frame :: rest }) :=
  Safe.get_bind (safe_unwindBlocks hE hs hp)

theorem safe_popFrame (hs : s.Sorted) (hp : s.pinned = pins) :
    Safe E leaks pins popFrame s (fun frame s' => s.control = frame :: s.control.tail ∧
      s' = { s with control := s.control.tail }) := by
  refine Safe.get_bind ?_
  cases hc : s.control with
  | nil => exact Safe.throw hs (hE trivial) hp
  | cons frame rest =>
    refine Safe.bind (Safe.modify (Q := fun _ s' => s' = { s with control := rest }) ?_ rfl ?_) ?_
    · exact { hs with control := fun l hl => hs.control l (List.mem_of_mem_tail hl) }
    · rw [hc, List.tail_cons]
    · rintro _ _ hs' _ rfl
      exact Safe.pure hs' ⟨rfl, rfl⟩

/-! ## Calls -/

theorem safe_returnFromCall (hs : s.Sorted) (hp : s.pinned = pins) :
    Safe E leaks pins returnFromCall s (fun _ s' => s'.pinned = pins) := by
  refine Safe.bind (safe_pop hE hs hp) ?_
  rintro value s₁ hs₁ hg₁ ⟨hv, _, _, _, rfl⟩
  refine Safe.bind (safe_leaveBlocks hE hs₁ hp) ?_
  rintro _ _ hs₂ hg₂ ⟨frame, rest, hcall, rfl⟩
  refine Safe.bind (safe_popFrame hE hs₂ hp) ?_
  rintro frame' _ hs₃ _ ⟨hframe, rfl⟩
  obtain rfl : frame = frame' := by simpa using hframe
  obtain ⟨env, stack, address, hn⟩ := hcall.call_eq
  have hsorted := hs₃.nodes hn
  refine Safe.bind (Safe.look hs₃ hn hp (Q := fun b s' => b = address ∧ s' = _) ⟨rfl, rfl⟩) ?_
  rintro _ _ _ _ ⟨rfl, rfl⟩
  refine Safe.bind (safe_jump hs₃ _) ?_
  rintro _ _ hs₄ _ rfl
  refine Safe.bind (Safe.look hs₄ hn hp (Q := fun b s' => b = env ∧ s' = _) ⟨rfl, rfl⟩) ?_
  rintro _ _ _ _ ⟨rfl, rfl⟩
  refine Safe.bind (safe_setEnv hs₄ (hsorted.1 _ rfl)) ?_
  rintro _ _ hs₅ _ rfl
  refine Safe.bind (Safe.look hs₅ hn hp (Q := fun b s' => b = stack ∧ s' = _) ⟨rfl, rfl⟩) ?_
  rintro _ _ _ _ ⟨rfl, rfl⟩
  refine Safe.bind (safe_setStack hs₅ (hsorted.2 _ rfl)) ?_
  rintro _ _ hs₆ _ rfl
  refine (safe_push hE hs₆ hp (hg₁ hv)).mono id ?_
  rintro _ _ ⟨_, rfl⟩
  exact hp

theorem safe_applyPrimitive (hs : s.Sorted) (hp : s.pinned = pins) (p : Primitive)
    (args : List Argument) :
    Safe E leaks pins (applyPrimitive p args) s (fun _ s' => s'.pinned = pins) := by
  unfold Safe applyPrimitive
  cases hm : p.meaning args with
  | ok value => exact ⟨{ hs with }, Grows.refl _, hp⟩
  | error e =>
    obtain ⟨context, expected, got, rfl⟩ := p.meaning_error args hm
    exact ⟨hs, Grows.refl _, hE trivial, .inl hp⟩

theorem safe_callPrimitive (room : Option Nat) (hs : s.Sorted) (hp : s.pinned = pins) {callee : Loc}
    (hc : InRole s.nodes (.kind .primitive) callee) (n : Nat) (tail : Bool) :
    Safe E leaks pins (callPrimitive room callee n tail) s (fun _ s' => s'.pinned = pins) := by
  obtain ⟨node, hn, hk⟩ := hc
  cases node <;> simp only [Node.Plays, Node.kind, reduceCtorEq] at hk
  rename_i id
  refine Safe.bind (Safe.look hs hn hp (Q := fun b s' => b = id ∧ s = s') ⟨rfl, rfl⟩) ?_
  rintro _ _ _ _ ⟨rfl, rfl⟩
  cases Primitive.ofId? _ with
  | none => exact Safe.throw hs (hE trivial) hp
  | some p =>
    refine Safe.ite (fun _ => Safe.throw_bind hs (hE trivial) hp) fun _ => ?_
    refine Safe.bind (safe_popOperands hE n hs hp []) ?_
    rintro operands s₁ hs₁ _ hp₁
    refine Safe.bind (safe_pop hE hs₁ hp₁) ?_
    rintro _ _ hs₂ _ ⟨_, _, _, _, rfl⟩
    refine Safe.bind (safe_applyPrimitive hE hs₂ hp₁ p operands) ?_
    rintro result s₃ hs₃ _ hp₃
    refine Safe.bind (Safe.fresh_small hs₃ (.inl hp₃) (fun _ => trivial) (fun _ _ => hE trivial)
      (by simp [Node.cells])
      (Q := fun l s' => l = s₃.nodes.length ∧ s' = s₃.add (.boxed result)) ⟨rfl, rfl⟩) ?_
    rintro _ _ hs₄ _ ⟨rfl, rfl⟩
    refine Safe.bind (safe_push hE hs₄ hp₃ ⟨_, State.add_new, trivial⟩) ?_
    rintro _ _ hs₅ _ ⟨_, rfl⟩
    refine Safe.ite (fun _ => safe_returnFromCall hE hs₅ hp₃) fun _ => ?_
    refine (safe_advance hs₅).mono id ?_
    rintro _ _ rfl
    exact hp₃

/-- The current function waits in a new frame, or its blocks are done with. -/
theorem safe_suspend (hs : s.Sorted) (hp : s.pinned = pins) {frame : Option Loc}
    (hf : ∀ f, frame = some f → ∃ address, s.nodes[f]? = some (.callFrame none none address)) :
    Safe E leaks pins (suspend frame) s (fun _ s' => s'.pinned = pins) := by
  cases frame with
  | none =>
    refine (safe_leaveBlocks hE hs hp).mono id ?_
    rintro _ _ ⟨_, _, _, rfl⟩
    exact hp
  | some f =>
    obtain ⟨address, hn⟩ := hf f rfl
    obtain ⟨slots, outer, he⟩ := hs.env.environment_eq
    obtain ⟨operands, free, ho⟩ := hs.stack.stack_eq
    have hput := hs.put hn (n := .callFrame (some s.env) none address)
      ⟨by rintro _ ⟨⟩; exact hs.env, by rintro _ ⟨⟩⟩ (plays_callFrame (by simp) (by simp))
    refine Safe.get_bind (Safe.bind (Safe.of_eq (setFrameEnv_eq hn rfl he) hput
      (Q := fun _ s' => s' = s.put f (.callFrame (some s.env) none address)) rfl) ?_)
    rintro _ _ hs₁ hg₁ rfl
    obtain ⟨operands, free, ho⟩ := hs₁.stack.stack_eq
    have hn₁ : (s.put f (.callFrame (some s.env) none address)).nodes[f]? = _ := State.put_self hn
    have hput₁ := hs₁.put hn₁ (n := .callFrame (some s.env) (some s.stack) address)
      ⟨by rintro _ ⟨⟩; exact hg₁ hs.env, by rintro _ ⟨⟩; exact hg₁ hs.stack⟩
      (plays_callFrame (by simp) (by simp))
    refine Safe.get_bind (Safe.bind (Safe.of_eq (setFrameStack_eq hn₁ ho) hput₁
      (Q := fun _ s' => s'.nodes[f]? = some (.callFrame (some s.env) (some s.stack) address) ∧
        s'.pinned = pins) ⟨State.put_self hn₁, hp⟩) ?_)
    rintro _ s₂ hs₂ _ ⟨hn₂, hp₂⟩
    refine (safe_pushFrame hs₂ ⟨_, hn₂, trivial⟩).mono id ?_
    rintro _ _ ⟨_, hp₃, _⟩
    exact hp₃.trans hp₂

omit hE in
/-- The arguments, which were operands, are in the slots afterwards. Other nodes are as they were. -/
theorem safe_moveArguments (hs : s.Sorted) (hp : s.pinned = pins) {env callee : Loc}
    {args rest : List Loc} {free : Nat}
    (hstack : s.nodes[s.stack]? = some (.operandStack (args ++ callee :: rest) free))
    (henv : s.nodes[env]? = some (.environment (List.replicate args.length none) none)) :
    Safe E leaks pins (moveArguments env args.length) s (fun _ s' => s'.stack = s.stack ∧
      s'.pinned = pins ∧ s.stack ≠ env ∧
      (∃ free, s'.nodes[s.stack]? = some (.operandStack (callee :: rest) free)) ∧
      (∃ slots, s'.nodes[env]? = some (.environment slots none)) ∧
      ∀ l, l ≠ s.stack → l ≠ env → s'.nodes[l]? = s.nodes[l]?) := by
  have hne : s.stack ≠ env := by
    intro heq
    rw [heq, henv] at hstack
    simp at hstack
  have hvalues := hs.nodes hstack
  obtain ⟨hs₁, hg₁⟩ := hs.put hstack (n := .operandStack (callee :: rest) (free + args.length))
    (fun v hv => hvalues v (List.mem_append_right _ hv)) plays_operandStack
  have henv₁ : (s.put s.stack (.operandStack (callee :: rest) (free + args.length))).nodes[env]? =
      some (.environment (List.replicate args.length none) none) := (State.put_ne hne).trans henv
  have hslots : Node.Sorted (s.put s.stack (.operandStack (callee :: rest)
      (free + args.length))).nodes (.environment (args.reverse.map some ++
        (List.replicate args.length none).drop args.length) none) := by
    refine ⟨fun v hv => ?_, by rintro _ ⟨⟩⟩
    have hmem : v ∈ args := by simpa using hv
    exact hg₁ (hvalues v (List.mem_append_left _ hmem))
  obtain ⟨hs₂, hg₂⟩ := hs₁.put henv₁ hslots
    (plays_environment (by simp) fun k v hv => by simp [List.getElem?_replicate] at hv)
  refine Safe.of_eq (moveArguments_eq hne hstack henv (by simp)) ⟨hs₂, hg₁.trans hg₂⟩
    ⟨rfl, hp, hne, ⟨free + args.length, ?_⟩, ⟨_, State.put_self henv₁⟩, fun l hl hl' => ?_⟩
  · rw [State.put_ne (Ne.symm hne)]
    exact State.put_self hstack
  · rw [State.put_ne (Ne.symm hl'), State.put_ne (Ne.symm hl)]

theorem safe_enterClosure (hs : s.Sorted) (hp : s.pinned = pins) {entry : Nat}
    {frame : Option Loc} {stack env callee : Loc} {args rest : List Loc} {free : Nat}
    (hstack : s.nodes[s.stack]? = some (.operandStack (args ++ callee :: rest) free))
    (hcallee : InRole s.nodes .closure callee)
    (henv : s.nodes[env]? = some (.environment (List.replicate args.length none) none))
    (hnew : InRole s.nodes .stack stack)
    (hframe : ∀ f, frame = some f → ∃ address, s.nodes[f]? = some (.callFrame none none address)) :
    Safe E leaks pins (enterClosure args.length entry frame stack env) s
      (fun _ s' => s'.pinned = pins) := by
  refine Safe.bind (safe_moveArguments hs hp hstack henv) ?_
  rintro _ s₁ hs₁ hg₁ ⟨hreg, hp₁, hne, ⟨free₁, hstack₁⟩, ⟨slots, henv₁⟩, hother⟩
  rw [← hreg] at hstack₁ hne
  -- Below the arguments is the callee, and nothing else.
  refine Safe.bind (safe_pop hE hs₁ hp₁) ?_
  rintro closure s₂ hs₂ hg₂ ⟨_, operands, free₂, hstack₂, rfl⟩
  obtain rfl : callee = closure := by
    rw [hstack₁] at hstack₂
    simp at hstack₂
    exact hstack₂.1.1
  obtain ⟨outer, arity, entry', capacity, hn⟩ := (hg₂ (hg₁ hcallee)).closure_eq
  have houter := hs₂.nodes hn outer rfl
  refine Safe.bind (Safe.look hs₂ hn hp₁ (Q := fun b s' => outer = b ∧ _ = s') ⟨rfl, rfl⟩) ?_
  rintro _ _ _ _ ⟨rfl, rfl⟩
  obtain ⟨slots', outer', hn'⟩ := houter.environment_eq
  have henv₂ := (State.put_ne (n := .operandStack operands (free₂ + 1)) hne).trans henv₁
  have hput := hs₂.put henv₂ (n := .environment slots (some outer))
    ⟨fun v hv => (hs₂.nodes henv₂).1 v hv, by rintro _ ⟨⟩; exact houter⟩
    (plays_environment rfl fun _ v hv => ⟨v, hv⟩)
  refine Safe.bind (Safe.of_eq (setEnclosing_eq henv₂ hn') hput
    (Q := fun _ s' => s' = (s₁.put s₁.stack (.operandStack operands (free₂ + 1))).put env
      (.environment slots (some outer))) rfl) ?_
  rintro _ _ hs₃ hg₃ rfl
  have hframe₃ : ∀ f, frame = some f → ∃ address, ((s₁.put s₁.stack (.operandStack operands
      (free₂ + 1))).put env (.environment slots (some outer))).nodes[f]? =
        some (.callFrame none none address) := by
    intro f hf
    obtain ⟨address, hfn⟩ := hframe f hf
    have hfs : f ≠ s.stack := fun heq => by
      rw [heq, hstack] at hfn
      simp at hfn
    have hfe : f ≠ env := fun heq => by
      rw [heq, henv] at hfn
      simp at hfn
    refine ⟨address, ?_⟩
    rw [State.put_ne (Ne.symm hfe), State.put_ne (by rw [hreg]; exact Ne.symm hfs), hother f hfs hfe]
    exact hfn
  have hgrow := (hg₁.trans hg₂).trans hg₃
  refine Safe.bind (safe_suspend hE hs₃ hp₁ hframe₃) ?_
  rintro _ s₄ hs₄ hg₄ hp₄
  have hrole : InRole s.nodes .environment env := ⟨_, henv, trivial⟩
  refine Safe.bind (safe_setEnv hs₄ (hg₄ (hgrow hrole))) ?_
  rintro _ _ hs₅ _ rfl
  refine Safe.bind (safe_setStack hs₅ (hg₄ (hgrow hnew))) ?_
  rintro _ _ hs₆ _ rfl
  refine (safe_jump hs₆ entry).mono id ?_
  rintro _ _ rfl
  exact hp₄

theorem safe_newFrame (room : Option Nat) (hleaks : leaks) (hs : s.Sorted) (tail : Bool) :
    Safe E leaks pins (newFrame room tail) s (fun frame s' =>
      (frame = none ∧ s' = s) ∨
        frame = some s.nodes.length ∧ s' = s.add (.callFrame none none (s.pc + 1))) := by
  cases tail with
  | true => exact Safe.pure hs (.inl ⟨rfl, rfl⟩)
  | false =>
    refine Safe.get_bind (Safe.bind (Safe.fresh_small hs (.inr hleaks) (fun _ => ⟨by rintro _ ⟨⟩, by rintro _ ⟨⟩⟩)
      (fun _ _ => hE trivial) (by simp [Node.cells])
      (Q := fun l s' => l = s.nodes.length ∧ s' = s.add (.callFrame none none (s.pc + 1)))
      ⟨rfl, rfl⟩) ?_)
    rintro _ _ hs' _ ⟨rfl, rfl⟩
    exact Safe.pure hs' (.inr ⟨rfl, rfl⟩)

theorem safe_callClosure (room : Option Nat) (hleaks : leaks) (hs : s.Sorted) (hp : s.pinned = pins) {callee : Loc}
    {args rest : List Loc} {free : Nat}
    (hstack : s.nodes[s.stack]? = some (.operandStack (args ++ callee :: rest) free))
    (hcallee : InRole s.nodes .closure callee) (tail : Bool)
    (hlarge : s.Overloads args.length → E (.heap (.overflow .nodeSize))) :
    Safe E leaks pins (callClosure room callee args.length tail) s (fun _ s' => s'.pinned = pins) := by
  obtain ⟨outer, arity, entry, capacity, hn⟩ := hcallee.closure_eq
  refine Safe.bind (Safe.look hs hn hp (Q := fun b s' => arity = b ∧ s = s') ⟨rfl, rfl⟩) ?_
  rintro _ _ _ _ ⟨rfl, rfl⟩
  refine Safe.bind (Safe.look hs hn hp (Q := fun b s' => entry = b ∧ s = s') ⟨rfl, rfl⟩) ?_
  rintro _ _ _ _ ⟨rfl, rfl⟩
  refine Safe.bind (Safe.look hs hn hp (Q := fun b s' => capacity = b ∧ s = s') ⟨rfl, rfl⟩) ?_
  rintro _ _ _ _ ⟨rfl, rfl⟩
  refine Safe.ite (fun _ => Safe.throw_bind hs (hE trivial) hp) fun _ => ?_
  -- The new environment and the new operand stack are pinned, and nothing but memory can be short.
  refine Safe.bind (Safe.fresh hs (.inl hp) (n := .environment (List.replicate args.length none) none)
    (fun _ => ⟨by simp, by rintro _ ⟨⟩⟩) (fun _ _ => hE trivial)
    (fun h => hlarge ⟨args.length, by simpa [Node.size, Node.cells] using h, .inl rfl⟩)
    (Q := fun l s' => s.nodes.length = l ∧ s' = s.add _) ⟨rfl, rfl⟩) ?_
  rintro _ _ hs₁ hg₁ ⟨rfl, rfl⟩
  have henv₁ : (s.add (.environment (List.replicate args.length none) none)).nodes[s.nodes.length]? =
    _ := State.add_new
  refine Safe.bind (safe_pin hs₁ (.inl ⟨_, henv₁, trivial⟩)) ?_
  rintro _ _ hs₂ _ rfl
  refine Safe.bind (Safe.fresh hs₂ (.inr hleaks) (n := .operandStack [] capacity) (fun _ => by simp [Node.Sorted])
    (fun _ _ => hE trivial) (fun h => hlarge ⟨capacity, by simpa [Node.size, Node.cells] using h,
      .inr ⟨_, free, callee, some outer, arity, entry, hstack, by simp, hn⟩⟩)
    (Q := fun l s' => _ = l ∧ s' = State.add _ (.operandStack [] capacity)) ⟨rfl, rfl⟩) ?_
  rintro _ _ hs₃ hg₃ ⟨rfl, rfl⟩
  refine Safe.bind (safe_pin hs₃ (.inr ⟨_, State.add_new, trivial⟩)) ?_
  rintro _ _ hs₄ hg₄ rfl
  refine Safe.bind (safe_newFrame hE room hleaks hs₄ tail) ?_
  intro frame s₅ hs₅ hg₅ hframe
  have hold : ∀ {l : Loc} {n : Node},
      (s.add (.environment (List.replicate args.length none) none)).nodes[l]? = some n →
        s₅.nodes[l]? = some n := by
    intro l n hl
    have hl' := State.add_old (n := .operandStack [] capacity) hl
    rcases hframe with ⟨_, rfl⟩ | ⟨_, rfl⟩
    · exact hl'
    · exact State.add_old hl'
  have hregs : s₅.stack = s.stack ∧ s₅.pinned =
      (s.nodes.length + 1) :: s.nodes.length :: s.pinned := by
    rcases hframe with ⟨_, rfl⟩ | ⟨_, rfl⟩ <;> exact ⟨rfl, by simp⟩
  have hframe' : ∀ f, frame = some f → ∃ address, s₅.nodes[f]? = some (.callFrame none none address) := by
    rintro f rfl
    rcases hframe with ⟨heq, _⟩ | ⟨heq, rfl⟩
    · exact absurd heq (by simp)
    · obtain rfl := Option.some.inj heq
      exact ⟨_, State.add_new⟩
  have hnew : InRole s₅.nodes .stack (s.nodes.length + 1) := by
    have hrole := hg₅ (hg₄ ⟨_, State.add_new, trivial⟩ : InRole _ .stack _)
    simpa using hrole
  have hstack₅ : s₅.nodes[s₅.stack]? = some (.operandStack (args ++ callee :: rest) free) := by
    rw [hregs.1]
    exact hold (State.add_old hstack)
  have hclosure₅ : InRole s₅.nodes .closure callee := ⟨_, hold (State.add_old hn), trivial⟩
  refine Safe.bind (safe_unpin hs₅ hregs.2) ?_
  rintro _ _ hs₆ _ ⟨rfl, rfl⟩
  refine Safe.bind (safe_unpin hs₆ rfl) ?_
  rintro _ _ hs₇ _ ⟨rfl, rfl⟩
  exact safe_enterClosure hE hs₇ hp hstack₅ hclosure₅ (hold henv₁) hnew hframe'

theorem safe_call (room : Option Nat) (hleaks : leaks) (hs : s.Sorted) (hp : s.pinned = pins) (n : Nat)
    (tail : Bool) (hlarge : s.Overloads n → E (.heap (.overflow .nodeSize))) :
    Safe E leaks pins (call room n tail) s (fun _ s' => s'.pinned = pins) := by
  refine Safe.get_bind (Safe.bind (safe_peek hE hs hp n) ?_)
  rintro callee _ _ _ ⟨⟨operands, free, hstack, hcallee⟩, rfl⟩
  obtain ⟨node, hn, hk⟩ := hs.nodes hstack callee (List.mem_of_getElem? hcallee)
  refine Safe.bind (Safe.look hs hn hp (Q := fun k s' => node.kind = k ∧ s = s') ⟨rfl, rfl⟩) ?_
  rintro _ _ _ _ ⟨rfl, rfl⟩
  match node, hk with
  | .closure (some outer) arity entry capacity, _ =>
    -- the operands are the arguments, the callee and the rest
    obtain ⟨hlt, hget⟩ := List.getElem?_eq_some_iff.mp hcallee
    have hsplit : operands = operands.take n ++ callee :: operands.drop (n + 1) := by
      rw [← hget, List.getElem_cons_drop, List.take_append_drop]
    have hlen : (operands.take n).length = n := List.length_take_of_le hlt.le
    rw [hsplit] at hstack
    have hsafe := safe_callClosure hE room hleaks hs hp hstack ⟨_, hn, trivial⟩ tail
      (hlen.symm ▸ hlarge)
    rwa [hlen] at hsafe
  | .primitive id, _ => exact safe_callPrimitive hE room hs hp ⟨_, hn, rfl⟩ n tail
  | .boxed value, _ =>
    refine Safe.bind (Safe.of_eq (typeNameOf_eq hn rfl) ⟨hs, Grows.refl _⟩
      (Q := fun _ s' => s = s') rfl) ?_
    rintro name _ _ _ rfl
    exact Safe.throw hs (hE trivial) hp

/-! ## The other instructions -/

theorem safe_loadConstant (room : Option Nat) (hs : s.Sorted) (hp : s.pinned = pins)
    (value : Literal) :
    Safe E leaks pins (loadConstant room value) s (fun _ s' => s'.pinned = pins) := by
  refine Safe.bind (Safe.fresh_small hs (.inl hp) (fun _ => trivial) (fun _ _ => hE trivial)
    (by simp [Node.cells])
    (Q := fun l s' => s.nodes.length = l ∧ s' = s.add (.boxed value)) ⟨rfl, rfl⟩) ?_
  rintro _ _ hs₁ _ ⟨rfl, rfl⟩
  refine Safe.bind (safe_push hE hs₁ hp ⟨_, State.add_new, trivial⟩) ?_
  rintro _ _ hs₂ _ ⟨_, rfl⟩
  refine (safe_advance hs₂).mono id ?_
  rintro _ _ rfl
  exact hp

theorem safe_load (hs : s.Sorted) (hp : s.pinned = pins) (source : Address)
    (hslot : s.Lacks source → E (.heap (Node.noSlot source.slot))) :
    Safe E leaks pins (load source) s (fun _ s' => s'.pinned = pins) := by
  refine Safe.bind (safe_environmentAt hE hs hp source.frame) ?_
  rintro env _ _ _ ⟨rfl, hwalk, henv⟩
  obtain ⟨slots, outer, hn⟩ := henv.environment_eq
  refine Safe.bind (Safe.look hs hn hp (Q := fun found s' => slots[source.slot]? = some found ∧ s = s')
    ?_) ?_
  · cases hi : slots[source.slot]? with
    | none =>
      simp only [Node.slot?, hi]
      exact hslot ⟨env, slots, outer, hwalk, hn, List.getElem?_eq_none_iff.mp hi⟩
    | some found => simp [Node.slot?, hi]
  rintro found _ _ _ ⟨hfound, rfl⟩
  cases found with
  | none => exact Safe.throw hs (hE trivial) hp
  | some value =>
    refine Safe.bind (safe_push hE hs hp ((hs.nodes hn).1 value (List.mem_of_getElem? hfound))) ?_
    rintro _ _ hs₁ _ ⟨_, rfl⟩
    refine (safe_advance hs₁).mono id ?_
    rintro _ _ rfl
    exact hp

theorem safe_assign (hs : s.Sorted) (hp : s.pinned = pins) (target : Address)
    (hslot : s.Lacks target → E (.heap (Node.noSlot target.slot))) :
    Safe E leaks pins (assign target) s (fun _ s' => s'.pinned = pins) := by
  refine Safe.get_bind (Safe.bind (safe_peek hE hs hp 0) ?_)
  rintro value _ _ _ ⟨⟨operands, free, hstack, hget⟩, rfl⟩
  have hvalue := hs.nodes hstack value (List.mem_of_getElem? hget)
  refine Safe.bind (safe_environmentAt hE hs hp target.frame) ?_
  rintro env _ _ _ ⟨rfl, hwalk, henv⟩
  obtain ⟨slots, outer, hn⟩ := henv.environment_eq
  refine Safe.bind (Safe.alter hs hn hp (Q := fun _ s' => s'.pinned = pins) ?_) ?_
  · simp only [Node.setSlot]
    by_cases hlt : target.slot < slots.length
    · rw [if_pos hlt]
      refine ⟨⟨fun v hv => ?_, (hs.nodes hn).2⟩, plays_environment (by simp) fun k v hv => ?_, hp⟩
      · rcases List.mem_or_eq_of_mem_set hv with hm | heq
        · exact (hs.nodes hn).1 v hm
        · obtain rfl := Option.some.inj heq
          exact hvalue
      · by_cases hk : target.slot = k
        · subst hk
          exact ⟨_, List.getElem?_set_self hlt⟩
        · exact ⟨v, (List.getElem?_set_ne hk).trans hv⟩
    · rw [if_neg hlt]
      exact hslot ⟨env, slots, outer, hwalk, hn, Nat.le_of_not_lt hlt⟩
  · rintro _ s₁ hs₁ _ hp₁
    refine (safe_advance hs₁).mono id ?_
    rintro _ _ rfl
    exact hp₁

theorem safe_jumpIfFalse (hs : s.Sorted) (hp : s.pinned = pins) (target : Nat) :
    Safe E leaks pins (jumpIfFalse target) s (fun _ s' => s'.pinned = pins) := by
  refine Safe.bind (safe_pop hE hs hp) ?_
  rintro l _ hs₁ hg ⟨hl, _, _, _, rfl⟩
  refine Safe.bind (safe_argument hs₁ hp (hg hl)) ?_
  rintro a _ hs₂ _ rfl
  split
  · refine (safe_advance hs₂).mono id ?_
    rintro _ _ rfl
    exact hp
  · refine (safe_jump hs₂ target).mono id ?_
    rintro _ _ rfl
    exact hp
  · exact Safe.throw hs₂ (hE trivial) hp

theorem safe_enterScope (room : Option Nat) (hs : s.Sorted) (hp : s.pinned = pins) (slots : Nat)
    (hlarge : wordLimit ≤ headerSize + (slots + 1) → E (.heap (.overflow .nodeSize))) :
    Safe E leaks pins (enterScope room slots) s (fun _ s' => s'.pinned = pins) := by
  refine Safe.bind (Safe.fresh_small hs (.inl hp) (n := .blockFrame none) (fun _ => by rintro _ ⟨⟩)
    (fun _ _ => hE trivial) (by simp [Node.cells])
    (Q := fun l s' => s.nodes.length = l ∧ s' = s.add _) ⟨rfl, rfl⟩) ?_
  rintro _ _ hs₁ _ ⟨rfl, rfl⟩
  obtain ⟨slots₁, outer₁, he₁⟩ := hs₁.env.environment_eq
  have hput₁ := hs₁.put State.add_new (n := .blockFrame (some s.env))
    (by rintro _ ⟨⟩; exact hs₁.env) plays_blockFrame
  refine Safe.get_bind (Safe.bind (Safe.of_eq (setFrameEnv_eq State.add_new rfl he₁) hput₁
    (Q := fun _ s' => InRole s'.nodes .frame s.nodes.length ∧ s'.pinned = pins)
    ⟨⟨_, State.put_self State.add_new, trivial⟩, hp⟩) ?_)
  rintro _ s₂ hs₂ _ ⟨hframe, hp₂⟩
  refine Safe.bind (safe_pushFrame hs₂ hframe) ?_
  rintro _ s₃ hs₃ _ ⟨_, hp₃, _, _⟩
  refine Safe.bind (Safe.fresh hs₃ (.inl (hp₃.trans hp₂)) (n := .environment (List.replicate slots none) none)
    (fun _ => ⟨by simp, by rintro _ ⟨⟩⟩) (fun _ _ => hE trivial)
    (fun h => hlarge (by simpa [Node.size, Node.cells] using h))
    (Q := fun l s' => s₃.nodes.length = l ∧ s' = s₃.add _) ⟨rfl, rfl⟩) ?_
  rintro _ _ hs₄ _ ⟨rfl, rfl⟩
  obtain ⟨slots₄, outer₄, he₄⟩ := hs₄.env.environment_eq
  have hput₄ := hs₄.put State.add_new (n := .environment (List.replicate slots none) (some s₃.env))
    ⟨by simp, by rintro _ ⟨⟩; exact hs₄.env⟩ (plays_environment rfl fun _ v hv => ⟨v, hv⟩)
  refine Safe.get_bind (Safe.bind (Safe.of_eq (setEnclosing_eq State.add_new he₄) hput₄
    (Q := fun _ s' => InRole s'.nodes .environment s₃.nodes.length ∧ s'.pinned = pins)
    ⟨⟨_, State.put_self State.add_new, trivial⟩, hp₃.trans hp₂⟩) ?_)
  rintro _ s₅ hs₅ _ ⟨henv, hp₅⟩
  refine Safe.bind (safe_setEnv hs₅ henv) ?_
  rintro _ _ hs₆ _ rfl
  refine (safe_advance hs₆).mono id ?_
  rintro _ _ rfl
  exact hp₅

theorem safe_exitScope (hs : s.Sorted) (hp : s.pinned = pins)
    (hcall : s.InCall → E (.heap (.kindMismatch 0 .blockFrame .callFrame))) :
    Safe E leaks pins exitScope s (fun _ s' => s'.pinned = pins) := by
  refine Safe.bind (safe_popFrame hE hs hp) ?_
  rintro frame _ hs₁ hg ⟨hframe, rfl⟩
  rcases (hs.control frame (by rw [hframe]; simp)).frame_cases with hrole | ⟨env, hn⟩
  · obtain ⟨env, stack, address, hn⟩ := hrole.call_eq
    exact Safe.bind (Safe.look hs₁ hn hp (Q := fun _ _ => False) (hcall ⟨frame, _, hframe, hrole⟩))
      fun _ _ => False.elim
  · refine Safe.bind (Safe.look hs₁ hn hp (Q := fun _ s' => s' = _) rfl) ?_
    rintro _ _ _ _ rfl
    refine Safe.bind (Safe.look hs₁ hn hp (Q := fun b s' => env = b ∧ s' = _) ⟨rfl, rfl⟩) ?_
    rintro _ _ _ _ ⟨rfl, rfl⟩
    refine Safe.bind (safe_setEnv hs₁ (hs₁.nodes hn env rfl)) ?_
    rintro _ _ hs₂ _ rfl
    refine (safe_advance hs₂).mono id ?_
    rintro _ _ rfl
    exact hp

theorem safe_loadFunction (room : Option Nat) (hs : s.Sorted) (hp : s.pinned = pins)
    (arity entry stack : Nat) :
    Safe E leaks pins (loadFunction room arity entry stack) s (fun _ s' => s'.pinned = pins) := by
  refine Safe.bind (Safe.fresh_small hs (.inl hp) (n := .closure none arity entry stack) (fun _ => by rintro _ ⟨⟩)
    (fun _ _ => hE trivial) (by simp [Node.cells])
    (Q := fun l s' => s.nodes.length = l ∧ s' = s.add _) ⟨rfl, rfl⟩) ?_
  rintro _ _ hs₁ _ ⟨rfl, rfl⟩
  obtain ⟨slots, outer, he⟩ := hs₁.env.environment_eq
  have hput := hs₁.put State.add_new (n := .closure (some s.env) arity entry stack)
    (by rintro _ ⟨⟩; exact hs₁.env) plays_closure
  refine Safe.get_bind (Safe.bind (Safe.of_eq (setClosureEnv_eq State.add_new he) hput
    (Q := fun _ s' => InRole s'.nodes .value s.nodes.length ∧ s'.pinned = pins)
    ⟨⟨_, State.put_self State.add_new, trivial⟩, hp⟩) ?_)
  rintro _ s₂ hs₂ _ ⟨hvalue, hp₂⟩
  refine Safe.bind (safe_push hE hs₂ hp₂ hvalue) ?_
  rintro _ _ hs₃ _ ⟨_, rfl⟩
  refine (safe_advance hs₃).mono id ?_
  rintro _ _ rfl
  exact hp₂

theorem safe_finish (hs : s.Sorted) (hp : s.pinned = pins) :
    Safe E leaks pins finish s (fun _ s' => s'.pinned = pins) := by
  obtain ⟨operands, free, hstack⟩ := hs.stack.stack_eq
  refine Safe.get_bind (Safe.bind (Safe.look hs hstack hp (Q := fun _ s' => s = s') rfl) ?_)
  rintro depth _ _ _ rfl
  refine Safe.ite (fun _ => Safe.throw_bind hs (hE trivial) hp) fun _ => ?_
  refine Safe.bind (safe_pop hE hs hp) ?_
  rintro l _ hs₁ hg ⟨hl, _, _, _, rfl⟩
  refine Safe.bind (safe_argument hs₁ hp (hg hl)) ?_
  rintro a _ hs₂ _ rfl
  cases a with
  | literal value => exact Safe.pure hs₂ hp
  | function identity arity => exact Safe.pure hs₂ hp
  | primitive id => exact Safe.pure hs₂ hp

end

/-! ## Turns -/

/-- Every instruction keeps the invariant, and fails with what it permits only. -/
theorem safe_execute (room : Option Nat) (i : Instruction) (hs : s.Sorted) (hp : s.pinned = pins) :
    Safe (s.Permits i) i.IsCall pins (execute room i) s (fun _ s' => s'.pinned = pins) := by
  have hE : ∀ {f : Fault}, Ordinary f → s.Permits i f := .ordinary
  have unit : ∀ {x : Act Unit}, Safe (s.Permits i) i.IsCall pins x s (fun _ s' => s'.pinned = pins) →
      Safe (s.Permits i) i.IsCall pins (do x; return none : Act (Option Answer)) s (fun _ s' => s'.pinned = pins) :=
    fun hx => Safe.bind hx fun hs' _ hq => Safe.pure hs' hq
  cases i with
  | loadConstant value => exact unit (safe_loadConstant hE room hs hp value)
  | load source => exact unit (safe_load hE hs hp source .load)
  | assign target => exact unit (safe_assign hE hs hp target .assign)
  | jumpIfFalse target => exact unit (safe_jumpIfFalse hE hs hp target)
  | jump target => exact unit ((safe_jump hs target).mono id (by rintro _ _ rfl; exact hp))
  | pop =>
    refine Safe.bind (safe_pop hE hs hp) ?_
    rintro _ _ hs₁ _ ⟨_, _, _, _, rfl⟩
    refine Safe.bind (safe_advance hs₁) ?_
    rintro _ _ hs₂ _ rfl
    exact Safe.pure hs₂ hp
  | enterScope slots => exact unit (safe_enterScope hE room hs hp slots .enterScope)
  | exitScope => exact unit (safe_exitScope hE hs hp .inCall)
  | loadFunction arity entry stack => exact unit (safe_loadFunction hE room hs hp arity entry stack)
  | call n => exact unit (safe_call hE room trivial hs hp n false .call)
  | tailCall n => exact unit (safe_call hE room trivial hs hp n true .tailCall)
  | ret => exact unit (safe_returnFromCall hE hs hp)
  | done => exact Safe.bind (safe_finish hE hs hp) fun hs' _ hq => Safe.pure hs' hq

theorem safe_countStep (limit : Option Nat) (hs : s.Sorted) (hp : s.pinned = pins)
    (hE : ∀ {f : Fault}, Ordinary f → E f) :
    Safe E leaks pins (countStep limit) s (fun _ s' => s' = { s with steps := s.steps + 1 }) := by
  have hs' : State.Sorted { s with steps := s.steps + 1 } := { hs with }
  refine Safe.bind (Safe.modify (Q := fun _ s' => s' = { s with steps := s.steps + 1 }) hs' rfl rfl) ?_
  rintro _ _ _ _ rfl
  cases limit with
  | none => exact Safe.pure hs' rfl
  | some limit =>
    exact Safe.get_bind (Safe.ite (fun _ => Safe.throw hs' (hE trivial) hp) fun _ => Safe.pure hs' rfl)

/-- A turn as an action. -/
theorem safe_instruction (room limit : Option Nat) (i : Instruction) (hs : s.Sorted) :
    Safe (s.Permits i) i.IsCall s.pinned (do countStep limit; execute room i) s
      (fun _ s' => s'.pinned = s.pinned) := by
  refine Safe.bind (safe_countStep limit hs rfl (.ordinary)) ?_
  rintro _ _ hs' _ rfl
  exact (safe_execute room i hs' rfl).mono State.Permits.uncount id

/-- Nodes keep their roles through every turn. -/
theorem State.Sorted.turn_grows (hs : s.Sorted) (room limit : Option Nat) (program : Program) :
    Grows s.nodes (Ideal.turn room limit program s).2.nodes := by
  unfold Ideal.turn
  cases program.code[s.pc]? with
  | none => exact Grows.refl _
  | some i =>
    have hsafe := safe_instruction room limit i hs
    unfold Safe at hsafe
    dsimp only
    cases hr : (do countStep limit; execute room i) s with
    | ok outcome s' =>
      rw [hr] at hsafe
      exact hsafe.2.1
    | error fault s' =>
      rw [hr] at hsafe
      exact hsafe.2.1

/-- Every turn keeps the invariant. If it fails, then for a reason that the instruction permits; what is
pinned changes only if a call finds memory short. -/
theorem State.Sorted.turn (hs : s.Sorted) (room limit : Option Nat) (program : Program) :
    (Ideal.turn room limit program s).2.Sorted ∧
      (∀ failure, (Ideal.turn room limit program s).1 = .error failure →
        Ordinary failure.fault ∨ ∃ i, program.code[s.pc]? = some i ∧ s.Permits i failure.fault) ∧
      ((Ideal.turn room limit program s).2.pinned = s.pinned ∨
        ∃ i failure, program.code[s.pc]? = some i ∧ i.IsCall ∧
          (Ideal.turn room limit program s).1 = .error failure ∧
            failure.fault.kind = .outOfMemory) := by
  unfold Ideal.turn
  cases hi : program.code[s.pc]? with
  | none =>
    refine ⟨hs, ?_, .inl rfl⟩
    rintro _ ⟨⟩
    exact .inl trivial
  | some i =>
    have hsafe := safe_instruction room limit i hs
    unfold Safe at hsafe
    dsimp only
    cases hr : (do countStep limit; execute room i) s with
    | ok outcome s' =>
      rw [hr] at hsafe
      refine ⟨hsafe.1, ?_, .inl hsafe.2.2⟩
      rintro _ ⟨⟩
    | error fault s' =>
      rw [hr] at hsafe
      refine ⟨hsafe.1, ?_, hsafe.2.2.2.imp_right fun h => ⟨i, _, rfl, h.1, rfl, by simpa [Failure.ofFault] using h.2⟩⟩
      rintro _ ⟨⟩
      exact .inr ⟨i, rfl, by simpa [Failure.ofFault] using hsafe.2.2.1⟩

end Ideal

end ClosureMachine
