import ClosureMachine.Proofs.CodeSafety
import ClosureMachine.Proofs.Compile.Flow
import ClosureMachine.Proofs.Ideal.Constants

/-!
# Passages between activations

Most moves stay in the activation that runs. Those that do not are of five kinds: they enter or leave a scope, call a
closure, hand the activation over to a closure, or return from it. A `Passage` says which of them a move is and keeps
what has to do with frames and operand stacks; what the instruction was for is left out.

Whether `call` calls a closure depends on what lies under its arguments, and so does whether `tailCall` returns: a
primitive function is done at once.
-/

set_option autoImplicit false

namespace ClosureMachine

namespace Instruction

/-- The instruction calls a closure and waits for it, if under its arguments there is something of the given kind. -/
def callsClosure (calleeKind? : Nat → Option Kind) : Instruction → Bool
  | .call n => calleeKind? n == some .closure
  | _ => false

/-- The instruction returns to a caller, if under its arguments there is something of the given kind. -/
def returns (calleeKind? : Nat → Option Kind) : Instruction → Bool
  | .ret => true
  | .tailCall n => calleeKind? n == some .primitive
  | _ => false

theorem not_callsClosure_of_returns {calleeKind? : Nat → Option Kind} {i : Instruction}
    (h : i.returns calleeKind? = true) : i.callsClosure calleeKind? = false := by
  cases i with
  | call n => cases h
  | _ => rfl

end Instruction

namespace Ideal

/-- The kind of what lies under the `n` top operands. -/
def Core.calleeKind? (c : Core) (n : Nat) : Option Kind := do
  let stack ← c.nodes[c.stack]?
  let callee ← (stack.peek n).toOption
  return (← c.nodes[callee]?).kind

theorem Core.calleeKind?_eq {c : Core} {locs operands : List Loc} {callee : Loc} {free : Nat} {n : Node}
    (hs : c.nodes[c.stack]? = some (.operandStack (locs ++ callee :: operands) free))
    (hcallee : c.nodes[callee]? = some n) : c.calleeKind? locs.length = some n.kind := by
  simp [Core.calleeKind?, hs, hcallee, Node.peek, Except.toOption]

/-- A frame of a block. -/
def IsBlock (nodes : List Node) (l : Loc) : Prop := ∃ env, nodes[l]? = some (.blockFrame env)

theorem not_isBlock {nodes : List Node} {frame : Loc} {n : Node} (hn : nodes[frame]? = some n)
    (hk : n.kind = .callFrame) : ¬ IsBlock nodes frame := by
  intro ⟨env, hblock⟩
  cases hn.symm.trans hblock
  cases hk

theorem IsBlock.later {used : List Loc} {nodes nodes' : List Node} {l : Loc} (h : IsBlock nodes l)
    (hl : Later True used nodes nodes') : IsBlock nodes' l := by
  obtain ⟨env, hn⟩ := h
  exact ⟨env, hl.keep hn nofun nofun⟩

/-- What a move has to do with activations. -/
inductive Passage (program : Program) (c c' : Core) : Prop
  /-- The activation goes on. -/
  | stays {i : Instruction} (hi : program.code[c.pc]? = some i) (hnext : c'.pc ∈ i.successors c.pc)
      (hscopes : i.scopeEffect = 0) (hcalls : i.callsClosure c.calleeKind? = false)
      (hreturns : i.returns c.calleeKind? = false) (hnodes : Later True [c.stack] c.nodes c'.nodes)
      (hstack : c'.stack = c.stack) (hcontrol : c'.control = c.control)
  /-- A scope is entered. -/
  | enters {slots : Nat} {frame : Loc} {env : Option Loc} (hi : program.code[c.pc]? = some (.enterScope slots))
      (hpc : c'.pc = c.pc + 1) (hnodes : Later True [c.stack] c.nodes c'.nodes) (hstack : c'.stack = c.stack)
      (hnew : c.nodes.length ≤ frame) (hframe : c'.nodes[frame]? = some (.blockFrame env))
      (hcontrol : c'.control = frame :: c.control)
  /-- The innermost scope is left. -/
  | exits {frame : Loc} {env : Option Loc} {rest : List Loc} (hi : program.code[c.pc]? = some .exitScope)
      (hpc : c'.pc = c.pc + 1) (hnodes : Later True [c.stack] c.nodes c'.nodes) (hstack : c'.stack = c.stack)
      (hc : c.control = frame :: rest) (hframe : c.nodes[frame]? = some (.blockFrame env))
      (hcontrol : c'.control = rest)
  /-- A closure is called. Its arguments are taken off the stack, on which nothing else changes. -/
  | calls {n entry capacity free : Nat} {callee frame env : Loc} {args operands : List Loc}
      (hi : program.code[c.pc]? = some (.call n)) (hn : args.length = n)
      (hs : c.nodes[c.stack]? = some (.operandStack (args ++ callee :: operands) free))
      (hcallee : c.nodes[callee]? = some (.closure (some env) n entry capacity))
      (hnodes : Later True [c.stack] c.nodes c'.nodes)
      (hrest : c'.nodes[c.stack]? = some (.operandStack operands (free + n + 1)))
      (hnew : c.nodes.length ≤ frame)
      (hframe : c'.nodes[frame]? = some (.callFrame (some c.env) (some c.stack) (c.pc + 1)))
      (hpc : c'.pc = entry) (hstack : c.nodes.length ≤ c'.stack) (hcontrol : c'.control = frame :: c.control)
  /-- A closure takes over. The frames of blocks go, that of the call stays. -/
  | hands {n entry capacity : Nat} {callee frame env : Loc} {node : Node} {blocks rest : List Loc}
      (hi : program.code[c.pc]? = some (.tailCall n)) (hkind : c.calleeKind? n = some .closure)
      (hcallee : c.nodes[callee]? = some (.closure (some env) n entry capacity))
      (hnodes : Later True [c.stack] c.nodes c'.nodes) (hc : c.control = blocks ++ frame :: rest)
      (hb : ∀ l ∈ blocks, IsBlock c.nodes l)
      (hframe : c.nodes[frame]? = some node) (hk : node.kind = .callFrame)
      (hpc : c'.pc = entry) (hstack : c.nodes.length ≤ c'.stack) (hcontrol : c'.control = frame :: rest)
  /-- A caller goes on, with a value on its stack. -/
  | returns {i : Instruction} {v env stack frame : Loc} {address free : Nat} {blocks rest operands : List Loc}
      (hi : program.code[c.pc]? = some i) (hreturns : i.returns c.calleeKind? = true)
      (hc : c.control = blocks ++ frame :: rest)
      (hb : ∀ l ∈ blocks, IsBlock c.nodes l)
      (hframe : c.nodes[frame]? = some (.callFrame (some env) (some stack) address))
      (hs : c.nodes[stack]? = some (.operandStack operands (free + 1)))
      (hnodes : Later True [c.stack, stack] c.nodes c'.nodes)
      (hresult : c'.nodes[stack]? = some (.operandStack (v :: operands) free))
      (hpc : c'.pc = address) (henv : c'.env = env) (hstack : c'.stack = stack) (hcontrol : c'.control = rest)

/-- Every move is one of them. -/
theorem Move.passage {program : Program} {c c' : Core} (h : Move program c c') : Passage program c c' := by
  cases h with
  | loadConstant hi hs | loadFunction hi _ hs =>
    exact .stays hi (List.mem_singleton_self _) rfl rfl rfl
      ((Later.append ..).trans (.use (append_old hs) List.mem_cons_self)) rfl rfl
  | load hi _ _ _ hs | pop hi hs =>
    exact .stays hi (List.mem_singleton_self _) rfl rfl rfl (.use hs List.mem_cons_self) rfl rfl
  | assign hi _ henv =>
    exact .stays hi (List.mem_singleton_self _) rfl rfl rfl
      (.set henv (.slots trivial (List.length_set ..))) rfl rfl
  | jump hi => exact .stays hi (List.mem_singleton_self _) rfl rfl rfl (.refl ..) rfl rfl
  | @jumpIfFalse target l b _ _ hi hs =>
    refine .stays hi ?_ rfl rfl rfl (.use hs List.mem_cons_self) rfl rfl
    cases b <;> simp [Instruction.successors]
  | @enterScope slots _ _ hi =>
    have hframe : (c.nodes ++ [.blockFrame (some c.env), .environment (List.replicate slots none) (some c.env)])[
        c.nodes.length]? = some (.blockFrame (some c.env)) := by simp
    exact .enters hi rfl (.append ..) rfl (Nat.le_refl _) hframe rfl
  | exitScope hi hc hframe => exact .exits hi rfl (.refl ..) rfl hc hframe rfl
  | callPrimitive hi hs hcallee =>
    refine .stays hi (List.mem_singleton_self _) rfl ?_ rfl
      ((Later.append ..).trans (.use (append_old hs) List.mem_cons_self)) rfl rfl
    rw [Instruction.callsClosure, Core.calleeKind?_eq hs hcallee]
    rfl
  | callClosure hi hs hcallee =>
    have hlt := lt_of_getElem? hs
    refine .calls hi rfl hs hcallee ((Later.use hs List.mem_cons_self).trans (.append ..)) ?_ (Nat.le_add_right _ 2)
      (by simp) rfl (Nat.le_succ _) rfl
    exact append_old (List.getElem?_set_self hlt)
  | tailCallClosure hi hs hcallee _ _ hc hb hframe hk =>
    exact .hands hi (Core.calleeKind?_eq hs hcallee) hcallee ((Later.use hs List.mem_cons_self).trans (.append ..)) hc
      hb hframe hk rfl (Nat.le_succ _) rfl
  | tailCallPrimitive hi hs hcallee _ _ _ _ hc hb hframe hstack hne =>
    have hstack' : ∀ more n, ((c.nodes ++ more).set c.stack n)[_]? = _ :=
      fun more n => (List.getElem?_set_ne hne).trans (append_old hstack)
    refine .returns hi ?_ hc hb hframe hstack ((Later.append ..).trans
      ((Later.use (append_old hs) List.mem_cons_self).trans (.use (hstack' _ _) (by simp))))
      (List.getElem?_set_self (lt_of_getElem? (hstack' _ _))) rfl rfl rfl rfl
    rw [Instruction.returns, Core.calleeKind?_eq hs hcallee]
    rfl
  | ret hi hs hc hb hframe hstack hne =>
    have hstack' : ∀ n, (c.nodes.set c.stack n)[_]? = _ := fun n => (List.getElem?_set_ne hne).trans hstack
    exact .returns hi rfl hc hb hframe hstack ((Later.use hs List.mem_cons_self).trans (.use (hstack' _) (by simp)))
      (List.getElem?_set_self (lt_of_getElem? (hstack' _))) rfl rfl rfl rfl

end Ideal

/-! ## In memory -/

namespace Machine

/-- The kind of what lies under the `n` top operands. -/
def calleeKind? (m : Machine) (n : Nat) : Option Kind :=
  ((do Heap.kind (← OperandStack.peek m.registers.stack n) : Probe Kind) m.heap).toOption

/-- The machine has come to an instruction that calls a closure and waits for it. -/
def callsClosure (program : Program) (m : Machine) : Bool :=
  program.code[m.registers.pc]?.any (·.callsClosure m.calleeKind?)

/-- The machine has come to an instruction that returns to a caller. -/
def returns (program : Program) (m : Machine) : Bool :=
  program.code[m.registers.pc]?.any (·.returns m.calleeKind?)

end Machine

theorem Rel.calleeKind?_eq {room : Nat} {w : World} {m : Machine} {s : Ideal.State} (hrel : Rel room w m s) :
    m.calleeKind? = s.core.calleeKind? := by
  funext n
  obtain ⟨node, hnode, hplaced⟩ := hrel.rep.placed hrel.stack
  have hsame := hplaced.answers_peek n
  rw [Machine.calleeKind?, Actions.look_bind, Ideal.Core.calleeKind?,
    show s.core.nodes[s.core.stack]? = some node from hnode]
  cases hask : node.peek n with
  | error e =>
    rw [hask] at hsame
    cases hpeek : OperandStack.peek m.registers.stack n m.heap with
    | error e' => simp [hask, Except.toOption]
    | ok r =>
      rw [hpeek] at hsame
      exact hsame.elim
  | ok l =>
    rw [hask] at hsame
    obtain ⟨r, hpeek, hat⟩ := hsame.exists_of_ok
    obtain ⟨callee, hcallee, hplaced'⟩ := hrel.rep.placed hat
    have hcallee' : s.core.nodes[l]? = some callee := hcallee
    simp [hask, hpeek, hplaced'.kind_eq, hcallee', Except.toOption]

end ClosureMachine
