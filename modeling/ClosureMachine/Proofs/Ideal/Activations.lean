import ClosureMachine.Proofs.Compile.Points
import ClosureMachine.Proofs.Ideal.Boot
import ClosureMachine.Proofs.Ideal.Instructions
import ClosureMachine.Proofs.Ideal.Later

/-!
# Compiled programs and their activations

`Point` says what is known at an address before the program runs. Here it becomes an invariant of runs: the
activation that is running, and every one that waits for it, has the operands, the environments and the block
frames that are known at its address (`Typed`). Suspended activations are one operand short, the
value that a return will bring.

A turn keeps the invariant, gives the answer, or fails for a reason that lies in the program and not in its
code (`InOrder.next`).
-/

set_option autoImplicit false

namespace ClosureMachine.Ideal

/-! ## Environments -/

/-- The environments from the node on outward have these sizes, and there are no others. -/
inductive Chain (nodes : List Node) : (sizes : List Nat) → (env : Option Loc) → Prop
  | nil : Chain nodes [] none
  | cons {env : Loc} {slots : List (Option Loc)} {outer : Option Loc} {sizes : List Nat}
      (henv : nodes[env]? = some (.environment slots outer)) (rest : Chain nodes sizes outer) :
      Chain nodes (slots.length :: sizes) (some env)

/-- The blocks are the frames of the scopes that were entered last. Each keeps the environment around its
scope. -/
inductive Entered (nodes : List Node) : (inner : List Nat) → (env : Loc) → (blocks : List Loc) → Prop
  | nil {env : Loc} : Entered nodes [] env []
  | cons {n : Nat} {inner : List Nat} {env outer frame : Loc} {slots : List (Option Loc)} {blocks : List Loc}
      (henv : nodes[env]? = some (.environment slots (some outer)))
      (hframe : nodes[frame]? = some (.blockFrame (some outer))) (rest : Entered nodes inner outer blocks) :
      Entered nodes (n :: inner) env (frame :: blocks)

section

variable {program : Program} {nodes nodes' : List Node} {written : Prop} {used : List Loc} {env : Loc}
  {inner sizes : List Nat} {blocks : List Loc}

theorem Chain.later {env : Option Loc} (h : Chain nodes sizes env) (hl : Later written used nodes nodes') :
    Chain nodes' sizes env := by
  induction h with
  | nil => exact .nil
  | cons henv _ ih =>
    obtain ⟨slots', hlen, henv'⟩ := hl.keep_environment henv
    exact hlen ▸ .cons henv' ih

theorem Chain.environment (h : Chain nodes sizes (some env)) :
    ∃ slots outer, nodes[env]? = some (.environment slots outer) := by
  cases h with
  | cons henv _ => exact ⟨_, _, henv⟩

/-- An address leads to an environment that has the slot. -/
theorem Chain.walk {frame slot : Nat} (h : Chain nodes sizes (some env)) (ha : Named sizes ⟨frame, slot⟩) :
    ∃ env' slots outer, outward env frame nodes = .ok (some env') nodes ∧
      nodes[env']? = some (.environment slots outer) ∧ slot < slots.length := by
  induction frame generalizing env sizes with
  | zero =>
    obtain ⟨n, hn, hlt⟩ := ha
    cases h with
    | cons henv _ =>
      cases hn
      exact ⟨env, _, _, rfl, henv, hlt⟩
  | succ frame ih =>
    obtain ⟨n, hn, hlt⟩ := ha
    cases h with
    | @cons _ slots outer sizes henv rest =>
      cases outer with
      | none =>
        cases rest
        cases hn
      | some outer =>
        rw [outward_enclosed henv]
        exact ih rest ⟨n, hn, hlt⟩

theorem Entered.later (h : Entered nodes inner env blocks) (hl : Later written used nodes nodes') :
    Entered nodes' inner env blocks := by
  induction h with
  | nil => exact .nil
  | cons henv hframe _ ih =>
    obtain ⟨slots', -, henv'⟩ := hl.keep_environment henv
    exact .cons henv' (hl.keep hframe (by simp [Node.kind]) (by simp [Node.kind])) ih

theorem Entered.isBlock (h : Entered nodes inner env blocks) :
    ∀ l ∈ blocks, ∃ env, nodes[l]? = some (.blockFrame env) := by
  induction h with
  | nil => simp
  | cons _ hframe _ ih => exact List.forall_mem_cons.mpr ⟨⟨_, hframe⟩, ih⟩

end

/-! ## Activations -/

/-- What an activation consists of, after scopes of the sizes `inner` have been entered. -/
structure Active (nodes : List Node) (act : Activation) (inner : List Nat) (operands : List Loc)
    (free : Nat) (env stack : Loc) (blocks : List Loc) : Prop where
  chain : Chain nodes (inner ++ act.outer) (some env)
  entered : Entered nodes inner env blocks
  stack : nodes[stack]? = some (.operandStack operands free)
  capacity : operands.length + free = act.capacity

/-- The activations that wait are in good order, down to that of the main program. The frames are theirs, and so
are the operand stacks that are saved in them. -/
inductive Waits (program : Program) (nodes : List Node) :
    (inFunction : Bool) → (control saved : List Loc) → Prop
  | main : Waits program nodes false [] []
  | call {act : Activation} {inner : List Nat} {operands blocks control saved : List Loc}
      {free address : Nat} {env stack frame : Loc}
      (hframe : nodes[frame]? = some (.callFrame (some env) (some stack) address))
      (active : Active nodes act inner operands (free + 1) env stack blocks)
      (point : Point program act inner (operands.length + 1) address)
      (rest : Waits program nodes act.inFunction control saved) :
      Waits program nodes true (frame :: (blocks ++ control)) (stack :: saved)

/-- Functions are what the compiler makes of them. -/
def Node.Made (program : Program) (nodes : List Node) : Node → Prop
  | .closure (some env) arity entry capacity =>
    ∃ outer, Chain nodes outer (some env) ∧ Point program ⟨capacity, arity :: outer, true⟩ [] 0 entry
  | .primitive id => ∃ p, Primitive.ofId? id = some p
  | _ => True

def AllMade (program : Program) (nodes : List Node) : Prop :=
  ∀ ⦃l : Loc⦄ ⦃n : Node⦄, nodes[l]? = some n → n.Made program nodes

/-- The running activation, and those that wait. -/
structure Situation (program : Program) (c : Core) (act : Activation) (inner : List Nat)
    (operands : List Loc) (free : Nat) (blocks control saved : List Loc) : Prop where
  made : AllMade program c.nodes
  active : Active c.nodes act inner operands free c.env c.stack blocks
  frames : c.control = blocks ++ control
  waits : Waits program c.nodes act.inFunction control saved
  apart : (c.stack :: saved).Nodup

/-- The state is one in which a compiled program can be. -/
def Typed (program : Program) (c : Core) : Prop :=
  ∃ act inner operands free blocks control saved,
    Situation program c act inner operands free blocks control saved ∧
      Point program act inner operands.length c.pc

/-! ### What stays in order -/

section

variable {program : Program} {nodes nodes' : List Node} {written : Prop} {used : List Loc}

theorem Active.later {act : Activation} {inner : List Nat} {operands blocks : List Loc} {free : Nat}
    {env stack : Loc} (h : Active nodes act inner operands free env stack blocks)
    (hl : Later written used nodes nodes') (hunused : stack ∉ used) :
    Active nodes' act inner operands free env stack blocks where
  chain := h.chain.later hl
  entered := h.entered.later hl
  stack := hl.keep_stack h.stack hunused
  capacity := h.capacity

theorem Waits.later {inFunction : Bool} {control saved : List Loc}
    (h : Waits program nodes inFunction control saved) (hl : Later written used nodes nodes')
    (hunused : ∀ l ∈ saved, l ∉ used) : Waits program nodes' inFunction control saved := by
  induction h with
  | main => exact .main
  | call hframe active point _ ih =>
    rw [List.forall_mem_cons] at hunused
    exact .call (hl.keep hframe (by simp [Node.kind]) (by simp [Node.kind]))
      (active.later hl hunused.1) point (ih hunused.2)

/-- The stacks of activations that wait are nodes. -/
theorem Waits.stack_lt {inFunction : Bool} {control saved : List Loc}
    (h : Waits program nodes inFunction control saved) : ∀ l ∈ saved, l < nodes.length := by
  induction h with
  | main => simp
  | call _ active _ _ ih =>
    exact List.forall_mem_cons.mpr ⟨(List.getElem?_eq_some_iff.mp active.stack).1, ih⟩

theorem Node.Made.later {n : Node} (h : n.Made program nodes) (hl : Later written used nodes nodes') :
    n.Made program nodes' := by
  cases n with
  | closure env arity entry capacity =>
    cases env with
    | none => trivial
    | some env =>
      obtain ⟨outer, hchain, hpoint⟩ := h
      exact ⟨outer, hchain.later hl, hpoint⟩
  | primitive id => exact h
  | _ => trivial

/-- Nodes that change are made as they were, so only new ones matter. -/
theorem AllMade.later (h : AllMade program nodes) (hl : Later written used nodes nodes')
    (hnew : ∀ ⦃l : Loc⦄ ⦃n : Node⦄, nodes.length ≤ l → nodes'[l]? = some n → n.Made program nodes') :
    AllMade program nodes' := by
  intro l n hn
  by_cases hlt : l < nodes.length
  · obtain ⟨n₀, hn₀⟩ : ∃ n₀, nodes[l]? = some n₀ := ⟨_, List.getElem?_eq_getElem hlt⟩
    obtain ⟨n', hn', hb⟩ := hl hn₀
    obtain rfl : n' = n := Option.some.inj (hn'.symm.trans hn)
    cases hb with
    | same => exact (h hn₀).later hl
    | operands => trivial
    | slots => trivial
  · exact hnew (Nat.le_of_not_lt hlt) hn

theorem AllMade.same_length (h : AllMade program nodes) (hl : Later written used nodes nodes')
    (hlen : nodes'.length = nodes.length) : AllMade program nodes' := by
  refine h.later hl fun l n hge hn => ?_
  have hlt := (List.getElem?_eq_some_iff.mp hn).1
  omega

theorem AllMade.append {more : List Node} (h : AllMade program nodes)
    (hnew : ∀ n ∈ more, n.Made program (nodes ++ more)) : AllMade program (nodes ++ more) := by
  refine h.later (Later.append True [] nodes more) fun l n hge hn => ?_
  rw [List.getElem?_append_right hge] at hn
  exact hnew n (List.mem_of_getElem? hn)

end

/-! ### From one situation to the next -/

section

variable {program : Program} {c : Core} {act : Activation} {inner : List Nat}
  {operands blocks control saved : List Loc} {free : Nat}

theorem Situation.typed (h : Situation program c act inner operands free blocks control saved)
    (hpoint : Point program act inner operands.length c.pc) : Typed program c :=
  ⟨act, inner, operands, free, blocks, control, saved, h, hpoint⟩

/-- The activation goes on in its environment, with other operands. -/
theorem Situation.proceed (h : Situation program c act inner operands free blocks control saved)
    {nodes' : List Node} {operands' : List Loc} {free' : Nat} (hl : Later True [c.stack] c.nodes nodes')
    (hmade : AllMade program nodes') (hs : nodes'[c.stack]? = some (.operandStack operands' free'))
    (hcap : operands'.length + free' = operands.length + free) (pc : Nat) (output : Array String) :
    Situation program ⟨nodes', pc, c.env, c.stack, c.control, output⟩ act inner operands' free' blocks
      control saved where
  made := hmade
  active := ⟨h.active.chain.later hl, h.active.entered.later hl, hs, hcap.trans h.active.capacity⟩
  frames := h.frames
  waits := by
    refine h.waits.later hl fun l hmem => ?_
    rw [List.mem_singleton]
    exact fun heq => (List.nodup_cons.mp h.apart).1 (heq ▸ hmem)
  apart := h.apart

/-- Nothing happens but on the operand stack. -/
theorem Situation.operate (h : Situation program c act inner operands free blocks control saved)
    {operands' : List Loc} {free' : Nat} (hcap : operands'.length + free' = operands.length + free)
    (pc : Nat) (output : Array String) :
    Situation program ⟨c.nodes.set c.stack (.operandStack operands' free'), pc, c.env, c.stack, c.control,
      output⟩ act inner operands' free' blocks control saved := by
  have hl : Later True [c.stack] c.nodes (c.nodes.set c.stack (.operandStack operands' free')) :=
    .use h.active.stack (List.mem_singleton_self _)
  refine h.proceed hl (h.made.same_length hl (List.length_set ..)) ?_ hcap pc output
  exact List.getElem?_set_self (List.getElem?_eq_some_iff.mp h.active.stack).1

/-- There is a new node. -/
theorem Situation.add (h : Situation program c act inner operands free blocks control saved) {n : Node}
    (hn : n.Made program (c.nodes ++ [n])) :
    Situation program { c with nodes := c.nodes ++ [n] } act inner operands free blocks control saved :=
  h.proceed (.append _ _ _ _) (h.made.append fun _ hm => List.mem_singleton.mp hm ▸ hn)
    (append_old h.active.stack) rfl c.pc c.output

/-- A scope is entered. -/
theorem Situation.enter (h : Situation program c act inner operands free blocks control saved)
    (slots pc : Nat) :
    Situation program
      ⟨c.nodes ++ [.blockFrame (some c.env), .environment (List.replicate slots none) (some c.env)], pc,
        c.nodes.length + 1, c.stack, c.nodes.length :: c.control, c.output⟩
      act (slots :: inner) operands free (c.nodes.length :: blocks) control saved := by
  let nodes' := c.nodes ++
    [.blockFrame (some c.env), .environment (List.replicate slots none) (some c.env)]
  have hl : Later True [] c.nodes nodes' := .append _ _ _ _
  have hframe : nodes'[c.nodes.length]? = some (.blockFrame (some c.env)) := by simp [nodes']
  have henv : nodes'[c.nodes.length + 1]? =
      some (.environment (List.replicate slots none) (some c.env)) := by simp [nodes']
  have hchain := Chain.cons henv (h.active.chain.later hl)
  rw [List.length_replicate] at hchain
  refine ⟨h.made.append ?_, ⟨hchain, .cons henv hframe (h.active.entered.later hl), ?_, h.active.capacity⟩,
    ?_, h.waits.later hl (by simp), h.apart⟩
  · simp [Node.Made]
  · exact hl.keep_stack h.active.stack (by simp)
  · rw [List.cons_append, ← h.frames]

/-- A scope is left, by way of the frame that was made for it. -/
theorem Situation.leave {n : Nat}
    (h : Situation program c act (n :: inner) operands free blocks control saved) :
    ∃ frame env blocks', c.control = frame :: (blocks' ++ control) ∧
      c.nodes[frame]? = some (.blockFrame (some env)) ∧
      ∀ pc, Situation program ⟨c.nodes, pc, env, c.stack, blocks' ++ control, c.output⟩ act inner operands
        free blocks' control saved := by
  obtain ⟨hmade, ⟨hchain, hentered, hstack, hcap⟩, hframes, hwaits, hapart⟩ := h
  cases hentered with
  | @cons _ _ _ outer frame slots blocks' henv hframe hrest =>
    cases hchain with
    | cons henv' hchain' =>
      cases henv.symm.trans henv'
      exact ⟨frame, outer, blocks', hframes, hframe, fun pc =>
        ⟨hmade, ⟨hchain', hrest, hstack, hcap⟩, rfl, hwaits, hapart⟩⟩

/-! ### Calls and returns -/

/-- The activation that called the running one. -/
structure Caller (program : Program) (nodes : List Node) (control saved : List Loc) (frame env stack : Loc)
    (address : Nat) (operands : List Loc) (free : Nat) (blocks' control' saved' : List Loc)
    (act : Activation) (inner : List Nat) : Prop where
  frames : control = frame :: (blocks' ++ control')
  saved : saved = stack :: saved'
  frame : nodes[frame]? = some (.callFrame (some env) (some stack) address)
  active : Active nodes act inner operands (free + 1) env stack blocks'
  point : Point program act inner (operands.length + 1) address
  waits : Waits program nodes act.inFunction control' saved'

/-- In a function, there is one. -/
theorem Waits.caller {nodes : List Node} (h : Waits program nodes true control saved) :
    ∃ frame env stack address operands free blocks' control' saved' act inner,
      Caller program nodes control saved frame env stack address operands free blocks' control' saved' act
        inner := by
  cases h with
  | call hframe active point rest =>
    exact ⟨_, _, _, _, _, _, _, _, _, _, _, rfl, rfl, hframe, active, point, rest⟩

section

variable {frame env stack : Loc} {address free' : Nat} {operands' blocks' control' saved' : List Loc}
  {act' : Activation} {inner' : List Nat}

theorem Caller.append {nodes : List Node}
    (h : Caller program nodes control saved frame env stack address operands free blocks' control' saved' act
      inner) (more : List Node) :
    Caller program (nodes ++ more) control saved frame env stack address operands free blocks' control'
      saved' act inner where
  frames := h.frames
  saved := h.saved
  frame := append_old h.frame
  active := h.active.later (.append True [] _ _) (by simp)
  point := h.point
  waits := h.waits.later (.append True [] _ _) (by simp)

theorem Situation.stack_ne (h : Situation program c act inner operands free blocks control saved)
    (hc : Caller program c.nodes control saved frame env stack address operands' free' blocks' control'
      saved' act' inner') : c.stack ≠ stack := by
  have hapart := h.apart
  rw [hc.saved] at hapart
  exact fun heq => (List.nodup_cons.mp hapart).1 (heq ▸ List.mem_cons_self)

/-- The caller goes on, with one more operand. What the running activation leaves behind is of no
interest. -/
theorem Situation.back (h : Situation program c act inner operands free blocks control saved)
    (hc : Caller program c.nodes control saved frame env stack address operands' free' blocks' control'
      saved' act' inner') (rest : List Loc) (free : Nat) (v : Loc) (output : Array String) :
    Situation program ⟨(c.nodes.set c.stack (.operandStack rest free)).set stack
      (.operandStack (v :: operands') free'), address, env, stack, blocks' ++ control', output⟩ act' inner'
      (v :: operands') free' blocks' control' saved' := by
  have hpop : Later True [c.stack, stack] c.nodes (c.nodes.set c.stack (.operandStack rest free)) :=
    .use h.active.stack List.mem_cons_self
  have hstack : (c.nodes.set c.stack (.operandStack rest free))[stack]? =
      some (.operandStack operands' (free' + 1)) :=
    (List.getElem?_set_ne (h.stack_ne hc)).trans hc.active.stack
  have hl : Later True [c.stack, stack] c.nodes
      ((c.nodes.set c.stack (.operandStack rest free)).set stack (.operandStack (v :: operands') free')) :=
    hpop.trans (.use hstack (List.mem_cons_of_mem _ (List.mem_singleton_self _)))
  have hapart := h.apart
  rw [hc.saved] at hapart
  obtain ⟨hout, hapart⟩ := List.nodup_cons.mp hapart
  refine ⟨h.made.same_length hl ?_, ⟨hc.active.chain.later hl, hc.active.entered.later hl, ?_, ?_⟩, rfl,
    hc.waits.later hl ?_, hapart⟩
  · rw [List.length_set, List.length_set]
  · exact List.getElem?_set_self (List.getElem?_eq_some_iff.mp hstack).1
  · have hcap := hc.active.capacity
    rw [List.length_cons]
    omega
  · intro l hmem
    rw [List.mem_cons, List.mem_singleton, not_or]
    constructor
    · intro heq
      exact hout (heq ▸ List.mem_cons_of_mem _ hmem)
    · intro heq
      exact (List.nodup_cons.mp hapart).1 (heq ▸ hmem)

end

end

end ClosureMachine.Ideal
