import ClosureMachine.Proofs.Ideal.Machine

/-!
# What actions of the ideal machine do

Equations for the actions from which instructions are put together, in the case in which they succeed. The
state that follows is given in full, with `State.put` for a node that was replaced and `State.add` for a new
one, so that several of them can be chained.
-/

set_option autoImplicit false

namespace ClosureMachine.Ideal

/-! ## States with other nodes -/

/-- The state with another node under a name. -/
def State.put (s : State) (l : Loc) (n : Node) : State := { s with nodes := s.nodes.set l n }

/-- The state with one more node. -/
def State.add (s : State) (n : Node) : State := { s with nodes := s.nodes ++ [n] }

namespace State

variable (s : State) (l : Loc) (n : Node)

@[simp] theorem put_pc : (s.put l n).pc = s.pc := rfl
@[simp] theorem put_env : (s.put l n).env = s.env := rfl
@[simp] theorem put_stack : (s.put l n).stack = s.stack := rfl
@[simp] theorem put_control : (s.put l n).control = s.control := rfl
@[simp] theorem put_pinned : (s.put l n).pinned = s.pinned := rfl
@[simp] theorem put_output : (s.put l n).output = s.output := rfl
@[simp] theorem put_steps : (s.put l n).steps = s.steps := rfl
@[simp] theorem put_peakDepth : (s.put l n).peakDepth = s.peakDepth := rfl
@[simp] theorem put_length : (s.put l n).nodes.length = s.nodes.length := by simp [put]

@[simp] theorem add_pc : (s.add n).pc = s.pc := rfl
@[simp] theorem add_env : (s.add n).env = s.env := rfl
@[simp] theorem add_stack : (s.add n).stack = s.stack := rfl
@[simp] theorem add_control : (s.add n).control = s.control := rfl
@[simp] theorem add_pinned : (s.add n).pinned = s.pinned := rfl
@[simp] theorem add_output : (s.add n).output = s.output := rfl
@[simp] theorem add_steps : (s.add n).steps = s.steps := rfl
@[simp] theorem add_peakDepth : (s.add n).peakDepth = s.peakDepth := rfl
@[simp] theorem add_length : (s.add n).nodes.length = s.nodes.length + 1 := by simp [add]

variable {s l n}

/-- A node that was put in a place is there. -/
theorem put_self {n₀ : Node} (hn : s.nodes[l]? = some n₀) : (s.put l n).nodes[l]? = some n :=
  List.getElem?_set_self (List.getElem?_eq_some_iff.mp hn).1

theorem put_ne {l' : Loc} (hne : l ≠ l') : (s.put l n).nodes[l']? = s.nodes[l']? :=
  List.getElem?_set_ne hne

theorem add_old {l' : Loc} {n' : Node} (hn : s.nodes[l']? = some n') :
    (s.add n).nodes[l']? = some n' := by
  rw [add, List.getElem?_append_left (List.getElem?_eq_some_iff.mp hn).1]
  exact hn

theorem add_new : (s.add n).nodes[s.nodes.length]? = some n := by simp [add]

/-- A node that has just been made is replaced. -/
theorem add_put (n' : Node) : (s.add n).put s.nodes.length n' = s.add n' := by
  simp [put, add]

theorem put_put (n' : Node) : (s.put l n).put l n' = s.put l n' := by
  simp [put]

theorem put_comm {l' : Loc} (hne : l ≠ l') (n' : Node) :
    (s.put l n).put l' n' = (s.put l' n').put l n := by
  simp only [put, State.mk.injEq, and_self, and_true]
  exact List.set_comm n n' hne

/-- To replace a node by itself is to do nothing. -/
theorem put_same (hn : s.nodes[l]? = some n) : s.put l n = s := by
  obtain ⟨nodes, pc, env, stack, control, pinned, output, steps, peakDepth⟩ := s
  simp only [put, State.mk.injEq, and_self, and_true]
  refine List.ext_getElem? fun i => ?_
  by_cases hi : l = i
  · subst hi
    rw [List.getElem?_set_self (List.getElem?_eq_some_iff.mp hn).1]
    exact hn.symm
  · rw [List.getElem?_set_ne hi]

end State

/-! ## Actions on nodes -/

theorem lift_apply {α : Type} (x : NodeM α) (s : State) :
    (liftM x : Act α) s = match x s.nodes with
      | .ok a nodes => .ok a { s with nodes := nodes }
      | .error e nodes => .error (.heap e) { s with nodes := nodes } := rfl

theorem lift_bind {α β : Type} (x : NodeM α) (f : α → NodeM β) :
    (liftM (x >>= f) : Act β) = liftM x >>= fun a => liftM (f a) := by
  funext s
  simp only [lift_apply, Actions.bind_apply]
  cases x s.nodes <;> rfl

section

variable {s : State} {l : Loc} {n : Node}

theorem look_eq {β : Type} {ask : Node → Except HeapError β} {b : β} (hn : s.nodes[l]? = some n)
    (hb : ask n = .ok b) : (liftM (look l ask) : Act β) s = .ok b s := by
  simp only [lift_apply, look, hn, hb]

theorem expect_eq (kind : Kind) (hn : s.nodes[l]? = some n) (hk : n.kind = kind) :
    (liftM (look l (Node.expect kind)) : Act Unit) s = .ok () s :=
  look_eq hn (by rw [Node.expect, if_pos hk])

theorem alter_eq {β : Type} {f : Node → Except HeapError (β × Node)} {b : β} {n' : Node}
    (hn : s.nodes[l]? = some n) (hf : f n = .ok (b, n')) :
    (liftM (alter l f) : Act β) s = .ok b (s.put l n') := by
  simp only [lift_apply, alter, hn, hf]
  rfl

theorem change_eq {f : Node → Except HeapError Node} {n' : Node} (hn : s.nodes[l]? = some n)
    (hf : f n = .ok n') : (liftM (change l f) : Act Unit) s = .ok () (s.put l n') :=
  alter_eq hn (by rw [hf]; rfl)

end

/-! ## Chains of environments -/

section

variable {nodes : List Node} {env : Loc} {slots : List (Option Loc)}

theorem outward_enclosed {outer : Loc} (hn : nodes[env]? = some (.environment slots (some outer)))
    (frames : Nat) : outward env (frames + 1) nodes = outward outer frames nodes := by
  simp only [outward, Actions.bind_apply, look, hn, Node.enclosing?]

theorem outward_outermost (hn : nodes[env]? = some (.environment slots none)) (frames : Nat) :
    outward env (frames + 1) nodes = .ok none nodes := by
  simp only [outward, Actions.bind_apply, look, hn, Node.enclosing?]
  rfl

end

/-! ## Links -/

section

variable {s : State} {env l : Loc} {slots slots' : List (Option Loc)} {outer outer' : Option Loc}

theorem setEnclosing_eq (hl : s.nodes[l]? = some (.environment slots outer))
    (he : s.nodes[env]? = some (.environment slots' outer')) :
    (liftM (setEnclosing l env) : Act Unit) s = .ok () (s.put l (.environment slots (some env))) := by
  rw [setEnclosing, lift_bind, Actions.bind_apply, expect_eq .environment he rfl]
  exact change_eq hl rfl

theorem setClosureEnv_eq {old : Option Loc} {arity entry stack : Nat}
    (hl : s.nodes[l]? = some (.closure old arity entry stack))
    (he : s.nodes[env]? = some (.environment slots' outer')) :
    (liftM (setClosureEnv l env) : Act Unit) s =
      .ok () (s.put l (.closure (some env) arity entry stack)) := by
  rw [setClosureEnv, lift_bind, Actions.bind_apply, expect_eq .closure hl rfl]
  dsimp only
  rw [lift_bind, Actions.bind_apply, expect_eq .environment he rfl]
  exact change_eq hl rfl

/-- A frame of either kind is given its environment. -/
theorem setFrameEnv_eq {n n' : Node} (hl : s.nodes[l]? = some n) (hn : n.setFrameEnv env = .ok n')
    (he : s.nodes[env]? = some (.environment slots' outer')) :
    (liftM (setFrameEnv l env) : Act Unit) s = .ok () (s.put l n') := by
  have hask : n.expectFrame = .ok () := by
    cases n <;> simp [Node.setFrameEnv] at hn <;> rfl
  rw [setFrameEnv, lift_bind, Actions.bind_apply, look_eq hl hask]
  dsimp only
  rw [lift_bind, Actions.bind_apply, expect_eq .environment he rfl]
  exact change_eq hl hn

theorem setFrameStack_eq {frameEnv old : Option Loc} {address : Nat} {stack : Loc}
    {operands : List Loc} {free : Nat}
    (hl : s.nodes[l]? = some (.callFrame frameEnv old address))
    (hs : s.nodes[stack]? = some (.operandStack operands free)) :
    (liftM (setFrameStack l stack) : Act Unit) s =
      .ok () (s.put l (.callFrame frameEnv (some stack) address)) := by
  rw [setFrameStack, lift_bind, Actions.bind_apply, expect_eq .callFrame hl rfl]
  dsimp only
  rw [lift_bind, Actions.bind_apply, expect_eq .operandStack hs rfl]
  exact change_eq hl rfl

end

/-! ## Operands -/

section

variable {s : State} {operands : List Loc} {free : Nat}

theorem push_eq (v : Loc) (hs : s.nodes[s.stack]? = some (.operandStack operands (free + 1))) :
    push v s = .ok () (s.put s.stack (.operandStack (v :: operands) free)) :=
  change_eq hs rfl

theorem pop_eq {v : Loc} (hs : s.nodes[s.stack]? = some (.operandStack (v :: operands) free)) :
    pop s = .ok v (s.put s.stack (.operandStack operands (free + 1))) :=
  alter_eq hs rfl

/-- The arguments of a call end up in the first slots, the top one in the last of them. -/
theorem moveArguments_eq {env : Loc} {args : List Loc} {slots : List (Option Loc)}
    {outer : Option Loc} (hne : s.stack ≠ env)
    (hs : s.nodes[s.stack]? = some (.operandStack (args ++ operands) free))
    (he : s.nodes[env]? = some (.environment slots outer)) (hlen : args.length ≤ slots.length) :
    moveArguments env args.length s = .ok ()
      ((s.put s.stack (.operandStack operands (free + args.length))).put env
        (.environment (args.reverse.map some ++ slots.drop args.length) outer)) := by
  induction args generalizing s free slots with
  | nil =>
    have hs' : s.put s.stack (.operandStack operands free) = s := State.put_same hs
    have he' : s.put env (.environment slots outer) = s := State.put_same he
    simp only [List.length_nil, moveArguments, Actions.pure_apply, Nat.add_zero, List.reverse_nil,
      List.map_nil, List.nil_append, List.drop_zero, hs', he']
  | cons v args ih =>
    rw [List.cons_append] at hs
    rw [List.length_cons] at hlen ⊢
    have he₁ := (State.put_ne (n := .operandStack (args ++ operands) (free + 1)) hne).trans he
    have hset : Node.setSlot args.length v (.environment slots outer) =
        .ok (.environment (slots.set args.length (some v)) outer) := by
      simp only [Node.setSlot, if_pos (show args.length < slots.length by omega)]
    have hs₂ : ((s.put s.stack (.operandStack (args ++ operands) (free + 1))).put env
        (.environment (slots.set args.length (some v)) outer)).nodes[s.stack]? =
          some (.operandStack (args ++ operands) (free + 1)) :=
      (State.put_ne (Ne.symm hne)).trans (State.put_self hs)
    have hrest := ih (by simpa using hne) hs₂ (State.put_self he₁) (by simp; omega)
    simp only [moveArguments, Actions.bind_apply, pop_eq hs, change_eq he₁ hset]
    rw [hrest]
    simp only [State.put_stack]
    rw [State.put_comm (Ne.symm hne), State.put_put, State.put_put]
    have hslots : args.reverse.map some ++ (slots.set args.length (some v)).drop args.length =
        (v :: args).reverse.map some ++ slots.drop (args.length + 1) := by
      rw [List.reverse_cons, List.map_append, List.append_assoc,
        List.drop_eq_getElem_cons (show args.length < (slots.set _ _).length by simp; omega),
        List.getElem_set_self, List.drop_set_of_lt (Nat.lt_succ_self _)]
      rfl
    rw [hslots, show free + 1 + args.length = free + (args.length + 1) by omega]

end

theorem typeNameOf_eq {s : State} {l : Loc} {n : Node} {a : Argument} (hn : s.nodes[l]? = some n)
    (ha : n.argument l = .ok a) : typeNameOf l s = .ok a.typeName s := by
  simp [typeNameOf, look, hn, ha]

/-! ## Frames -/

/-- Blocks in front of a call frame are taken off. -/
theorem unwindBlocks_eq {s : State} {blocks rest : List Loc} {frame : Loc} {n : Node}
    (hc : s.control = blocks ++ frame :: rest)
    (hb : ∀ l ∈ blocks, ∃ env, s.nodes[l]? = some (.blockFrame env))
    (hf : s.nodes[frame]? = some n) (hk : n.kind = .callFrame) :
    unwindBlocks s.control s = .ok () { s with control := frame :: rest } := by
  rw [hc]
  induction blocks generalizing s with
  | nil =>
    have hask : (.ok n.kind : Except HeapError Kind) = .ok .callFrame := by rw [hk]
    rw [List.nil_append] at hc ⊢
    rw [unwindBlocks, Actions.bind_apply, look_eq hf hask, ← hc]
    rfl
  | cons block blocks ih =>
    obtain ⟨env, hn⟩ := hb block (by simp)
    have hask : (.ok (Node.blockFrame env).kind : Except HeapError Kind) = .ok .blockFrame := rfl
    rw [List.cons_append, unwindBlocks, Actions.bind_apply, look_eq hn hask]
    simp only [dropFrame, Actions.bind_apply, Actions.modify_apply]
    exact ih (s := { s with control := s.control.tail }) (by simp [hc])
      (fun l hl => hb l (by simp [hl])) hf

end ClosureMachine.Ideal
