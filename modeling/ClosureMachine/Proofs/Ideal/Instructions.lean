import ClosureMachine.Proofs.Ideal.Effects

/-!
# Instructions without limits

Given all the memory and all the time it wants, the ideal machine does what its instructions say, and what that
is depends on few of its registers. A `Core` is the part of a state on which it depends. For each
instruction there is a lemma that gives the core after it, and one for each way in which a compiled
program can make it fail.
-/

set_option autoImplicit false

namespace ClosureMachine.Ideal

/-- What a state consists of, apart from counters and pinned nodes. -/
structure Core where
  nodes : List Node
  pc : Nat
  env : Loc
  stack : Loc
  control : List Loc
  output : Array String

def State.core (s : State) : Core := ⟨s.nodes, s.pc, s.env, s.stack, s.control, s.output⟩

/-- The state with another core. -/
def State.withCore (s : State) (c : Core) : State :=
  { s with
    nodes := c.nodes, pc := c.pc, env := c.env, stack := c.stack, control := c.control
    output := c.output }

/-! ## Steps -/

/-- One turn takes states of the first core to states of the second. -/
def Step (program : Program) (c c' : Core) : Prop :=
  ∀ s : State, s.core = c → ∃ s', turn none none program s = (.ok none, s') ∧ s'.core = c'

/-- So many turns do. -/
def Steps (program : Program) : Nat → Core → Core → Prop
  | 0, c, c' => c = c'
  | n + 1, c, c' => ∃ c₁, Step program c c₁ ∧ Steps program n c₁ c'

/-- The next turn fails, however little memory there is. The output is what it is then. -/
def Fails (program : Program) (c : Core) (fault : Fault) (output : Array String) : Prop :=
  ∀ s : State, s.core = c → ∀ room,
    ∃ failure s', turn room none program s = (.error failure, s') ∧ failure.fault = fault ∧
      s'.output = output

/-- The next turn gives the answer. -/
def Answers (program : Program) (c : Core) (answer : Answer) : Prop :=
  ∀ s : State, s.core = c → ∀ room,
    ∃ s', turn room none program s = (.ok (some answer), s') ∧ s'.output = c.output

variable {program : Program} {n k : Nat} {c c' c'' : Core}

theorem Step.steps (h : Step program c c') : Steps program 1 c c' := ⟨c', h, rfl⟩

theorem Steps.trans (h : Steps program n c c') (h' : Steps program k c' c'') :
    Steps program (n + k) c c'' := by
  induction n generalizing c with
  | zero =>
    obtain rfl := h
    rwa [Nat.zero_add]
  | succ n ih =>
    obtain ⟨c₁, hstep, hrest⟩ := h
    rw [Nat.succ_add]
    exact ⟨c₁, hstep, ih hrest⟩

/-- Steps are part of every run that is long enough. -/
theorem Steps.follow {s : State} (h : Steps program n s.core c') (k : Nat) :
    ∃ s', s'.core = c' ∧ follow (turn none none program) (n + k) s =
      follow (turn none none program) k s' := by
  induction n generalizing s with
  | zero =>
    refine ⟨s, h, ?_⟩
    rw [Nat.zero_add]
  | succ n ih =>
    obtain ⟨c₁, hstep, hrest⟩ := h
    obtain ⟨s₁, hturn, rfl⟩ := hstep s rfl
    obtain ⟨s', hcore, hfollow⟩ := ih hrest
    refine ⟨s', hcore, ?_⟩
    rw [Nat.succ_add, ClosureMachine.follow, hturn]
    exact hfollow

/-! ## One instruction -/

section

variable {s : State} {i : Instruction}

/-- A turn is an instruction, once the step has been counted. -/
theorem turn_eq (room : Option Nat) (hi : program.code[s.pc]? = some i) :
    turn room none program s =
      match execute room i { s with steps := s.steps + 1 } with
      | .ok outcome s' => (.ok outcome, s')
      | .error fault s' => (.error ((Failure.ofFault fault).locatedAt s.pc i), s') := by
  unfold turn
  rw [hi]
  rfl

end

variable {i : Instruction}

theorem Step.of_execute (hi : program.code[c.pc]? = some i)
    (h : ∀ s : State, s.core = c → ∃ s', execute none i s = .ok none s' ∧ s'.core = c') :
    Step program c c' := by
  intro s hs
  subst hs
  obtain ⟨s', hx, hcore⟩ := h { s with steps := s.steps + 1 } rfl
  exact ⟨s', by rw [turn_eq none hi, hx], hcore⟩

/-- An instruction that touches nothing but the core. -/
theorem Step.of_execute_eq (hi : program.code[c.pc]? = some i)
    (h : ∀ s : State, s.core = c → execute none i s = .ok none (s.withCore c')) : Step program c c' :=
  Step.of_execute hi fun s hs => ⟨_, h s hs, rfl⟩

theorem Fails.of_execute {fault : Fault} {output : Array String} (hi : program.code[c.pc]? = some i)
    (h : ∀ s : State, s.core = c → ∀ room, ∃ s', execute room i s = .error fault s' ∧
      s'.output = output) : Fails program c fault output := by
  intro s hs room
  subst hs
  obtain ⟨s', hx, hout⟩ := h { s with steps := s.steps + 1 } rfl room
  exact ⟨_, s', by rw [turn_eq room hi, hx], by simp [Failure.ofFault], hout⟩

theorem Answers.of_execute {answer : Answer} (hi : program.code[c.pc]? = some i)
    (h : ∀ s : State, s.core = c → ∀ room, ∃ s', execute room i s = .ok (some answer) s' ∧
      s'.output = c.output) : Answers program c answer := by
  intro s hs room
  subst hs
  obtain ⟨s', hx, hout⟩ := h { s with steps := s.steps + 1 } rfl room
  exact ⟨s', by rw [turn_eq room hi, hx], hout⟩

/-! ## Values and names -/

/-- Nodes of different kinds are different nodes. -/
theorem ne_of_kind {nodes : List Node} {l l' : Loc} {m m' : Node} (hl : nodes[l]? = some m)
    (hl' : nodes[l']? = some m') (hk : m.kind ≠ m'.kind) : l ≠ l' := by
  rintro rfl
  rw [hl] at hl'
  exact hk (Option.some.inj hl' ▸ rfl)

theorem fresh_eq (s : State) (n : Node) : fresh none n s = .ok s.nodes.length (s.add n) := rfl

section

variable {operands : List Loc} {free : Nat}

theorem step_loadConstant {value : Literal} (hi : program.code[c.pc]? = some (.loadConstant value))
    (hs : c.nodes[c.stack]? = some (.operandStack operands (free + 1))) :
    Step program c { c with
      nodes := (c.nodes ++ [Node.boxed value]).set c.stack (.operandStack (c.nodes.length :: operands) free)
      pc := c.pc + 1 } := by
  refine Step.of_execute_eq hi ?_
  rintro s rfl
  dsimp only [State.core] at *
  simp only [execute, loadConstant, Actions.bind_apply, fresh_eq, push_eq _ (State.add_old hs)]
  rfl

/-- The environment of an address, if the chain is long enough. -/
theorem environmentAt_eq {s : State} {frames : Nat} {env : Loc}
    (h : outward s.env frames s.nodes = .ok (some env) s.nodes) : environmentAt frames s = .ok env s := by
  simp only [environmentAt, Actions.bind_apply, Actions.get_apply, lift_apply, h]
  rfl

theorem step_load {a : Address} {env v : Loc} {slots : List (Option Loc)} {outer : Option Loc}
    (hi : program.code[c.pc]? = some (.load a))
    (hwalk : outward c.env a.frame c.nodes = .ok (some env) c.nodes)
    (henv : c.nodes[env]? = some (.environment slots outer)) (hv : slots[a.slot]? = some (some v))
    (hs : c.nodes[c.stack]? = some (.operandStack operands (free + 1))) :
    Step program c { c with
      nodes := c.nodes.set c.stack (.operandStack (v :: operands) free)
      pc := c.pc + 1 } := by
  refine Step.of_execute_eq hi ?_
  rintro s rfl
  dsimp only [State.core] at *
  have hask : (Node.environment slots outer).slot? a.slot = .ok (some v) := by simp [Node.slot?, hv]
  simp only [execute, load, Actions.bind_apply, environmentAt_eq hwalk, look_eq henv hask, push_eq v hs]
  rfl

theorem fails_load {a : Address} {env : Loc} {slots : List (Option Loc)} {outer : Option Loc}
    (hi : program.code[c.pc]? = some (.load a))
    (hwalk : outward c.env a.frame c.nodes = .ok (some env) c.nodes)
    (henv : c.nodes[env]? = some (.environment slots outer)) (hv : slots[a.slot]? = some none) :
    Fails program c (.unassignedName a) c.output := by
  refine Fails.of_execute hi ?_
  rintro s rfl room
  dsimp only [State.core] at *
  have hask : (Node.environment slots outer).slot? a.slot = .ok none := by simp [Node.slot?, hv]
  refine ⟨s, ?_, rfl⟩
  simp only [execute, load, Actions.bind_apply, environmentAt_eq hwalk, look_eq henv hask]
  rfl

theorem step_assign {a : Address} {env v : Loc} {slots : List (Option Loc)} {outer : Option Loc}
    (hi : program.code[c.pc]? = some (.assign a))
    (hwalk : outward c.env a.frame c.nodes = .ok (some env) c.nodes)
    (henv : c.nodes[env]? = some (.environment slots outer)) (hlt : a.slot < slots.length)
    (hs : c.nodes[c.stack]? = some (.operandStack (v :: operands) free)) :
    Step program c { c with
      nodes := c.nodes.set env (.environment (slots.set a.slot (some v)) outer)
      pc := c.pc + 1 } := by
  refine Step.of_execute_eq hi ?_
  rintro s rfl
  dsimp only [State.core] at *
  have hpeek : (Node.operandStack (v :: operands) free).peek 0 = .ok v := by simp [Node.peek]
  have hset : (Node.environment slots outer).setSlot a.slot v =
      .ok (.environment (slots.set a.slot (some v)) outer) := by simp [Node.setSlot, hlt]
  simp only [execute, assign, Actions.bind_apply, Actions.get_apply, look_eq hs hpeek,
    environmentAt_eq hwalk, change_eq henv hset]
  rfl

theorem step_pop {v : Loc} (hi : program.code[c.pc]? = some .pop)
    (hs : c.nodes[c.stack]? = some (.operandStack (v :: operands) free)) :
    Step program c { c with
      nodes := c.nodes.set c.stack (.operandStack operands (free + 1))
      pc := c.pc + 1 } := by
  refine Step.of_execute_eq hi ?_
  rintro s rfl
  dsimp only [State.core] at *
  simp only [execute, Actions.bind_apply, pop_eq hs]
  rfl

/-! ## Jumps and scopes -/

theorem step_jump {target : Nat} (hi : program.code[c.pc]? = some (.jump target)) :
    Step program c { c with pc := target } := by
  refine Step.of_execute hi ?_
  rintro s rfl
  dsimp only [State.core] at *
  exact ⟨_, rfl, rfl⟩

theorem step_jumpIfFalse {target : Nat} {l : Loc} {b : Bool}
    (hi : program.code[c.pc]? = some (.jumpIfFalse target))
    (hs : c.nodes[c.stack]? = some (.operandStack (l :: operands) free))
    (hl : c.nodes[l]? = some (.boxed (.boolean b))) :
    Step program c { c with
      nodes := c.nodes.set c.stack (.operandStack operands (free + 1))
      pc := if b then c.pc + 1 else target } := by
  refine Step.of_execute_eq hi ?_
  rintro s rfl
  dsimp only [State.core] at *
  have hne : s.stack ≠ l := ne_of_kind hs hl (by simp [Node.kind])
  have hl' : (s.put s.stack (.operandStack operands (free + 1))).nodes[l]? = _ :=
    (State.put_ne hne).trans hl
  simp only [execute, jumpIfFalse, Actions.bind_apply, pop_eq hs]
  rw [look_eq hl' (b := .literal (.boolean b)) rfl]
  cases b <;> rfl

theorem fails_jumpIfFalse {target : Nat} {l : Loc} {n : Node} {a : Argument}
    (hi : program.code[c.pc]? = some (.jumpIfFalse target))
    (hs : c.nodes[c.stack]? = some (.operandStack (l :: operands) free))
    (hl : c.nodes[l]? = some n) (ha : n.argument l = .ok a) (hb : ∀ b, a ≠ .literal (.boolean b)) :
    Fails program c (.typeError "conditional" "boolean" a.typeName) c.output := by
  refine Fails.of_execute hi ?_
  rintro s rfl room
  dsimp only [State.core] at *
  have hne : s.stack ≠ l := by
    intro heq
    rw [← heq] at hl
    obtain rfl : n = _ := Option.some.inj (hl.symm.trans hs)
    simp [Node.argument] at ha
  have hl' : (s.put s.stack (.operandStack operands (free + 1))).nodes[l]? = _ :=
    (State.put_ne hne).trans hl
  refine ⟨s.put s.stack (.operandStack operands (free + 1)), ?_, rfl⟩
  simp only [execute, jumpIfFalse, Actions.bind_apply, pop_eq hs]
  rw [look_eq hl' ha]
  dsimp only
  rcases a with ⟨_ | ⟨_ | _⟩ | _ | _ | _⟩ | _ | _ <;> first
    | exact absurd rfl (hb _)
    | rfl

/-- The state of a scope that is being entered, with its frame and without its environment. -/
def State.withBlock (s : State) : State :=
  { s.add (.blockFrame (some s.env)) with
    control := s.nodes.length :: s.control
    peakDepth := max s.peakDepth (s.nodes.length :: s.control).length }

/-- Entering a scope takes a frame first and an environment then. -/
theorem enterScope_eq (room : Option Nat) {s : State} {slots : Nat} {names : List (Option Loc)}
    {outer : Option Loc} (henv : s.nodes[s.env]? = some (.environment names outer))
    (hframe : fresh room (.blockFrame none) s = .ok s.nodes.length (s.add (.blockFrame none))) :
    enterScope room slots s =
      (do
        let env ← fresh room (.environment (List.replicate slots none) none)
        setEnclosing env (← get).env
        setEnv env
        advance : Act Unit) s.withBlock := by
  have hlink : (liftM (setFrameEnv s.nodes.length s.env) : Act Unit) (s.add (.blockFrame none)) =
      .ok () (s.add (.blockFrame (some s.env))) := by
    rw [setFrameEnv_eq State.add_new rfl (State.add_old henv), State.add_put]
  refine Eq.trans (Actions.bind_ok hframe) ?_
  refine Eq.trans (Actions.bind_ok rfl) ?_
  refine Eq.trans (Actions.bind_ok hlink) ?_
  exact Eq.trans (Actions.bind_ok rfl) rfl

theorem step_enterScope {slots : Nat} {names : List (Option Loc)} {outer : Option Loc}
    (hi : program.code[c.pc]? = some (.enterScope slots))
    (henv : c.nodes[c.env]? = some (.environment names outer)) :
    Step program c { c with
      nodes := c.nodes ++ [.blockFrame (some c.env),
        .environment (List.replicate slots none) (some c.env)]
      pc := c.pc + 1
      env := c.nodes.length + 1
      control := c.nodes.length :: c.control } := by
  refine Step.of_execute hi ?_
  rintro s rfl
  dsimp only [State.core] at *
  have hlength : s.withBlock.nodes.length = s.nodes.length + 1 := by simp [State.withBlock, State.add]
  have hlink : (liftM (setEnclosing s.withBlock.nodes.length s.env) : Act Unit)
      (s.withBlock.add (.environment (List.replicate slots none) none)) =
        .ok () (s.withBlock.add (.environment (List.replicate slots none) (some s.env))) := by
    have henv' : s.withBlock.nodes[s.env]? = _ := State.add_old henv
    rw [setEnclosing_eq State.add_new (State.add_old henv'), State.add_put]
  refine ⟨{ s.withBlock.add (.environment (List.replicate slots none) (some s.env)) with
    env := s.nodes.length + 1
    pc := s.pc + 1 }, ?_, by simp [State.withBlock, State.add]⟩
  rw [execute, Actions.bind_apply, enterScope_eq none henv rfl]
  simp only [Actions.bind_apply, fresh_eq, Actions.get_apply, State.add_env]
  rw [show s.withBlock.env = s.env from rfl, hlink, hlength]
  rfl

theorem popFrame_eq {s : State} {frame : Loc} {rest : List Loc} (hc : s.control = frame :: rest) :
    popFrame s = .ok frame { s with control := rest } := by
  simp only [popFrame, dropFrame, Actions.bind_apply, Actions.get_apply, hc, Actions.modify_apply,
    List.tail_cons, Actions.pure_apply]

theorem step_exitScope {frame env : Loc} {rest : List Loc}
    (hi : program.code[c.pc]? = some .exitScope) (hc : c.control = frame :: rest)
    (hframe : c.nodes[frame]? = some (.blockFrame (some env))) :
    Step program c { c with pc := c.pc + 1, env := env, control := rest } := by
  refine Step.of_execute hi ?_
  rintro s rfl
  dsimp only [State.core] at *
  have hs : s.control = frame :: rest := hc
  refine ⟨{ s with pc := s.pc + 1, env := env, control := rest }, ?_, rfl⟩
  have hask : (Node.blockFrame (some env)).frameEnv = .ok env := rfl
  simp only [execute, exitScope, Actions.bind_apply, popFrame_eq hs]
  rw [expect_eq .blockFrame (s := { s with control := rest }) hframe rfl]
  dsimp only
  rw [look_eq (s := { s with control := rest }) hframe hask]
  rfl

/-! ## Functions -/

theorem step_loadFunction {arity entry capacity : Nat} {names : List (Option Loc)} {outer : Option Loc}
    (hi : program.code[c.pc]? = some (.loadFunction arity entry capacity))
    (henv : c.nodes[c.env]? = some (.environment names outer))
    (hs : c.nodes[c.stack]? = some (.operandStack operands (free + 1))) :
    Step program c { c with
      nodes := (c.nodes ++ [Node.closure (some c.env) arity entry capacity]).set c.stack
        (.operandStack (c.nodes.length :: operands) free)
      pc := c.pc + 1 } := by
  refine Step.of_execute_eq hi ?_
  rintro s rfl
  dsimp only [State.core] at *
  have hlink : (liftM (setClosureEnv s.nodes.length s.env) : Act Unit)
      (s.add (.closure none arity entry capacity)) =
        .ok () (s.add (.closure (some s.env) arity entry capacity)) := by
    rw [setClosureEnv_eq State.add_new (State.add_old henv), State.add_put]
  simp only [execute, loadFunction, Actions.bind_apply, fresh_eq, Actions.get_apply, State.add_env, hlink,
    push_eq _ (State.add_old hs)]
  rfl

/-- A return goes to the innermost call, whatever blocks are still open. -/
theorem returnFromCall_eq {s : State} {v env stack frame : Loc} {address : Nat}
    {blocks rest operands' : List Loc} {free' : Nat}
    (hs : s.nodes[s.stack]? = some (.operandStack (v :: operands) free))
    (hc : s.control = blocks ++ frame :: rest)
    (hb : ∀ l ∈ blocks, ∃ env, s.nodes[l]? = some (.blockFrame env))
    (hframe : s.nodes[frame]? = some (.callFrame (some env) (some stack) address))
    (hstack : s.nodes[stack]? = some (.operandStack operands' (free' + 1))) (hne : s.stack ≠ stack) :
    returnFromCall s = .ok () { s with
      nodes := (s.nodes.set s.stack (.operandStack operands (free + 1))).set stack
        (.operandStack (v :: operands') free')
      pc := address
      env := env
      stack := stack
      control := rest } := by
  have hother : ∀ {l : Loc} {n : Node}, n.kind ≠ .operandStack → s.nodes[l]? = some n →
      (s.put s.stack (.operandStack operands (free + 1))).nodes[l]? = some n := by
    intro l n hk hn
    exact (State.put_ne (ne_of_kind hs hn (Ne.symm hk))).trans hn
  have hunwind := unwindBlocks_eq (s := s.put s.stack (.operandStack operands (free + 1))) hc
    (fun l hl => (hb l hl).imp fun env hn => hother (by simp [Node.kind]) hn)
    (hother (by simp [Node.kind]) hframe) rfl
  have hframe' := hother (by simp [Node.kind]) hframe
  have hstack' : (s.put s.stack (.operandStack operands (free + 1))).nodes[stack]? = _ :=
    (State.put_ne hne).trans hstack
  refine Eq.trans (Actions.bind_ok (pop_eq hs)) ?_
  refine Eq.trans (Actions.bind_ok hunwind) ?_
  refine Eq.trans (Actions.bind_ok (popFrame_eq rfl)) ?_
  refine Eq.trans (Actions.bind_ok (look_eq hframe' rfl)) ?_
  refine Eq.trans (Actions.bind_ok rfl) ?_
  refine Eq.trans (Actions.bind_ok (look_eq hframe' rfl)) ?_
  refine Eq.trans (Actions.bind_ok rfl) ?_
  refine Eq.trans (Actions.bind_ok (look_eq hframe' rfl)) ?_
  refine Eq.trans (Actions.bind_ok rfl) ?_
  exact push_eq v hstack'

theorem step_ret {v env stack frame : Loc} {address : Nat} {blocks rest operands' : List Loc}
    {free' : Nat} (hi : program.code[c.pc]? = some .ret)
    (hs : c.nodes[c.stack]? = some (.operandStack (v :: operands) free))
    (hc : c.control = blocks ++ frame :: rest)
    (hb : ∀ l ∈ blocks, ∃ env, c.nodes[l]? = some (.blockFrame env))
    (hframe : c.nodes[frame]? = some (.callFrame (some env) (some stack) address))
    (hstack : c.nodes[stack]? = some (.operandStack operands' (free' + 1))) (hne : c.stack ≠ stack) :
    Step program c { c with
      nodes := (c.nodes.set c.stack (.operandStack operands (free + 1))).set stack
        (.operandStack (v :: operands') free')
      pc := address
      env := env
      stack := stack
      control := rest } := by
  refine Step.of_execute_eq hi ?_
  rintro s rfl
  dsimp only [State.core] at *
  simp only [execute, Actions.bind_apply, returnFromCall_eq hs hc hb hframe hstack hne]
  rfl

/-! ## Calls -/

/-- The node has the argument as its value. -/
def HasArgument (nodes : List Node) (l : Loc) (a : Argument) : Prop :=
  ∃ n, nodes[l]? = some n ∧ n.argument l = .ok a

/-- Values are not where an operand stack is. -/
theorem HasArgument.put {s : State} {l : Loc} {a : Argument} (h : HasArgument s.nodes l a)
    (hs : s.nodes[s.stack]? = some (.operandStack operands free)) (n : Node) :
    HasArgument (s.put s.stack n).nodes l a := by
  obtain ⟨n', hn, ha⟩ := h
  refine ⟨n', ?_, ha⟩
  rw [State.put_ne, hn]
  rintro rfl
  obtain rfl : n' = _ := Option.some.inj (hn.symm.trans hs)
  simp [Node.argument] at ha

/-- Operands are taken off from the top, and come in the order in which they were pushed. -/
theorem popOperands_eq {s : State} {locs : List Loc} {args : List Argument} (rest : List Argument)
    (hs : s.nodes[s.stack]? = some (.operandStack (locs ++ operands) free))
    (hargs : List.Forall₂ (HasArgument s.nodes) locs args) :
    popOperands rest locs.length s =
      .ok (args.reverse ++ rest) (s.put s.stack (.operandStack operands (free + locs.length))) := by
  induction locs generalizing s args rest free with
  | nil =>
    obtain rfl : args = [] := List.forall₂_nil_left_iff.mp hargs
    have hsame : s.put s.stack (.operandStack operands free) = s := State.put_same hs
    simp only [List.length_nil, popOperands, Nat.add_zero, List.reverse_nil, List.nil_append, hsame,
      Actions.pure_apply]
  | cons l locs ih =>
    obtain ⟨a, args, hl, hrest, rfl⟩ := List.forall₂_cons_left_iff.mp hargs
    let s₁ := s.put s.stack (.operandStack (locs ++ operands) (free + 1))
    obtain ⟨n, hn, ha⟩ : HasArgument s₁.nodes l a := hl.put hs _
    have hrest' : List.Forall₂ (HasArgument s₁.nodes) locs args := hrest.imp fun _ _ h => h.put hs _
    have hs₁ : s₁.nodes[s₁.stack]? = some (.operandStack (locs ++ operands) (free + 1)) :=
      State.put_self hs
    refine Eq.trans (Actions.bind_ok (pop_eq hs)) ?_
    refine Eq.trans (Actions.bind_ok (look_eq hn ha)) ?_
    refine (ih (a :: rest) hs₁ hrest').trans ?_
    rw [State.put_stack, State.put_put, List.reverse_cons, List.append_assoc, List.length_cons,
      Nat.add_assoc, Nat.add_comm 1]
    rfl

/-- The callee is under the arguments. -/
theorem callee_eq {s : State} {callee : Loc} {locs : List Loc}
    (hs : s.nodes[s.stack]? = some (.operandStack (locs ++ callee :: operands) free)) :
    (liftM (look s.stack (Node.peek locs.length)) : Act Loc) s = .ok callee s :=
  look_eq hs (by simp [Node.peek])

section Primitive

variable {s : State} {callee : Loc} {locs : List Loc} {args : List Argument} {p : Primitive} {id : Nat}

/-- Once the operands and the callee have been taken off, the result is all that needs memory. -/
theorem callPrimitive_result (room : Option Nat) {value : Literal} {tail : Bool}
    (hs : s.nodes[s.stack]? = some (.operandStack (locs ++ callee :: operands) free))
    (hcallee : s.nodes[callee]? = some (.primitive id)) (hid : Primitive.ofId? id = some p)
    (harity : p.arity = locs.length) (hargs : List.Forall₂ (HasArgument s.nodes) locs args)
    (hm : p.meaning args.reverse = .ok value) :
    callPrimitive room callee locs.length tail s =
      (do push (← fresh room (.boxed value)); if tail then returnFromCall else advance : Act Unit)
        { s.put s.stack (.operandStack operands (free + locs.length + 1)) with
          output := s.output ++ p.shows args.reverse } := by
  let s₁ := s.put s.stack (.operandStack (callee :: operands) (free + locs.length))
  let s₂ := s₁.put s.stack (.operandStack operands (free + locs.length + 1))
  have hpop : popOperands [] locs.length s = .ok args.reverse s₁ := by
    rw [popOperands_eq [] hs hargs, List.append_nil]
  have hs₁ : s₁.nodes[s₁.stack]? = _ := State.put_self hs
  have happly : applyPrimitive p args.reverse s₂ =
      .ok value { s₂ with output := s₂.output ++ p.shows args.reverse } := by
    rw [applyPrimitive, hm]
  refine Eq.trans (Actions.bind_ok (look_eq hcallee rfl)) ?_
  dsimp only
  rw [hid]
  dsimp only
  rw [if_neg (not_not_intro harity)]
  refine Eq.trans (Actions.bind_ok hpop) ?_
  refine Eq.trans (Actions.bind_ok (pop_eq hs₁)) ?_
  refine Eq.trans (Actions.bind_ok happly) ?_
  have hsame : s₂ = s.put s.stack (.operandStack operands (free + locs.length + 1)) :=
    State.put_put ..
  rw [hsame]
  rfl

/-- The call of a primitive replaces the operands by the result. Where it goes on is left open. -/
theorem callPrimitive_ok {value : Literal} {tail : Bool}
    (hs : s.nodes[s.stack]? = some (.operandStack (locs ++ callee :: operands) free))
    (hcallee : s.nodes[callee]? = some (.primitive id)) (hid : Primitive.ofId? id = some p)
    (harity : p.arity = locs.length) (hargs : List.Forall₂ (HasArgument s.nodes) locs args)
    (hm : p.meaning args.reverse = .ok value) :
    callPrimitive none callee locs.length tail s =
      (if tail then returnFromCall else advance) { s with
        nodes := (s.nodes ++ [Node.boxed value]).set s.stack
          (.operandStack (s.nodes.length :: operands) (free + locs.length))
        output := s.output ++ p.shows args.reverse } := by
  let s₁ := { s.put s.stack (.operandStack operands (free + locs.length + 1)) with
    output := s.output ++ p.shows args.reverse }
  have hs₁ : s₁.nodes[s₁.stack]? = some (.operandStack operands (free + locs.length + 1)) :=
    State.put_self hs
  rw [callPrimitive_result none hs hcallee hid harity hargs hm]
  refine Eq.trans (Actions.bind_ok (fresh_eq s₁ _)) ?_
  refine Eq.trans (Actions.bind_ok (push_eq _ (State.add_old hs₁))) ?_
  have hlt : s.stack < s.nodes.length := (List.getElem?_eq_some_iff.mp hs).1
  simp [s₁, State.put, State.add, List.set_append_left, hlt]

/-- Arguments of a wrong type are left to the primitive to refuse. -/
theorem callPrimitive_error (room : Option Nat) {fault : Fault} (tail : Bool)
    (hs : s.nodes[s.stack]? = some (.operandStack (locs ++ callee :: operands) free))
    (hcallee : s.nodes[callee]? = some (.primitive id)) (hid : Primitive.ofId? id = some p)
    (harity : p.arity = locs.length) (hargs : List.Forall₂ (HasArgument s.nodes) locs args)
    (hm : p.meaning args.reverse = .error fault) :
    ∃ s', callPrimitive room callee locs.length tail s = .error fault s' ∧ s'.output = s.output := by
  let s₁ := s.put s.stack (.operandStack (callee :: operands) (free + locs.length))
  let s₂ := s₁.put s.stack (.operandStack operands (free + locs.length + 1))
  have hpop : popOperands [] locs.length s = .ok args.reverse s₁ := by
    rw [popOperands_eq [] hs hargs, List.append_nil]
  have hs₁ : s₁.nodes[s₁.stack]? = _ := State.put_self hs
  have happly : applyPrimitive p args.reverse s₂ = .error fault s₂ := by
    rw [applyPrimitive, hm]
  refine ⟨s₂, ?_, rfl⟩
  refine Eq.trans (Actions.bind_ok (look_eq hcallee rfl)) ?_
  dsimp only
  rw [hid]
  dsimp only
  rw [if_neg (not_not_intro harity)]
  refine Eq.trans (Actions.bind_ok hpop) ?_
  refine Eq.trans (Actions.bind_ok (pop_eq hs₁)) ?_
  exact Actions.bind_error happly

theorem callPrimitive_arity {room : Option Nat} {n : Nat} {tail : Bool} (hcallee : s.nodes[callee]? = some (.primitive id))
    (hid : Primitive.ofId? id = some p) (harity : p.arity ≠ n) :
    callPrimitive room callee n tail s = .error (.arityMismatch (some p.name) p.arity n) s := by
  refine Eq.trans (Actions.bind_ok (look_eq hcallee rfl)) ?_
  dsimp only
  rw [hid]
  dsimp only
  rw [if_pos harity]
  rfl

end Primitive

section Closure

variable {s : State} {callee env : Loc} {locs : List Loc} {arity entry capacity : Nat}

theorem callClosure_arity {room : Option Nat} {n : Nat} {tail : Bool}
    (hcallee : s.nodes[callee]? = some (.closure (some env) arity entry capacity)) (harity : arity ≠ n) :
    callClosure room callee n tail s = .error (.arityMismatch none arity n) s := by
  refine Eq.trans (Actions.bind_ok (look_eq hcallee rfl)) ?_
  refine Eq.trans (Actions.bind_ok (look_eq hcallee rfl)) ?_
  refine Eq.trans (Actions.bind_ok (look_eq hcallee rfl)) ?_
  rw [if_pos harity]
  rfl

/-- The arguments move over to the new environment, which is linked to that of the closure. -/
theorem enterClosure_eq (frame : Option Loc) (stack inner : Loc) {slots : List (Option Loc)}
    {outer : Option Loc} (hne : s.stack ≠ inner) (hcallee_ne : inner ≠ callee) (henv_ne : inner ≠ env)
    (hs : s.nodes[s.stack]? = some (.operandStack (locs ++ callee :: operands) free))
    (hinner : s.nodes[inner]? = some (.environment (List.replicate locs.length none) none))
    (hcallee : s.nodes[callee]? = some (.closure (some env) arity entry capacity))
    (henv : s.nodes[env]? = some (.environment slots outer)) :
    enterClosure locs.length entry frame stack inner s =
      (do suspend frame; setEnv inner; setStack stack; jump entry : Act Unit)
        ((s.put s.stack (.operandStack operands (free + locs.length + 1))).put inner
          (.environment (locs.reverse.map some) (some env))) := by
  let s₁ := (s.put s.stack (.operandStack (callee :: operands) (free + locs.length))).put inner
    (.environment (locs.reverse.map some) none)
  let s₂ := s₁.put s.stack (.operandStack operands (free + locs.length + 1))
  have hmove : moveArguments inner locs.length s = .ok () s₁ := by
    rw [moveArguments_eq hne hs hinner (by simp), List.drop_of_length_le (by simp), List.append_nil]
  have hs₁ : s₁.nodes[s₁.stack]? = some (.operandStack (callee :: operands) (free + locs.length)) :=
    (State.put_ne (Ne.symm hne)).trans (State.put_self hs)
  have hother : ∀ {l : Loc} {n : Node}, n.kind ≠ .operandStack → inner ≠ l →
      s.nodes[l]? = some n → s₂.nodes[l]? = some n := by
    intro l n hk hl hn
    have hstack : s.stack ≠ l := ne_of_kind hs hn (Ne.symm hk)
    rw [State.put_ne hstack, State.put_ne hl, State.put_ne hstack, hn]
  have hcallee₂ : s₂.nodes[callee]? = _ := hother (by simp [Node.kind]) hcallee_ne hcallee
  have henv₂ : s₂.nodes[env]? = _ := hother (by simp [Node.kind]) henv_ne henv
  have hinner₂ : s₂.nodes[inner]? = some (.environment (locs.reverse.map some) none) :=
    (State.put_ne hne).trans (State.put_self ((State.put_ne hne).trans hinner))
  refine Eq.trans (Actions.bind_ok hmove) ?_
  refine Eq.trans (Actions.bind_ok (pop_eq hs₁)) ?_
  refine Eq.trans (Actions.bind_ok (look_eq hcallee₂ rfl)) ?_
  refine Eq.trans (Actions.bind_ok (setEnclosing_eq hinner₂ henv₂)) ?_
  have hsame : s₂.put inner (.environment (locs.reverse.map some) (some env)) =
      (s.put s.stack (.operandStack operands (free + locs.length + 1))).put inner
        (.environment (locs.reverse.map some) (some env)) := by
    rw [show s₂ = s₁.put s.stack _ from rfl, State.put_comm (Ne.symm hne), State.put_put, State.put_put]
  exact congrArg _ hsame

theorem suspend_eq {frame : Loc} {address : Nat} {slots : List (Option Loc)} {outer : Option Loc}
    (hframe : s.nodes[frame]? = some (.callFrame none none address))
    (henv : s.nodes[s.env]? = some (.environment slots outer))
    (hs : s.nodes[s.stack]? = some (.operandStack operands free)) :
    suspend (some frame) s = .ok () { s with
      nodes := s.nodes.set frame (.callFrame (some s.env) (some s.stack) address)
      control := frame :: s.control
      peakDepth := max s.peakDepth (s.control.length + 1) } := by
  have hne : frame ≠ s.stack := ne_of_kind hframe hs (by simp [Node.kind])
  refine Eq.trans (Actions.bind_ok rfl) ?_
  refine Eq.trans (Actions.bind_ok (setFrameEnv_eq hframe rfl henv)) ?_
  refine Eq.trans (Actions.bind_ok rfl) ?_
  refine Eq.trans (Actions.bind_ok (setFrameStack_eq (State.put_self hframe)
    ((State.put_ne hne).trans hs))) ?_
  rw [State.put_put]
  rfl

/-- A call with the right number of arguments takes an environment and an operand stack, and perhaps a frame. -/
theorem callClosure_takes (room : Option Nat) {tail : Bool}
    (hcallee : s.nodes[callee]? = some (.closure (some env) locs.length entry capacity)) :
    callClosure room callee locs.length tail s =
      (do
        pin (← fresh room (.environment (List.replicate locs.length none) none))
        pin (← fresh room (.operandStack [] capacity))
        let frame ← newFrame room tail
        let stack ← unpin
        let env ← unpin
        enterClosure locs.length entry frame stack env : Act Unit) s := by
  refine Eq.trans (Actions.bind_ok (look_eq hcallee rfl)) ?_
  refine Eq.trans (Actions.bind_ok (look_eq hcallee rfl)) ?_
  refine Eq.trans (Actions.bind_ok (look_eq hcallee rfl)) ?_
  rw [if_neg (not_not_intro rfl)]

/-- The state with an environment and an operand stack for a function's body. -/
def State.makeActivation (s : State) (n capacity : Nat) : State :=
  (s.add (.environment (List.replicate n none) none)).add (.operandStack [] capacity)

theorem callClosure_eq {tail : Bool}
    (hcallee : s.nodes[callee]? = some (.closure (some env) locs.length entry capacity)) :
    callClosure none callee locs.length tail s =
      if tail then
        enterClosure locs.length entry none (s.nodes.length + 1) s.nodes.length
          (s.makeActivation locs.length capacity)
      else
        enterClosure locs.length entry (some (s.nodes.length + 2)) (s.nodes.length + 1) s.nodes.length
          ((s.makeActivation locs.length capacity).add (.callFrame none none (s.pc + 1))) := by
  have hlen : (s.add (.environment (List.replicate locs.length none) none)).nodes.length =
    s.nodes.length + 1 := State.add_length _ _
  rw [callClosure_takes none hcallee]
  refine Eq.trans (Actions.bind_ok (fresh_eq _ _)) ?_
  refine Eq.trans (Actions.bind_ok rfl) ?_
  refine Eq.trans (Actions.bind_ok (fresh_eq _ _)) ?_
  refine Eq.trans (Actions.bind_ok rfl) ?_
  cases tail with
  | true =>
    refine Eq.trans (Actions.bind_ok rfl) ?_
    refine Eq.trans (Actions.bind_ok rfl) ?_
    refine Eq.trans (Actions.bind_ok rfl) ?_
    rw [← hlen]
    rfl
  | false =>
    refine Eq.trans (Actions.bind_ok rfl) ?_
    refine Eq.trans (Actions.bind_ok rfl) ?_
    refine Eq.trans (Actions.bind_ok rfl) ?_
    have hlen' : (s.makeActivation locs.length capacity).nodes.length = s.nodes.length + 2 := by
      simp [State.makeActivation]
    rw [← hlen, ← hlen']
    rfl

end Closure

/-! ## Instructions of calls -/

/-- The instruction of a call. -/
def callInstruction (tail : Bool) (n : Nat) : Instruction := if tail then .tailCall n else .call n

section

variable {callee : Loc} {locs : List Loc} {args : List Argument} {p : Primitive} {id : Nat} {tail : Bool}

theorem execute_callInstruction (room : Option Nat) (tail : Bool) (n : Nat) :
    execute room (callInstruction tail n) = do call room n tail; return none := by
  cases tail <;> rfl

theorem call_primitive {s : State} (room : Option Nat)
    (hs : s.nodes[s.stack]? = some (.operandStack (locs ++ callee :: operands) free))
    (hcallee : s.nodes[callee]? = some (.primitive id)) :
    call room locs.length tail s = callPrimitive room callee locs.length tail s := by
  refine Eq.trans (Actions.bind_ok rfl) ?_
  refine Eq.trans (Actions.bind_ok (callee_eq hs)) ?_
  exact Eq.trans (Actions.bind_ok (look_eq hcallee rfl)) rfl

theorem call_closure {s : State} {env : Loc} {arity entry capacity : Nat} (room : Option Nat)
    (hs : s.nodes[s.stack]? = some (.operandStack (locs ++ callee :: operands) free))
    (hcallee : s.nodes[callee]? = some (.closure (some env) arity entry capacity)) :
    call room locs.length tail s = callClosure room callee locs.length tail s := by
  refine Eq.trans (Actions.bind_ok rfl) ?_
  refine Eq.trans (Actions.bind_ok (callee_eq hs)) ?_
  exact Eq.trans (Actions.bind_ok (look_eq hcallee rfl)) rfl

theorem fails_callLiteral {value : Literal}
    (hi : program.code[c.pc]? = some (callInstruction tail locs.length))
    (hs : c.nodes[c.stack]? = some (.operandStack (locs ++ callee :: operands) free))
    (hcallee : c.nodes[callee]? = some (.boxed value)) :
    Fails program c (.notAFunction (Argument.literal value).typeName) c.output := by
  refine Fails.of_execute hi ?_
  rintro s rfl room
  refine ⟨s, ?_, rfl⟩
  rw [execute_callInstruction]
  refine Actions.bind_error ?_
  refine Eq.trans (Actions.bind_ok rfl) ?_
  refine Eq.trans (Actions.bind_ok (callee_eq hs)) ?_
  refine Eq.trans (Actions.bind_ok (look_eq hcallee rfl)) ?_
  exact Eq.trans (Actions.bind_ok (typeNameOf_eq hcallee rfl)) rfl

theorem fails_callPrimitive {fault : Fault}
    (hi : program.code[c.pc]? = some (callInstruction tail locs.length))
    (hs : c.nodes[c.stack]? = some (.operandStack (locs ++ callee :: operands) free))
    (hcallee : c.nodes[callee]? = some (.primitive id)) (hid : Primitive.ofId? id = some p)
    (harity : p.arity = locs.length) (hargs : List.Forall₂ (HasArgument c.nodes) locs args)
    (hm : p.meaning args.reverse = .error fault) : Fails program c fault c.output := by
  refine Fails.of_execute hi ?_
  rintro s rfl room
  obtain ⟨s', hx, hout⟩ := callPrimitive_error room tail hs hcallee hid harity hargs hm
  refine ⟨s', ?_, hout⟩
  rw [execute_callInstruction]
  exact Actions.bind_error ((call_primitive room hs hcallee).trans hx)

theorem fails_callPrimitive_arity
    (hi : program.code[c.pc]? = some (callInstruction tail locs.length))
    (hs : c.nodes[c.stack]? = some (.operandStack (locs ++ callee :: operands) free))
    (hcallee : c.nodes[callee]? = some (.primitive id)) (hid : Primitive.ofId? id = some p)
    (harity : p.arity ≠ locs.length) :
    Fails program c (.arityMismatch (some p.name) p.arity locs.length) c.output := by
  refine Fails.of_execute hi ?_
  rintro s rfl room
  refine ⟨s, ?_, rfl⟩
  rw [execute_callInstruction]
  exact Actions.bind_error ((call_primitive room hs hcallee).trans (callPrimitive_arity hcallee hid harity))

theorem fails_callClosure_arity {env : Loc} {arity entry capacity : Nat}
    (hi : program.code[c.pc]? = some (callInstruction tail locs.length))
    (hs : c.nodes[c.stack]? = some (.operandStack (locs ++ callee :: operands) free))
    (hcallee : c.nodes[callee]? = some (.closure (some env) arity entry capacity))
    (harity : arity ≠ locs.length) :
    Fails program c (.arityMismatch none arity locs.length) c.output := by
  refine Fails.of_execute hi ?_
  rintro s rfl room
  refine ⟨s, ?_, rfl⟩
  rw [execute_callInstruction]
  exact Actions.bind_error ((call_closure room hs hcallee).trans (callClosure_arity hcallee harity))

theorem step_callPrimitive {value : Literal} (hi : program.code[c.pc]? = some (.call locs.length))
    (hs : c.nodes[c.stack]? = some (.operandStack (locs ++ callee :: operands) free))
    (hcallee : c.nodes[callee]? = some (.primitive id)) (hid : Primitive.ofId? id = some p)
    (harity : p.arity = locs.length) (hargs : List.Forall₂ (HasArgument c.nodes) locs args)
    (hm : p.meaning args.reverse = .ok value) :
    Step program c { c with
      nodes := (c.nodes ++ [Node.boxed value]).set c.stack
        (.operandStack (c.nodes.length :: operands) (free + locs.length))
      pc := c.pc + 1
      output := c.output ++ p.shows args.reverse } := by
  refine Step.of_execute_eq hi ?_
  rintro s rfl
  dsimp only [State.core] at *
  rw [execute, Actions.bind_apply, call_primitive none hs hcallee,
    callPrimitive_ok hs hcallee hid harity hargs hm]
  rfl

theorem step_tailCallPrimitive {value : Literal} {env stack frame : Loc} {address : Nat}
    {blocks rest operands' : List Loc} {free' : Nat}
    (hi : program.code[c.pc]? = some (.tailCall locs.length))
    (hs : c.nodes[c.stack]? = some (.operandStack (locs ++ callee :: operands) free))
    (hcallee : c.nodes[callee]? = some (.primitive id)) (hid : Primitive.ofId? id = some p)
    (harity : p.arity = locs.length) (hargs : List.Forall₂ (HasArgument c.nodes) locs args)
    (hm : p.meaning args.reverse = .ok value) (hc : c.control = blocks ++ frame :: rest)
    (hb : ∀ l ∈ blocks, ∃ env, c.nodes[l]? = some (.blockFrame env))
    (hframe : c.nodes[frame]? = some (.callFrame (some env) (some stack) address))
    (hstack : c.nodes[stack]? = some (.operandStack operands' (free' + 1))) (hne : c.stack ≠ stack) :
    Step program c { c with
      nodes := ((c.nodes ++ [Node.boxed value]).set c.stack
        (.operandStack operands (free + locs.length + 1))).set stack
          (.operandStack (c.nodes.length :: operands') free')
      pc := address
      env := env
      stack := stack
      control := rest
      output := c.output ++ p.shows args.reverse } := by
  refine Step.of_execute_eq hi ?_
  rintro s rfl
  dsimp only [State.core] at *
  rw [execute, Actions.bind_apply, call_primitive none hs hcallee,
    callPrimitive_ok hs hcallee hid harity hargs hm, if_pos rfl]
  have hlt : s.stack < s.nodes.length := (List.getElem?_eq_some_iff.mp hs).1
  have hother : ∀ {l : Loc} {n m : Node}, s.stack ≠ l → s.nodes[l]? = some n →
      ((s.nodes ++ [Node.boxed value]).set s.stack m)[l]? = some n := by
    intro l n m hl hn
    rw [List.getElem?_set_ne hl, List.getElem?_append_left (List.getElem?_eq_some_iff.mp hn).1, hn]
  have hreturn := returnFromCall_eq
    (s := { s with
      nodes := (s.nodes ++ [Node.boxed value]).set s.stack
        (.operandStack (s.nodes.length :: operands) (free + locs.length))
      output := s.output ++ p.shows args.reverse })
    (List.getElem?_set_self (by simpa using Nat.lt_succ_of_lt hlt)) hc
    (fun l hl => (hb l hl).imp fun env hn => hother (ne_of_kind hs hn (by simp [Node.kind])) hn)
    (hother (ne_of_kind hs hframe (by simp [Node.kind])) hframe) (hother hne hstack) hne
  rw [hreturn, List.set_set]
  rfl

theorem step_callClosure {env : Loc} {entry capacity : Nat} {slots : List (Option Loc)}
    {outer : Option Loc} (hi : program.code[c.pc]? = some (.call locs.length))
    (hs : c.nodes[c.stack]? = some (.operandStack (locs ++ callee :: operands) free))
    (hcallee : c.nodes[callee]? = some (.closure (some env) locs.length entry capacity))
    (henv : c.nodes[env]? = some (.environment slots outer))
    {slots' : List (Option Loc)} {outer' : Option Loc}
    (hcurrent : c.nodes[c.env]? = some (.environment slots' outer')) :
    Step program c { c with
      nodes := c.nodes.set c.stack (.operandStack operands (free + locs.length + 1)) ++
        [.environment (locs.reverse.map some) (some env), .operandStack [] capacity,
          .callFrame (some c.env) (some c.stack) (c.pc + 1)]
      pc := entry
      env := c.nodes.length
      stack := c.nodes.length + 1
      control := (c.nodes.length + 2) :: c.control } := by
  refine Step.of_execute hi ?_
  rintro s rfl
  dsimp only [State.core] at *
  -- The state with the three new nodes.
  let s₁ := (s.makeActivation locs.length capacity).add (.callFrame none none (s.pc + 1))
  have hold : ∀ {l : Loc} {n : Node}, s.nodes[l]? = some n → s₁.nodes[l]? = some n :=
    fun hn => State.add_old (State.add_old (State.add_old hn))
  have hne : ∀ {l : Loc} {n : Node} (k : Nat), s.nodes[l]? = some n → l ≠ s.nodes.length + k :=
    fun k hn => Nat.ne_of_lt (Nat.lt_add_right k (List.getElem?_eq_some_iff.mp hn).1)
  have henter := enterClosure_eq (s := s₁) (some (s.nodes.length + 2)) (s.nodes.length + 1)
    s.nodes.length (hne 0 hs)
    (Ne.symm (hne 0 hcallee)) (Ne.symm (hne 0 henv)) (hold hs)
    (State.add_old (State.add_old State.add_new)) (hold hcallee) (hold henv)
  let s₂ := (s₁.put s₁.stack (.operandStack operands (free + locs.length + 1))).put s.nodes.length
    (.environment (locs.reverse.map some) (some env))
  have hlt : s.stack < s.nodes.length := (List.getElem?_eq_some_iff.mp hs).1
  have hnodes : s₂.nodes = s.nodes.set s.stack (.operandStack operands (free + locs.length + 1)) ++
      [.environment (locs.reverse.map some) (some env), .operandStack [] capacity,
        .callFrame none none (s.pc + 1)] := by
    simp [s₂, s₁, State.makeActivation, State.put, State.add, List.set_append_left, hlt]
  have hcurrent₂ : s₂.nodes[s₂.env]? = some (.environment slots' outer') := by
    have hstack : s.stack ≠ s.env := ne_of_kind hs hcurrent (by simp [Node.kind])
    exact (State.put_ne (Ne.symm (hne 0 hcurrent))).trans ((State.put_ne hstack).trans (hold hcurrent))
  have hstack₂ : s₂.nodes[s₂.stack]? = some (.operandStack operands (free + locs.length + 1)) :=
    (State.put_ne (Ne.symm (hne 0 hs))).trans (State.put_self (hold hs))
  have hframe₂ : s₂.nodes[s.nodes.length + 2]? = some (.callFrame none none (s.pc + 1)) := by
    simp [hnodes]
  refine ⟨{ s with
    nodes := s₂.nodes.set (s.nodes.length + 2) (.callFrame (some s.env) (some s.stack) (s.pc + 1))
    pc := entry
    env := s.nodes.length
    stack := s.nodes.length + 1
    control := (s.nodes.length + 2) :: s.control
    peakDepth := max s.peakDepth (s.control.length + 1) }, ?_, by simp [hnodes]⟩
  rw [execute, Actions.bind_apply, call_closure none hs hcallee, callClosure_eq hcallee, if_neg (by simp),
    henter, Actions.bind_ok (suspend_eq hframe₂ hcurrent₂ hstack₂)]
  rfl

theorem step_tailCallClosure {env frame : Loc} {entry capacity : Nat} {slots : List (Option Loc)}
    {outer : Option Loc} {blocks rest : List Loc} {n : Node}
    (hi : program.code[c.pc]? = some (.tailCall locs.length))
    (hs : c.nodes[c.stack]? = some (.operandStack (locs ++ callee :: operands) free))
    (hcallee : c.nodes[callee]? = some (.closure (some env) locs.length entry capacity))
    (henv : c.nodes[env]? = some (.environment slots outer))
    (hc : c.control = blocks ++ frame :: rest)
    (hb : ∀ l ∈ blocks, ∃ env, c.nodes[l]? = some (.blockFrame env))
    (hframe : c.nodes[frame]? = some n) (hk : n.kind = .callFrame) :
    Step program c { c with
      nodes := c.nodes.set c.stack (.operandStack operands (free + locs.length + 1)) ++
        [.environment (locs.reverse.map some) (some env), .operandStack [] capacity]
      pc := entry
      env := c.nodes.length
      stack := c.nodes.length + 1
      control := frame :: rest } := by
  refine Step.of_execute hi ?_
  rintro s rfl
  dsimp only [State.core] at *
  let s₁ := s.makeActivation locs.length capacity
  have hold : ∀ {l : Loc} {n : Node}, s.nodes[l]? = some n → s₁.nodes[l]? = some n :=
    fun hn => State.add_old (State.add_old hn)
  have hne : ∀ {l : Loc} {n : Node} (k : Nat), s.nodes[l]? = some n → l ≠ s.nodes.length + k :=
    fun k hn => Nat.ne_of_lt (Nat.lt_add_right k (List.getElem?_eq_some_iff.mp hn).1)
  have henter := enterClosure_eq (s := s₁) none (s.nodes.length + 1) s.nodes.length (hne 0 hs)
    (Ne.symm (hne 0 hcallee)) (Ne.symm (hne 0 henv)) (hold hs)
    (State.add_old State.add_new) (hold hcallee) (hold henv)
  let s₂ := (s₁.put s₁.stack (.operandStack operands (free + locs.length + 1))).put s.nodes.length
    (.environment (locs.reverse.map some) (some env))
  have hother : ∀ {l : Loc} {n : Node}, n.kind ≠ .operandStack → s.nodes[l]? = some n →
      s₂.nodes[l]? = some n := by
    intro l n hk hn
    have hstack : s.stack ≠ l := ne_of_kind hs hn (Ne.symm hk)
    exact (State.put_ne (Ne.symm (hne 0 hn))).trans ((State.put_ne hstack).trans (hold hn))
  have hunwind := unwindBlocks_eq (s := s₂) hc
    (fun l hl => (hb l hl).imp fun env hn => hother (by simp [Node.kind]) hn)
    (hother (by simp [hk]) hframe) hk
  have hsuspend : suspend none s₂ = .ok () { s₂ with control := frame :: rest } := hunwind
  have hlt : s.stack < s.nodes.length := (List.getElem?_eq_some_iff.mp hs).1
  have hnodes : s₂.nodes = s.nodes.set s.stack (.operandStack operands (free + locs.length + 1)) ++
      [.environment (locs.reverse.map some) (some env), .operandStack [] capacity] := by
    simp [s₂, s₁, State.makeActivation, State.put, State.add, List.set_append_left, hlt]
  refine ⟨{ s with
    nodes := s₂.nodes
    pc := entry
    env := s.nodes.length
    stack := s.nodes.length + 1
    control := frame :: rest }, ?_, by simp [hnodes]⟩
  rw [execute, Actions.bind_apply, call_closure none hs hcallee, callClosure_eq hcallee, if_pos rfl,
    henter, Actions.bind_ok hsuspend]
  rfl

end

/-! ## The end -/

theorem answers_done {l : Loc} {a : Argument} (hi : program.code[c.pc]? = some .done)
    (hs : c.nodes[c.stack]? = some (.operandStack [l] free)) (ha : HasArgument c.nodes l a) :
    Answers program c a.answer := by
  refine Answers.of_execute hi ?_
  rintro s rfl room
  dsimp only [State.core] at *
  obtain ⟨n, hn, hask⟩ := ha.put hs (.operandStack [] (free + 1))
  refine ⟨s.put s.stack (.operandStack [] (free + 1)), ?_, rfl⟩
  suffices hfinish : finish s = .ok a.answer (s.put s.stack (.operandStack [] (free + 1))) from
    Eq.trans (Actions.bind_ok hfinish) rfl
  refine Eq.trans (Actions.bind_ok rfl) ?_
  refine Eq.trans (Actions.bind_ok (look_eq hs rfl)) ?_
  refine Eq.trans (Actions.bind_ok (pop_eq hs)) ?_
  refine Eq.trans (Actions.bind_ok (look_eq hn hask)) ?_
  cases a <;> rfl

end

end ClosureMachine.Ideal
