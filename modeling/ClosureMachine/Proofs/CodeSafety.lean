import ClosureMachine.Proofs.Ideal.Progress
import ClosureMachine.Proofs.MemorySafety
import ClosureMachine.Proofs.Transparency

/-!
# Compiled programs do not go wrong

A compiled program can still fail: it may add a number to a text, call what is not a function, or use a name too
early; memory or the number of steps may not suffice. But it never fails because of its code. The capacities
that were computed for the operand stacks are enough, addresses lead to slots, scopes are left
by way of their own frames, returns have a call to return from, and at the end there is one value.

`Machine.Meets` says of a machine that it has what an instruction needs. The theorem is that a machine which
runs a compiled program meets every instruction that it comes to.
-/

set_option autoImplicit false

namespace ClosureMachine

open ClosureMachine.Ideal (State Node Loc Core InRole Situation Active Entered Waits Typed Caller)

namespace Config

/-- The kinds of faults with which compiled programs may fail. -/
def Allows (config : Config) : FaultKind → Prop
  | .outOfMemory | .typeError | .notAFunction | .arityMismatch | .unassignedName => True
  | .stepLimit => config.maxSteps ≠ none
  | .operandStackOverflow | .operandStackUnderflow | .controlStackUnderflow | .invalidAddress
  | .staleReference | .internal => False

end Config

namespace Machine

/-- The operand stack has `n` operands or more, and places for `k` more. -/
def Supplies (m : Machine) (stack : Ref) (n k : Nat) : Prop :=
  ∃ depth capacity, OperandStack.depth stack m.heap = .ok depth ∧
    OperandStack.capacity stack m.heap = .ok capacity ∧ n ≤ depth ∧ depth + k ≤ capacity

/-- There is an environment for the address, and it has the slot. -/
def HasSlot (m : Machine) (a : Address) : Prop :=
  ∃ env slots, Environment.outward m.registers.env a.frame m.heap = .ok (some env) ∧
    Environment.size env m.heap = .ok slots ∧ a.slot < slots

/-- The innermost frame is the one that was made for the current scope: it keeps the environment around
it. -/
def InScope (m : Machine) : Prop :=
  ∃ frame rest env, m.registers.control.frames = frame :: rest ∧
    Heap.kind frame m.heap = .ok .blockFrame ∧ Frame.env frame m.heap = .ok env ∧
    Environment.enclosing? m.registers.env m.heap = .ok (some env)

/-- Below the frames of blocks there is one of a call, and the caller has a place for the result. -/
def InFunction (m : Machine) : Prop :=
  ∃ blocks frame rest stack, m.registers.control.frames = blocks ++ frame :: rest ∧
    (∀ block ∈ blocks, Heap.kind block m.heap = .ok .blockFrame) ∧
    Heap.kind frame m.heap = .ok .callFrame ∧ CallFrame.stack frame m.heap = .ok stack ∧
    m.Supplies stack 0 1

/-- The machine has what the instruction needs. -/
def Meets (m : Machine) : Instruction → Prop
  | .loadConstant _ | .loadFunction .. => m.Supplies m.registers.stack 0 1
  | .load a => m.HasSlot a ∧ m.Supplies m.registers.stack 0 1
  | .assign a => m.HasSlot a ∧ m.Supplies m.registers.stack 1 0
  | .jumpIfFalse _ | .pop => m.Supplies m.registers.stack 1 0
  | .jump _ | .enterScope _ => True
  | .exitScope => m.InScope
  | .call n => m.Supplies m.registers.stack (n + 1) 0
  | .tailCall n => m.Supplies m.registers.stack (n + 1) 0 ∧ m.InFunction
  | .ret => m.Supplies m.registers.stack 1 0 ∧ m.InFunction
  | .done => OperandStack.depth m.registers.stack m.heap = .ok 1 ∧ m.registers.control.frames = []

end Machine

/-! ## From the ideal machine to memory -/

section

variable {room : Nat} {w : World} {m : Machine} {s : State}

theorem Rel.supplies (hrel : Rel room w m s) {r : Ref} {l : Loc} {operands : List Loc} {free n k : Nat}
    (hat : w.At r l) (hl : s.nodes[l]? = some (.operandStack operands free)) (hn : n ≤ operands.length)
    (hk : k ≤ free) : m.Supplies r n k := by
  have hplaced := hrel.rep.placed_of hat hl
  obtain ⟨depth, hdepth, rfl⟩ := hplaced.answers_depth.exists_of_ok
  exact ⟨_, _, hdepth, hplaced.stack_eq.1, hn, Nat.add_le_add_left hk _⟩

theorem Rel.hasSlot (hrel : Rel room w m s) {a : Address} {env : Loc} {slots : List (Option Loc)}
    {outer : Option Loc} (hwalk : Ideal.outward s.env a.frame s.nodes = .ok (some env) s.nodes)
    (henv : s.nodes[env]? = some (.environment slots outer)) (hlt : a.slot < slots.length) :
    m.HasSlot a := by
  have hsame := heapSim_outward a.frame hrel.env hrel.rep
  rw [hwalk, Actions.lift_look_heap] at hsame
  cases hr : Environment.outward m.registers.env a.frame m.heap with
  | error e =>
    rw [hr] at hsame
    exact hsame.elim
  | ok found =>
    rw [hr] at hsame
    obtain ⟨_, hfound⟩ := hsame
    cases hfound with
    | some hat =>
      exact ⟨_, slots.length, hr, (hrel.rep.placed_of hat henv).environmentSize_eq, hlt⟩

theorem Rel.inScope (hrel : Rel room w m s) {frame env : Loc} {rest : List Loc}
    {slots : List (Option Loc)} (hc : s.control = frame :: rest)
    (hframe : s.nodes[frame]? = some (.blockFrame (some env)))
    (henv : s.nodes[s.env]? = some (.environment slots (some env))) : m.InScope := by
  have hcontrol := hrel.control
  rw [hc] at hcontrol
  obtain ⟨r, refs, hat, -, hframes⟩ := List.forall₂_cons_right_iff.mp hcontrol
  have hplaced := hrel.rep.placed_of hat hframe
  obtain ⟨e, he, hate⟩ := hplaced.answers_frameEnv.exists_of_ok
  obtain ⟨o, ho, hato⟩ := (hrel.rep.placed_of hrel.env henv).answers_enclosing?.exists_of_ok
  cases hato with
  | some hato =>
    -- the environment has one place only
    obtain rfl := Option.some.inj (hate.symm.trans hato)
    exact ⟨r, refs, e, hframes, hplaced.kind_eq, he, ho⟩

theorem Rel.inFunction (hrel : Rel room w m s) {frame env stack : Loc} {address free : Nat}
    {blocks rest operands : List Loc} (hc : s.control = blocks ++ frame :: rest)
    (hb : ∀ l ∈ blocks, ∃ env, s.nodes[l]? = some (.blockFrame env))
    (hframe : s.nodes[frame]? = some (.callFrame (some env) (some stack) address))
    (hstack : s.nodes[stack]? = some (.operandStack operands (free + 1))) : m.InFunction := by
  have hcontrol := hrel.control
  rw [hc] at hcontrol
  have hblocks := List.forall₂_take_append _ _ _ hcontrol
  obtain ⟨r, refs, hat, -, hframes⟩ :=
    List.forall₂_cons_right_iff.mp (List.forall₂_drop_append _ _ _ hcontrol)
  have hplaced := hrel.rep.placed_of hat hframe
  obtain ⟨r', hr', hat'⟩ := hplaced.answers_frameStack.exists_of_ok
  refine ⟨m.registers.control.frames.take blocks.length, r, refs, r', ?_, ?_, hplaced.kind_eq, hr',
    hrel.supplies hat' hstack (Nat.zero_le _) ?_⟩
  · exact (List.take_append_drop blocks.length _).symm.trans (congrArg _ hframes)
  · intro b hmem
    obtain ⟨l, hl, hatb⟩ := Represents.Rooted.of_mem hblocks hmem
    obtain ⟨env', hn⟩ := hb l hl
    exact (hrel.rep.placed_of hatb hn).kind_eq
  · exact Nat.le_add_left 1 free

/-! ## What is met -/

/-- What is known of an instruction holds of the machine that comes to it. -/
theorem Rel.meets (hrel : Rel room w m s) {program : Program} (h : Typed program s.core) :
    ∃ i, program.code[m.registers.pc]? = some i ∧ m.Meets i := by
  obtain ⟨act, inner, operands, free, blocks, control, saved, hsit, hpoint⟩ := h
  obtain ⟨depth, hdepth⟩ : ∃ depth, operands.length = depth := ⟨_, rfl⟩
  have hstack := hsit.active.stack
  have hcapacity := hsit.active.capacity
  have hfunction : act.inFunction = true → m.InFunction := by
    intro hcaller
    obtain ⟨_, _, _, _, _, _, _, _, _, _, _, hc⟩ := (hcaller ▸ hsit.waits).caller
    have hframes := hsit.frames
    rw [hc.frames] at hframes
    exact hrel.inFunction hframes hsit.active.entered.isBlock hc.frame hc.active.stack
  rw [hdepth] at hpoint hcapacity
  rw [hrel.pc]
  cases hpoint with
  | loadConstant hi hroom _ =>
    exact ⟨_, hi, hrel.supplies hrel.stack hstack (Nat.zero_le _) (by omega)⟩
  | load hi hname hroom _ =>
    obtain ⟨env, slots, outer, hwalk, henv, hlt⟩ := hsit.active.chain.walk hname
    exact ⟨_, hi, hrel.hasSlot hwalk henv hlt, hrel.supplies hrel.stack hstack (Nat.zero_le _) (by omega)⟩
  | assign hi hname _ =>
    obtain ⟨env, slots, outer, hwalk, henv, hlt⟩ := hsit.active.chain.walk hname
    exact ⟨_, hi, hrel.hasSlot hwalk henv hlt, hrel.supplies hrel.stack hstack (by omega) (Nat.zero_le _)⟩
  | jumpIfFalse hi _ _ => exact ⟨_, hi, hrel.supplies hrel.stack hstack (by omega) (Nat.zero_le _)⟩
  | jump hi _ => exact ⟨_, hi, trivial⟩
  | pop hi _ => exact ⟨_, hi, hrel.supplies hrel.stack hstack (by omega) (Nat.zero_le _)⟩
  | enterScope hi _ => exact ⟨_, hi, trivial⟩
  | exitScope hi _ =>
    have hframes := hsit.frames
    cases hsit.active.entered with
    | cons henv hframe _ => exact ⟨_, hi, hrel.inScope hframes hframe henv⟩
  | loadFunction hi hroom _ _ =>
    exact ⟨_, hi, hrel.supplies hrel.stack hstack (Nat.zero_le _) (by omega)⟩
  | call hi _ => exact ⟨_, hi, hrel.supplies hrel.stack hstack (by omega) (Nat.zero_le _)⟩
  | tailCall hi hcaller =>
    exact ⟨_, hi, hrel.supplies hrel.stack hstack (by omega) (Nat.zero_le _), hfunction hcaller⟩
  | ret hi hcaller =>
    exact ⟨_, hi, hrel.supplies hrel.stack hstack (by omega) (Nat.zero_le _), hfunction hcaller⟩
  | done hi hmain =>
    obtain ⟨depth, hd, rfl⟩ := (hrel.rep.placed_of hrel.stack hstack).answers_depth.exists_of_ok
    refine ⟨_, hi, hdepth ▸ hd, ?_⟩
    -- in the main program no frames are left
    have hcontrol := hrel.control
    have hframes := hsit.frames
    have hwaits := hsit.waits
    rw [hmain] at hwaits
    cases hsit.active.entered with
    | nil =>
      cases hwaits with
      | main =>
        have hnil : s.control = [] := hframes
        rw [hnil] at hcontrol
        exact List.forall₂_nil_right_iff.mp hcontrol

end

/-! ## Turn after turn -/

namespace Ideal

/-- A limit on steps is noticed only when it is exceeded. -/
theorem turn_limit (room limit : Option Nat) (program : Program) (s : State) :
    turn room limit program s = turn room none program s ∨
      limit ≠ none ∧ ∃ failure s', turn room limit program s = (.error failure, s') ∧
        failure.fault.kind = .stepLimit := by
  cases limit with
  | none => exact .inl rfl
  | some limit =>
    unfold turn
    cases program.code[s.pc]? with
    | none => exact .inl rfl
    | some i =>
      by_cases hlt : limit < s.steps + 1
      · refine .inr ⟨Option.some_ne_none limit, (Failure.ofFault (.tooManySteps limit)).locatedAt s.pc i,
          { s with steps := s.steps + 1 }, ?_, ?_⟩
        · simp [countStep, Actions.bind_apply, hlt]
        · simp [Failure.ofFault, Fault.tooManySteps, Fault.kind]
      · left
        simp [countStep, Actions.bind_apply, hlt]

theorem Blameless.allows {fault : Fault} (h : Blameless fault) (config : Config) :
    config.Allows fault.kind := by
  cases h <;> trivial

/-- What a turn of a compiled program can end in. -/
def Orderly (config : Config) (program : Program) : Turn × State → Prop
  | (.ok none, s) => InOrder program s
  | (.ok (some _), _) => True
  | (.error failure, _) => config.Allows failure.fault.kind

/-- A turn of a compiled program is a move, gives the answer or fails with a fault that is allowed. -/
theorem InOrder.turn_cases {program : Program} {s : State} (h : InOrder program s) (config : Config)
    (room : Option Nat) :
    (∃ s', Ideal.turn room config.maxSteps program s = (.ok none, s') ∧ Move program s.core s'.core ∧
      InOrder program s') ∨
    (∃ answer s', Ideal.turn room config.maxSteps program s = (.ok (some answer), s')) ∨
    ∃ failure s', Ideal.turn room config.maxSteps program s = (.error failure, s') ∧
      config.Allows failure.fault.kind := by
  have hsorted := (h.sorted.turn room config.maxSteps program).1
  rcases turn_limit room config.maxSteps program s with hsame | ⟨hlimit, failure, s', hturn, hkind⟩
  · rw [hsame] at hsorted ⊢
    rcases turn_mono (Wider.unlimited room) none program s with hmem | hsame
    · rcases hturn : Ideal.turn room none program s with ⟨failure | outcome, s'⟩ <;> rw [hturn] at hmem
      · refine .inr (.inr ⟨failure, s', rfl, ?_⟩)
        rw [show failure.fault.kind = .outOfMemory from hmem]
        trivial
      · exact hmem.elim
    · rw [hsame] at hsorted ⊢
      cases h.next with
      | step move typed =>
        obtain ⟨s', hturn, hcore⟩ := move.step s rfl
        rw [hturn] at hsorted
        exact .inl ⟨s', hturn, hcore ▸ move, hsorted, hcore ▸ typed⟩
      | fails refusal =>
        obtain ⟨failure, s', hturn, hfault, -⟩ := refusal.fails s rfl none
        exact .inr (.inr ⟨failure, s', hturn, (hfault ▸ refusal.blameless).allows config⟩)
      | answers finish =>
        obtain ⟨s', hturn, -⟩ := finish.answers s rfl none
        exact .inr (.inl ⟨_, s', hturn⟩)
  · refine .inr (.inr ⟨failure, s', hturn, ?_⟩)
    rw [hkind]
    exact hlimit

theorem InOrder.turn {program : Program} {s : State} (h : InOrder program s) (config : Config)
    (room : Option Nat) : Orderly config program (Ideal.turn room config.maxSteps program s) := by
  rcases h.turn_cases config room with ⟨s', hturn, -, hnext⟩ | ⟨answer, s', hturn⟩ | ⟨failure, s', hturn, hallows⟩ <;>
    rw [hturn]
  · exact hnext
  · trivial
  · exact hallows

end Ideal

/-! ## Whole runs -/

namespace Machine

/-- The machine follows an ideal machine that is in order. -/
def OnTrack (room : Nat) (program : Program) (m : Machine) : Prop :=
  ∃ w s, Rel room w m s ∧ Ideal.InOrder program s

section

variable {room : Nat} {config : Config} {program : Program} {m : Machine}

/-- The turns of machine and ideal machine, and what follows for the machine. -/
theorem OnTrack.turn (h : m.OnTrack room program) (config : Config) :
    ((m.turn config program).1 = .ok none → (m.turn config program).2.OnTrack room program) ∧
      ∀ failure, (m.turn config program).1 = .error failure → config.Allows failure.fault.kind := by
  obtain ⟨w, s, hrel, hs⟩ := h
  obtain ⟨hsame, w', hrel'⟩ := hrel.turn config program
  have hideal := hs.turn config (some room)
  rcases hm : m.turn config program with ⟨failure | outcome, m'⟩ <;>
    rcases hi : Ideal.turn (some room) config.maxSteps program s with ⟨failure' | outcome', s'⟩ <;>
    rw [hm, hi] at hsame hrel' <;> rw [hi] at hideal
  · refine ⟨by rintro ⟨⟩, ?_⟩
    rintro _ ⟨⟩
    have hallows : config.Allows failure'.fault.kind := hideal
    rwa [hsame.1, Fault.kind_anywhere] at hallows
  · exact hsame.elim
  · exact hsame.elim
  · refine ⟨?_, by rintro _ ⟨⟩⟩
    rintro ⟨⟩
    cases hsame
    exact ⟨w', s', hrel', hideal⟩

theorem OnTrack.after (h : m.OnTrack room program) {n : Nat} (hgoes : m.GoesOn config program n) :
    (m.after config program n).OnTrack room program := by
  induction n with
  | zero => exact h
  | succ n ih =>
    have hbefore := ih fun k hk => hgoes k (Nat.lt_succ_of_lt hk)
    exact (hbefore.turn config).1 (hgoes n (Nat.lt_succ_self n))

theorem OnTrack.meets (h : m.OnTrack room program) : ∃ i, program.code[m.registers.pc]? = some i ∧ m.Meets i := by
  obtain ⟨w, s, hrel, hs⟩ := h
  exact hrel.meets hs.typed

/-! ### Booting -/

theorem onTrack_boot {tree : Tree} (hcompile : tree.toProgram Primitive.globals = .ok program)
    {log log' : Log} (h : boot config program log = (.ok m, log')) :
    m.OnTrack (config.heapSize / 2) program := by
  obtain ⟨w, hrel⟩ := rel_of_boot h
  exact ⟨w, _, hrel, Ideal.sorted_bootState program, Ideal.typed_boot hcompile⟩

/-- Booting fails only for want of memory. -/
theorem boot_error {log log' : Log} {failure : Failure}
    (h : boot config program log = (.error failure, log')) : failure.fault.kind = .outOfMemory := by
  have hrel := rel_boot config.heapSize program
  have hspec := Ideal.boot_spec (some (config.heapSize / 2)) program
  unfold boot at h
  cases hstore : bootStore config.heapSize program.mainStack with
  | ok registers heap => simp [hstore] at h
  | error e heap =>
    rw [hstore] at h hrel
    obtain rfl : Failure.ofFault (.heap e) = failure := by simpa using congrArg Prod.fst h
    cases hideal : Ideal.boot (some (config.heapSize / 2)) program with
    | ok s =>
      rw [hideal] at hrel
      exact hrel.elim
    | error e' =>
      rw [hideal] at hrel hspec
      have hkind : (Fault.heap e).anywhere.kind = .outOfMemory := by
        rw [show (Fault.heap e).anywhere = .heap e.anywhere from rfl, ← hrel]
        exact hspec.2
      rwa [Fault.kind_anywhere] at hkind

end

end Machine

/-- **Compiled programs do not go wrong.** In a heap of any size and with any limit on steps, a compiled program
fails only with the faults that `Config.Allows` lists; and wherever a run has come to, there is
an instruction, and the machine has what it needs. -/
theorem compiled_program_safe {tree : Tree} {program : Program}
    (hcompile : tree.toProgram Primitive.globals = .ok program) (config : Config) (log : Log) :
    (∀ fuel report failure, Machine.launch config program fuel log = some report →
      report.result = .error failure → config.Allows failure.fault.kind) ∧
    ∀ m log', Machine.boot config program log = (.ok m, log') →
      ∀ n, m.GoesOn config program n →
        ∃ i, program.code[(m.after config program n).registers.pc]? = some i ∧
          (m.after config program n).Meets i := by
  constructor
  · intro fuel report failure hlaunch hfails
    unfold Machine.launch at hlaunch
    rcases hboot : Machine.boot config program log with ⟨failure' | m, log'⟩ <;> rw [hboot] at hlaunch
    · cases hlaunch
      cases hfails
      rw [Machine.boot_error hboot]
      trivial
    · obtain ⟨⟨result, m', log''⟩, hrun, rfl⟩ := Option.map_eq_some_iff.mp hlaunch
      obtain ⟨n, hgoes, -, hlast⟩ := Machine.after_of_run hrun
      have htrack := (Machine.onTrack_boot hcompile hboot).after hgoes
      exact (htrack.turn config).2 failure (hlast failure hfails)
  · intro m log' hboot n hgoes
    exact ((Machine.onTrack_boot hcompile hboot).after hgoes).meets

/-- A function that calls itself from inside a block, for ever. -/
def spin : Tree :=
  .sequence [.functionDeclaration "f" ["x"] (.sequence [.block (.sequence
    [.declaration "y" (.identifier "x") true, .ret (.application (.identifier "f") [.identifier "y"])])]),
    .application (.identifier "f") [.literal .null]]

/-- It is stopped by the limit on steps, and by nothing else until then. -/
theorem compiled_program_safe_spin : ∃ program, spin.toProgram Primitive.globals = .ok program ∧
    (∃ report failure, Machine.launch ⟨400, some 20⟩ program 21 .silent = some report ∧
      report.result = .error failure ∧ Config.Allows ⟨400, some 20⟩ failure.fault.kind) ∧
    ∃ m log, Machine.boot ⟨400, some 20⟩ program .silent = (.ok m, log) ∧
      ∀ n, m.GoesOn ⟨400, some 20⟩ program n →
        ∃ i, program.code[(m.after ⟨400, some 20⟩ program n).registers.pc]? = some i ∧
          (m.after ⟨400, some 20⟩ program n).Meets i := by
  have hcheck : (match spin.toProgram Primitive.globals with
      | .ok program => (Machine.boot ⟨400, some 20⟩ program .silent).1.isOk &&
          (Machine.launch ⟨400, some 20⟩ program 21 .silent).any (!·.result.isOk)
      | .error _ => false) = true := by
    decide +kernel
  cases hcompile : spin.toProgram Primitive.globals with
  | error e =>
    rw [hcompile] at hcheck
    cases hcheck
  | ok program =>
    rw [hcompile] at hcheck
    obtain ⟨hboots, hfails⟩ := Bool.and_eq_true_iff.mp hcheck
    obtain ⟨hkinds, hmeets⟩ := compiled_program_safe hcompile ⟨400, some 20⟩ .silent
    refine ⟨program, rfl, ?_, ?_⟩
    · obtain ⟨report, hlaunch, hfailed⟩ := (Option.any_eq_true _ _).mp hfails
      cases hresult : report.result with
      | ok answer => simp [hresult, Except.isOk, Except.toBool] at hfailed
      | error failure => exact ⟨report, failure, hlaunch, hresult, hkinds _ _ _ hlaunch hresult⟩
    · cases hboot : Machine.boot ⟨400, some 20⟩ program .silent with
      | mk result log =>
        cases result with
        | error failure => simp [hboot, Except.isOk, Except.toBool] at hboots
        | ok m => exact ⟨m, log, rfl, hmeets m log hboot⟩

end ClosureMachine
