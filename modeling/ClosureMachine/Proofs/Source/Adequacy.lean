import ClosureMachine.Proofs.Source.Runs
import ClosureMachine.Proofs.Transparency

/-!
# Programs do what their trees mean

The evaluation of a tree tells what the ideal machine does with the program of the tree when it has all the
memory it wants. Here memory is limited. A machine with a heap of some size sees the same, or it runs out of
memory, and for each run there is a size from which on it does not. So a tree that has a value has it on every
machine that is large enough, and a tree without one keeps every machine busy until its memory is gone.
-/

set_option autoImplicit false

namespace ClosureMachine

open ClosureMachine.Ideal (OutOfMemory)
open Source (Shows Ends Diverges OutOfFuel evaluate)

/-! ## From unlimited memory to a heap -/

/-- What the ideal machine does in unlimited memory it does in some limited memory as well. -/
theorem Ideal.launch_enough (limit : Option Nat) (program : Program) (fuel : Nat) :
    ∃ least, ∀ room, least ≤ room →
      launch (some room) limit program fuel = launch none limit program fuel := by
  obtain ⟨toBoot, hboot⟩ := boot_enough program
  obtain ⟨toRun, hrun⟩ := follow_enough limit program fuel (bootState program)
  refine ⟨max toBoot toRun, fun room hroom => ?_⟩
  unfold launch
  rw [hboot room (Nat.le_trans (Nat.le_max_left _ _) hroom), boot_unlimited]
  dsimp only
  rw [hrun room (Nat.le_trans (Nat.le_max_right _ _) hroom)]

/-- A machine runs out of memory, or it does what the ideal machine does in unlimited memory. -/
theorem launch_unlimited (config : Config) (program : Program) (fuel : Nat) (log : Log) :
    (∃ report, Machine.launch config program fuel log = some report ∧ OutOfMemory report.result) ∨
      Option.Rel Report.Matches (Machine.launch config program fuel log)
        (Ideal.launch none config.maxSteps program fuel) := by
  have hmatch := launch_matches config program fuel log
  rcases Ideal.launch_mono (.unlimited (some (config.heapSize / 2))) config.maxSteps program fuel with
    ⟨ideal, hideal, hout⟩ | heq
  · left
    rw [hideal] at hmatch
    generalize Machine.launch config program fuel log = launched at hmatch ⊢
    cases hmatch with
    | some hm => exact ⟨_, rfl, hm.result.outOfMemory_iff.mpr hout⟩
  · right
    rw [← heq]
    exact hmatch

/-- The second case is the only one in every heap that is large enough. -/
theorem launch_enough (limit : Option Nat) (program : Program) (fuel : Nat) :
    ∃ enough, ∀ heapSize, enough ≤ heapSize → ∀ log,
      Option.Rel Report.Matches (Machine.launch ⟨heapSize, limit⟩ program fuel log)
        (Ideal.launch none limit program fuel) := by
  obtain ⟨least, hleast⟩ := Ideal.launch_enough limit program fuel
  refine ⟨2 * least, fun heapSize hle log => ?_⟩
  have hroom : least ≤ heapSize / 2 := by omega
  have hmatch := launch_matches ⟨heapSize, limit⟩ program fuel log
  rw [hleast (heapSize / 2) hroom] at hmatch
  exact hmatch

/-! ## What is seen of an evaluation -/

namespace Source

/-- Only faults of memory have positions in them. -/
theorem anywhere_eq {fault : Fault}
    (h : fault.kind ∈ [FaultKind.typeError, .notAFunction, .arityMismatch, .unassignedName]) :
    fault.anywhere = fault := by
  cases fault with
  | heap e =>
    rcases e with _ | _ | _ | _ | _ | _ | _ | _ | ⟨_ | _ | _⟩ | _ <;>
      simp [Fault.kind, Fault.kindOfHeapError] at h
  | _ => rfl

theorem fault_of_sameEnd {result : Except Failure Answer} {failure : Failure}
    (h : SameEnd result (.error failure))
    (hkind : failure.fault.kind ∈
      [FaultKind.typeError, .notAFunction, .arityMismatch, .unassignedName]) :
    ∃ failure', result = .error failure' ∧ failure'.fault = failure.fault := by
  cases result with
  | ok answer => exact h.elim
  | error failure' =>
    have hfault : failure.fault = failure'.fault.anywhere := h.1
    rw [hfault, Fault.kind_anywhere] at hkind
    exact ⟨failure', rfl, by rw [hfault, anywhere_eq hkind]⟩

/-- Machines that match show the same. -/
theorem Shows.of_matches {report ideal : Report} {r : EStateM.Result Exit Memory Value}
    (hm : report.Matches ideal) (h : Shows ideal.result ideal.output r) :
    Shows report.result report.output r := by
  have hend := hm.result
  cases r with
  | ok v m =>
    obtain ⟨hr, hout⟩ := h
    rw [hr] at hend
    refine ⟨?_, hm.output.trans hout⟩
    cases hresult : report.result with
    | ok answer =>
      rw [hresult] at hend
      exact congrArg Except.ok hend
    | error failure =>
      rw [hresult] at hend
      exact hend.elim
  | error e m =>
    cases e with
    | returned v => exact h.elim
    | outOfFuel => exact h.elim
    | failed fault =>
      obtain ⟨hkind, ⟨failure, hr, rfl⟩, hout⟩ := h
      rw [hr] at hend
      have hmem : failure.fault.kind ∈
          [FaultKind.typeError, .notAFunction, .arityMismatch, .unassignedName] :=
        List.mem_append_left [FaultKind.unassignedName] hkind
      exact ⟨hkind, fault_of_sameEnd hend hmem, hm.output.trans hout⟩
    | unassigned name =>
      obtain ⟨⟨failure, a, hr, hfault⟩, hout⟩ := h
      rw [hr] at hend
      obtain ⟨failure', hr', hsame⟩ := fault_of_sameEnd hend (by simp [hfault, Fault.kind])
      exact ⟨⟨failure', a, hr', hsame.trans hfault⟩, hm.output.trans hout⟩

variable {tree : Tree} {program : Program}

/-- The ideal machine shows how the evaluation ends. -/
theorem Ends.launch {r : EStateM.Result Exit Memory Value}
    (h : tree.toProgram Primitive.globals = .ok program) (hends : Ends tree r) :
    ∃ fuel ideal, Ideal.launch none none program fuel = some ideal ∧
      Shows ideal.result ideal.output r := by
  obtain ⟨hfuel, enough, heval⟩ := hends
  have hr := heval enough (Nat.le_refl _)
  obtain ⟨fuel, result, s', hfollow, hshows⟩ := evaluate_shows h (by rwa [hr])
  refine ⟨fuel, ⟨result, s'.output, s'.steps, s'.peakDepth⟩, ?_, ?_⟩
  · rw [Ideal.launch, Ideal.boot_unlimited]
    dsimp only
    rw [hfollow]
    rfl
  · rwa [hr] at hshows

/-- The ideal machine never ends if the evaluation does not. -/
theorem Diverges.launch (h : tree.toProgram Primitive.globals = .ok program)
    (hdiverges : Diverges tree) (fuel : Nat) : Ideal.launch none none program fuel = none := by
  rw [Ideal.launch, Ideal.boot_unlimited]
  dsimp only
  rw [evaluate_outOfFuel h (hdiverges fuel)]
  rfl

end Source

/-! ## The machine -/

/-- **The machine runs a program as its tree is evaluated.** If the evaluation ends, then so does the run: with
the value or the failure of the evaluation and the output made on the way, unless memory runs out first, which it
does not in a large heap. If the evaluation does not end, then memory running out is all that can end the run. -/
theorem launch_evaluates {tree : Tree} {program : Program}
    (h : tree.toProgram Primitive.globals = .ok program) (log : Log) :
    (∀ r, Ends tree r →
      (∀ heapSize, ∃ fuel report,
        Machine.launch ⟨heapSize, none⟩ program fuel log = some report ∧
          (OutOfMemory report.result ∨ Shows report.result report.output r)) ∧
      ∃ enough, ∀ heapSize, enough ≤ heapSize → ∃ fuel report,
        Machine.launch ⟨heapSize, none⟩ program fuel log = some report ∧
          Shows report.result report.output r) ∧
    (Diverges tree →
      (∀ heapSize fuel report, Machine.launch ⟨heapSize, none⟩ program fuel log = some report →
        OutOfMemory report.result) ∧
      ∀ fuel, ∃ enough, ∀ heapSize, enough ≤ heapSize →
        Machine.launch ⟨heapSize, none⟩ program fuel log = none) := by
  refine ⟨fun r hends => ?_, fun hdiverges => ⟨fun heapSize fuel report hrun => ?_, fun fuel => ?_⟩⟩
  · obtain ⟨fuel, ideal, hideal, hshows⟩ := hends.launch h
    refine ⟨fun heapSize => ⟨fuel, ?_⟩, ?_⟩
    · rcases launch_unlimited ⟨heapSize, none⟩ program fuel log with ⟨report, hrun, hout⟩ | hmatch
      · exact ⟨report, hrun, .inl hout⟩
      · rw [hideal] at hmatch
        obtain ⟨report, hrun, hm⟩ := exists_of_matches hmatch
        exact ⟨report, hrun, .inr (hshows.of_matches hm)⟩
    · obtain ⟨enough, henough⟩ := launch_enough none program fuel
      refine ⟨enough, fun heapSize hle => ⟨fuel, ?_⟩⟩
      have hmatch := henough heapSize hle log
      rw [hideal] at hmatch
      obtain ⟨report, hrun, hm⟩ := exists_of_matches hmatch
      exact ⟨report, hrun, hshows.of_matches hm⟩
  · rcases launch_unlimited ⟨heapSize, none⟩ program fuel log with ⟨report', hrun', hout⟩ | hmatch
    · rw [hrun] at hrun'
      cases hrun'
      exact hout
    · rw [hrun, hdiverges.launch h] at hmatch
      cases hmatch
  · obtain ⟨enough, henough⟩ := launch_enough none program fuel
    refine ⟨enough, fun heapSize hle => ?_⟩
    have hmatch := henough heapSize hle log
    rw [hdiverges.launch h] at hmatch
    generalize Machine.launch ⟨heapSize, none⟩ program fuel log = launched at hmatch ⊢
    cases hmatch
    rfl

/-! ## A program that ends and one that does not -/

namespace Source

/-- The body of the function that applies its argument to itself. -/
def selfApplication : Tree := .ret (.application (.identifier "x") [.identifier "x"])

def loop : Tree := .application (.lambda ["x"] selfApplication) [.lambda ["x"] selfApplication]

/-- Each call of it is a call of it with less fuel. -/
theorem call_selfApplication (fuel identity : Nat) (chain : List Nat) (m : Memory) :
    ∃ m', call fuel ["x"] selfApplication chain
      [.closure identity ["x"] selfApplication chain] m = .error .outOfFuel m' := by
  induction fuel generalizing m with
  | zero => exact ⟨m, rfl⟩
  | succ fuel ih =>
    let v : Value := .closure identity ["x"] selfApplication chain
    let inner : Memory := { m with frames := m.frames ++ [[("x", some v)]] }
    have hread : inner.read (m.frames.length :: chain) "x" = some v := by
      simp [inner, Memory.read, Memory.locate, Memory.frame]
    have hx : valueOf (m.frames.length :: chain) "x" inner = .ok v inner := valueOf_some hread
    obtain ⟨m', hm'⟩ := ih inner
    have hbody : eval (call fuel) (m.frames.length :: chain) selfApplication inner =
        .error .outOfFuel m' := by
      simp only [selfApplication, eval, evalOperands]
      refine Actions.bind_error ((Actions.bind_ok hx).trans ?_)
      have hargs : (do
          let v ← valueOf (m.frames.length :: chain) "x"
          let vs ← (pure [] : Eval (List Value))
          pure (v :: vs)) inner = .ok [v] inner := (Actions.bind_ok hx).trans rfl
      exact (Actions.bind_ok hargs).trans hm'
    have hcall : resultOf (eval (call fuel) (m.frames.length :: chain) selfApplication) inner =
        .error .outOfFuel m' := by
      rw [resultOf, hbody]
    exact ⟨m', (call_succ fuel ["x"] selfApplication chain [v] m).trans hcall⟩

theorem diverges_loop : Diverges loop := by
  intro depth
  obtain ⟨m, hm⟩ := call_selfApplication depth 1 [1, 0]
    ⟨[Primitive.all.map fun p => (p.name, some (.primitive p)), []], 2, #[]⟩
  have heval : evaluate depth loop = .error .outOfFuel m := hm
  rw [heval]
  trivial

/-- Displays its argument and returns it. -/
def echo : Tree :=
  .application (.lambda ["x"] (.sequence [.application (.identifier "display") [.identifier "x"],
    .ret (.identifier "x")])) [.literal .null]

theorem ends_echo : Ends echo (evaluate 1 echo) :=
  ⟨id, 1, fun _ hle => evaluate_of_le id hle⟩

end Source

/-- One of them has its value in every large heap, the other one uses up each of them. -/
theorem launch_evaluates_echo_loop :
    (∃ program, Source.echo.toProgram Primitive.globals = .ok program ∧
      ∃ enough, ∀ heapSize, enough ≤ heapSize → ∃ fuel report,
        Machine.launch ⟨heapSize, none⟩ program fuel .silent = some report ∧
          report.result = .ok (.literal .null) ∧ report.output = #["null"]) ∧
    ∃ program, Source.loop.toProgram Primitive.globals = .ok program ∧
      ∀ heapSize fuel report, Machine.launch ⟨heapSize, none⟩ program fuel .silent = some report →
        OutOfMemory report.result :=
  ⟨⟨_, rfl, ((launch_evaluates rfl .silent).1 _ Source.ends_echo).2⟩,
    _, rfl, ((launch_evaluates rfl .silent).2 Source.diverges_loop).1⟩

end ClosureMachine
