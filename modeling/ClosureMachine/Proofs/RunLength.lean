import ClosureMachine.Proofs.ControlShape
import ClosureMachine.Proofs.Ideal.Pace

/-!
# What makes a run long

Jumps lead forward, so an activation cannot take more steps than the program is long. In the first run of a compiled
program there are therefore at most as many steps as activations times instructions, and an activation begins only
where a closure is entered. A program without functions has one activation, and a run that does not end enters closures
again and again.
-/

set_option autoImplicit false

namespace ClosureMachine

/-! ## Counting -/

namespace Machine

/-- The machine has come to an instruction that enters a closure, whether it waits for it or not. -/
def entersClosure (program : Program) (m : Machine) : Bool :=
  program.code[m.registers.pc]?.any (·.entersClosure m.calleeKind?)

variable (config : Config) (program : Program) (m : Machine)

/-- How many of the first `n` turns enter a closure, by a call or by a tail call. -/
def closuresEntered (n : Nat) : Nat := Nat.count (fun k => (m.after config program k).entersClosure program) n

end Machine

theorem Rel.entersClosure_eq {room : Nat} {w : World} {m : Machine} {s : Ideal.State} {program : Program}
    (hrel : Rel room w m s) {i : Instruction} (hi : program.code[s.pc]? = some i) :
    m.entersClosure program = i.entersClosure s.core.calleeKind? := by
  rw [Machine.entersClosure, hrel.pc, hi, hrel.calleeKind?_eq, Option.any_some]

section

variable {config : Config} {program : Program} {m : Machine} {w : Nat → World} {tree : Tree} {n : Nat}

/-! ## The first run -/

/-- There is an instruction wherever the machine comes. -/
theorem Names.exists_instruction (hn : Names config program m w)
    (hcompile : tree.toProgram Primitive.globals = .ok program) (hgoes : m.GoesOn config program n) :
    ∃ i, program.code[(Ideal.reached config program n).pc]? = some i := by
  obtain ⟨calls, hshaped, -⟩ := hn.shaped hcompile hgoes
  exact ⟨_, Array.getElem?_eq_getElem (hshaped.segments.pc_lt hcompile)⟩

/-- One turn more is one step more, also if it is the last. -/
theorem Names.steps_turn (hn : Names config program m w) (hcompile : tree.toProgram Primitive.globals = .ok program)
    (hgoes : m.GoesOn config program n) :
    (m.after config program (n + 1)).steps = (m.after config program n).steps + 1 := by
  obtain ⟨i, hi⟩ := hn.exists_instruction hcompile hgoes
  rw [(hn.rel (n + 1)).steps, (hn.rel n).steps]
  exact Ideal.turn_steps _ _ hi

theorem Names.steps_eq (hn : Names config program m w) (hcompile : tree.toProgram Primitive.globals = .ok program)
    (hgoes : m.GoesOn config program n) : (m.after config program n).steps = n := by
  induction n with
  | zero => exact (hn.rel 0).steps
  | succ n ih =>
    have hgoes' := hgoes.mono (Nat.le_succ n)
    rw [hn.steps_turn hcompile hgoes', ih hgoes']

theorem Names.paced (hn : Names config program m w) (hcompile : tree.toProgram Primitive.globals = .ok program)
    (hgoes : m.GoesOn config program n) :
    Ideal.Paced program (Ideal.reached config program n).core n (m.closuresEntered config program n) := by
  induction n with
  | zero => exact Nat.zero_le _
  | succ n ih =>
    have hgoes' := hgoes.mono (Nat.le_succ n)
    obtain ⟨i, hi⟩ := hn.exists_instruction hcompile hgoes'
    obtain ⟨calls, hshaped, -⟩ := hn.shaped hcompile hgoes'
    have hmove := Ideal.move_reached hcompile (hn.goesOn hgoes) (Nat.lt_succ_self n)
    have hpaced := (ih hgoes').move hshaped hcompile hmove hi
    rw [Machine.closuresEntered, Nat.count_succ, (hn.rel n).entersClosure_eq hi]
    exact hpaced

/-- **The bound**, with the turn that comes next. -/
theorem Names.lt_of_goesOn (hn : Names config program m w) (hcompile : tree.toProgram Primitive.globals = .ok program)
    (hgoes : m.GoesOn config program n) : n < program.code.size * (1 + m.closuresEntered config program n) := by
  obtain ⟨calls, hshaped, -⟩ := hn.shaped hcompile hgoes
  exact (hn.paced hcompile hgoes).steps_lt hshaped hcompile

/-! ## Programs without functions -/

/-- A function in the code is one in the tree. -/
theorem functions_ne_nil (hcompile : tree.toProgram Primitive.globals = .ok program) {a arity entry capacity : Nat}
    (hload : program.code[a]? = some (.loadFunction arity entry capacity)) : tree.functions ≠ [] := by
  intro hnone
  have hbuilt := built_functions hcompile
  rw [hnone, List.forall₂_nil_right_iff] at hbuilt
  exact List.not_mem_nil (hbuilt ▸ mem_functionAddresses hload)

theorem Names.closuresEntered_eq_zero (hn : Names config program m w)
    (hcompile : tree.toProgram Primitive.globals = .ok program) (hnone : tree.functions = [])
    (hgoes : m.GoesOn config program n) : m.closuresEntered config program n = 0 := by
  apply Nat.count_of_forall_not
  intro k hk henters
  have hgoes' := hgoes.mono (Nat.le_of_lt hk)
  obtain ⟨i, hi⟩ := hn.exists_instruction hcompile hgoes'
  obtain ⟨calls, hshaped, -⟩ := hn.shaped hcompile hgoes'
  rw [(hn.rel k).entersClosure_eq hi] at henters
  obtain ⟨a, arity, entry, capacity, hload⟩ :=
    hshaped.builds_of_enters (Ideal.move_reached hcompile (hn.goesOn hgoes) hk) hi henters
  exact functions_ne_nil hcompile hload hnone

/-- What one activation can do is done in as many steps as there are instructions. -/
theorem Names.follow_of_functions_nil (hn : Names config program m w)
    (hcompile : tree.toProgram Primitive.globals = .ok program) (hnone : tree.functions = []) :
    ∃ result m', follow (Machine.turn config program) program.code.size m = some (result, m') ∧
      m'.steps ≤ program.code.size := by
  have hbound : ∀ {n}, m.GoesOn config program n → n < program.code.size := by
    intro n hgoes
    have hlt := hn.lt_of_goesOn hcompile hgoes
    rwa [hn.closuresEntered_eq_zero hcompile hnone hgoes, Nat.add_zero, Nat.mul_one] at hlt
  cases hfollow : follow (Machine.turn config program) program.code.size m with
  | none => exact absurd (hbound (Machine.goesOn_of_follow_none hfollow)) (Nat.lt_irrefl _)
  | some out =>
    obtain ⟨n, hgoes, hm', -⟩ := Machine.after_of_follow hfollow
    refine ⟨out.1, out.2, rfl, ?_⟩
    rw [hm', hn.steps_turn hcompile hgoes, hn.steps_eq hcompile hgoes]
    exact hbound hgoes

/-! ## Runs that do not end -/

/-- Finitely many closures pay for finitely many steps. -/
theorem Names.infinite_closures (hn : Names config program m w)
    (hcompile : tree.toProgram Primitive.globals = .ok program) (hgoes : ∀ n, m.GoesOn config program n) :
    { n | (m.after config program n).entersClosure program = true }.Infinite := by
  intro hfinite
  -- the bound for so many closures is passed by a run that goes on for long enough
  have hlt := hn.lt_of_goesOn hcompile (hgoes (program.code.size * (1 + hfinite.toFinset.card)))
  have hcount : m.closuresEntered config program (program.code.size * (1 + hfinite.toFinset.card)) ≤
      hfinite.toFinset.card := Nat.count_le_card hfinite _
  exact absurd (Nat.mul_le_mul_left program.code.size (Nat.add_le_add_left hcount 1)) (Nat.not_le_of_lt hlt)

end

/-! ## The theorem -/

/-- **Only closures make a run long.** In the first run of a compiled program, whatever the size of memory, the steps that
have been counted at any time are at most as many as there are instructions, times one more than the number of closures
that were entered; this holds after the last turn too, however it ends. So a program in which there is no function comes to
an end in as many steps as it has instructions, and a run that does not end enters closures infinitely often. -/
theorem steps_le_closures {tree : Tree} {program : Program} (hcompile : tree.toProgram Primitive.globals = .ok program)
    (config : Config) (log : Log) :
    (∀ m log', Machine.boot config program log = (.ok m, log') →
      (∀ n, m.GoesOn config program n →
        (m.after config program n).steps = n ∧
        (m.after config program n).steps ≤ program.code.size * (1 + m.closuresEntered config program n) ∧
        (m.after config program (n + 1)).steps ≤ program.code.size * (1 + m.closuresEntered config program n)) ∧
      (∀ fuel log₁ result m' log₂, Machine.run config program fuel m log₁ = some (result, m', log₂) →
        ∃ k, m.GoesOn config program k ∧ m' = m.after config program (k + 1)) ∧
      ((∀ n, m.GoesOn config program n) →
        { n | (m.after config program n).entersClosure program = true }.Infinite) ∧
      ((∀ fuel, Machine.run config program fuel m log' = none) → ∀ n, m.GoesOn config program n)) ∧
    (tree.functions = [] →
      ∃ report, Machine.launch config program program.code.size log = some report ∧
        report.steps ≤ program.code.size) := by
  constructor
  · intro m log' hboot
    obtain ⟨w, hn⟩ := exists_names hboot
    refine ⟨fun n hgoes => ?_, fun fuel log₁ result m' log₂ hrun => Machine.goesOn_of_run hrun,
      hn.infinite_closures hcompile, fun hnone n => Machine.goesOn_of_run_none (hnone n)⟩
    have hlt := hn.lt_of_goesOn hcompile hgoes
    rw [hn.steps_turn hcompile hgoes, hn.steps_eq hcompile hgoes]
    exact ⟨rfl, Nat.le_of_lt hlt, hlt⟩
  · intro hnone
    rcases hboot : Machine.boot config program log with ⟨failure | m, log'⟩
    · rw [Machine.launch, hboot]
      exact ⟨_, rfl, Nat.zero_le _⟩
    · obtain ⟨w, hn⟩ := exists_names hboot
      obtain ⟨result, m', hfollow, hsteps⟩ := hn.follow_of_functions_nil hcompile hnone
      rw [← Machine.run_eq_follow config program program.code.size m log'] at hfollow
      obtain ⟨out, hrun, hout⟩ := Option.map_eq_some_iff.mp hfollow
      rw [Machine.launch, hboot]
      refine ⟨_, Option.map_eq_some_iff.mpr ⟨out, hrun, rfl⟩, ?_⟩
      show out.2.1.steps ≤ program.code.size
      rw [show out.2.1 = m' from congrArg Prod.snd hout]
      exact hsteps

/-- A choice between two values, in a block. -/
def choice : Tree :=
  .block (.conditional (.logical "&&" (.literal (.boolean true)) (.unary "!" (.literal (.boolean true))))
    (.literal .null) (.literal .undefined))

set_option maxRecDepth 100000 in
/-- Two closures are entered in the first ten turns of a run that does not end, and none in the whole of another run. -/
theorem steps_le_closures_selfApplied :
    (∃ program m log, selfApplied.toProgram Primitive.globals = .ok program ∧
      Machine.boot tight program .silent = (.ok m, log) ∧ m.GoesOn tight program 10 ∧
      (m.after tight program 10).entersClosure program = false ∧ m.closuresEntered tight program 10 = 2 ∧
      (m.after tight program 10).steps = 10 ∧ (m.after tight program 11).steps ≤ program.code.size * (1 + 2) ∧
      ((∀ n, m.GoesOn tight program n) →
        { n | (m.after tight program n).entersClosure program = true }.Infinite)) ∧
    ∃ program report, choice.toProgram Primitive.globals = .ok program ∧
      Machine.launch tight program program.code.size .silent = some report ∧ report.steps ≤ program.code.size := by
  constructor
  · have hcheck : ((selfApplied.toProgram Primitive.globals).toOption.any fun program =>
        (Machine.boot tight program .silent).1.toOption.any fun m =>
          (List.range 10).all (fun k => decide (((m.after tight program k).turn tight program).1 = .ok none)) &&
          (decide ((m.after tight program 10).entersClosure program = false) &&
          decide (m.closuresEntered tight program 10 = 2))) = true := by
      decide +kernel
    obtain ⟨program, hcompile, hcheck⟩ := Actions.of_any_ok hcheck
    obtain ⟨m, hboot, hcheck⟩ := Actions.of_any_ok hcheck
    simp only [Bool.and_eq_true, decide_eq_true_iff, List.all_eq_true, List.mem_range] at hcheck
    obtain ⟨hgoes, hnext, hentered⟩ := hcheck
    have hboots : Machine.boot tight program .silent = (.ok m, (Machine.boot tight program .silent).2) := by
      rw [← hboot]
    obtain ⟨hbound, -, hinfinite, -⟩ := (steps_le_closures hcompile tight .silent).1 m _ hboots
    obtain ⟨hsteps, -, hlast⟩ := hbound 10 hgoes
    rw [hentered] at hlast
    exact ⟨program, m, _, hcompile, hboots, hgoes, hnext, hentered, hsteps, hlast, hinfinite⟩
  · have hcheck : ((choice.toProgram Primitive.globals).toOption.any fun _ => true) = true := by
      decide +kernel
    obtain ⟨program, hcompile, -⟩ := Actions.of_any_ok hcheck
    obtain ⟨report, hlaunch, hsteps⟩ := (steps_le_closures hcompile tight .silent).2 rfl
    exact ⟨program, report, hcompile, hlaunch, hsteps⟩

end ClosureMachine
