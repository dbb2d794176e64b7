import ClosureMachine.Proofs.Compile.Orderly
import ClosureMachine.Proofs.Compile.Patching

/-!
# The layout of programs

A whole program is an orderly stretch of code with the end of the run behind it. So jumps go forward and stay inside,
bodies are nested in each other like the functions of the tree, and the only way into a body is to call its function.
All this is read off the code that is computed in advance; the code that is written in one pass is the same.
-/

set_option autoImplicit false

namespace ClosureMachine

section

variable {program : Program} {globals : Scopes} {tree : Tree}

/-- The program is orderly up to its last instruction. -/
theorem orderly_program (h : tree.toProgram globals = .ok program) :
    ∃ stop, Orderly program 0 stop stop ∧ program.code[stop]? = some .done ∧ program.code.size = stop + 1 := by
  obtain ⟨stop, hemitted, hdone, hsize, -⟩ := emitted_program h
  exact ⟨stop, hemitted.orderly, hdone, hsize⟩

/-- Only the last instruction is at an address that does not belong to the stretch. -/
theorem within_of_size {stop pc : Nat} {i : Instruction} (hdone : program.code[stop]? = some .done)
    (hsize : program.code.size = stop + 1) (hi : program.code[pc]? = some i) (hne : i ≠ .done) :
    Within 0 stop pc := by
  have hlt := (Array.getElem?_eq_some_iff.mp hi).1
  refine ⟨Nat.zero_le _, Nat.lt_of_le_of_ne (by omega) ?_⟩
  rintro rfl
  exact hne (Option.some.inj (hi.symm.trans hdone))

theorem jumps_within {stop pc target : Nat} (hdone : program.code[stop]? = some .done)
    (hsize : program.code.size = stop + 1) (hj : program.Jumps pc target) : Within 0 stop pc := by
  obtain ⟨i, hi, hj⟩ := hj
  apply within_of_size hdone hsize hi
  rintro rfl
  cases hj

/-- The functions of a compiled program are laid out as functions are. -/
theorem functionAt_of_load (h : tree.toProgram globals = .ok program) {a arity entry stack : Nat}
    (hload : program.code[a]? = some (.loadFunction arity entry stack)) :
    ∃ stop, program.FunctionAt a entry stop := by
  obtain ⟨stop, ho, hdone, hsize⟩ := orderly_program h
  obtain ⟨e, hf, -⟩ := ho.function (within_of_size hdone hsize hload nofun) hload
  exact ⟨e, hf⟩

theorem functionAt_of_body (h : tree.toProgram globals = .ok program) {entry stop : Nat}
    (hb : program.Body entry stop) : ∃ a, program.FunctionAt a entry stop := by
  obtain ⟨a, arity, stack, hload, hover⟩ := hb
  obtain ⟨stop', hf⟩ := functionAt_of_load h hload
  cases hover.symm.trans hf.skipped
  exact ⟨a, hf⟩

theorem jump_forward (h : tree.toProgram globals = .ok program) {pc target : Nat}
    (hj : program.Jumps pc target) : pc < target ∧ target < program.code.size := by
  obtain ⟨stop, ho, hdone, hsize⟩ := orderly_program h
  obtain ⟨hlt, hto⟩ := ho.jump (jumps_within hdone hsize hj) hj
  exact ⟨hlt, by omega⟩

/-- **No jump enters a body from outside or leaves one from inside.** -/
theorem jump_apart (h : tree.toProgram globals = .ok program) {entry stop pc target : Nat}
    (hb : program.Body entry stop) (hj : program.Jumps pc target) :
    Within entry stop pc ↔ Within entry stop target := by
  obtain ⟨last, ho, hdone, hsize⟩ := orderly_program h
  obtain ⟨a, hf⟩ := functionAt_of_body h hb
  obtain ⟨arity, stack, hload⟩ := hf.load
  exact ho.apart (within_of_size hdone hsize hload nofun) hf (jumps_within hdone hsize hj) hj

/-- Of two bodies, one is inside the other or they have no address in common. The jump over the later one decides:
it does not cross the border of the earlier one. -/
theorem body_nested (h : tree.toProgram globals = .ok program) {entry stop entry' stop' : Nat}
    (hb : program.Body entry stop) (hb' : program.Body entry' stop') (hle : entry ≤ entry') :
    stop ≤ entry' ∨ stop' ≤ stop := by
  obtain ⟨a, hf⟩ := functionAt_of_body h hb
  obtain ⟨a', hf'⟩ := functionAt_of_body h hb'
  have hentry := hf.entry_eq
  have hentry' := hf'.entry_eq
  rcases Nat.eq_or_lt_of_le hle with heq | hlt
  · obtain rfl : a = a' := by omega
    cases hf.skipped.symm.trans hf'.skipped
    exact .inr (Nat.le_refl _)
  · have hj : program.Jumps (a' + 1) stop' := ⟨_, hf'.skipped, rfl⟩
    have hcross := jump_apart h hb hj
    unfold Within at hcross
    omega

/-- The functions of the tree are built one by one. -/
theorem built_functions (h : tree.toProgram globals = .ok program) :
    List.Forall₂ (BuildsFunction program) program.functionAddresses tree.functions := by
  obtain ⟨stop, hemitted, hdone, hsize, -⟩ := emitted_program h
  obtain ⟨addresses, heq, hbuilt⟩ := hemitted.builds.snoc hdone rfl
  have hall : program.functionAddresses = addresses := by
    rw [Program.functionAddresses, hsize, heq]
    exact List.nil_append _
  rw [hall]
  simpa [Part.functions, Tree.functions] using hbuilt

/-- **Programs are properly laid out.** However many jumps are open at the same time while the code is written, each gets
its own target. The end of the run is the last instruction and no other. Jumps go forward, to an address of the program,
so no placeholder is left. The body of a function stands behind the instruction that builds it, between a jump over it and
the target of that jump, and it ends with the return that gives `undefined`. Bodies are nested, and no jump crosses
their borders. The functions are built in the order of the tree, with their numbers of parameters. -/
theorem code_layout (h : tree.assemble globals = .ok program) :
    program.code.back? = some .done ∧
    (∀ pc, program.code[pc]? = some .done → pc + 1 = program.code.size) ∧
    (∀ pc target, program.Jumps pc target → pc < target ∧ target < program.code.size) ∧
    (program.code.size ≤ Compiler.unpatched → ∀ pc, ¬ program.Jumps pc Compiler.unpatched) ∧
    (∀ a arity entry stack, program.code[a]? = some (.loadFunction arity entry stack) →
      ∃ stop, program.FunctionAt a entry stop) ∧
    (∀ entry stop entry' stop', program.Body entry stop → program.Body entry' stop' →
      stop ≤ entry' ∨ stop' ≤ entry ∨ (entry ≤ entry' ∧ stop' ≤ stop) ∨ (entry' ≤ entry ∧ stop ≤ stop')) ∧
    (∀ entry stop pc target, program.Body entry stop → program.Jumps pc target →
      (Within entry stop pc ↔ Within entry stop target)) ∧
    List.Forall₂ (fun a f => ∃ entry stack, program.code[a]? = some (.loadFunction f.parameters.length entry stack))
      program.functionAddresses tree.functions := by
  rw [Tree.assemble_eq_toProgram] at h
  obtain ⟨last, ho, hdone, hsize⟩ := orderly_program h
  refine ⟨?_, ?_, fun pc target => jump_forward h,
    fun hsmall pc hj => absurd (jump_forward h hj).2 (Nat.not_lt_of_le hsmall),
    fun a arity entry stack => functionAt_of_load h, ?_, fun entry stop pc target => jump_apart h,
    (built_functions h).imp fun a f hf => ⟨_, _, hf.load⟩⟩
  · rw [Array.back?_eq_getElem?, hsize]
    exact hdone
  · intro pc hpc
    have hlt := (Array.getElem?_eq_some_iff.mp hpc).1
    by_contra hne
    exact ho.notDone ⟨Nat.zero_le _, by omega⟩ hpc
  · intro entry stop entry' stop' hb hb'
    rcases Nat.le_total entry entry' with hle | hle
    · have hnested := body_nested h hb hb' hle
      omega
    · have hnested := body_nested h hb' hb hle
      omega

end

/-- A function with another one in it, which chooses between two names of the outer one:

    const pick = (x, y) => { const inner = z => z ? x : y; return inner(x); };
-/
def nestedChoice : Tree :=
  let inner : Tree := .lambda ["z"] (.ret (.conditional (.identifier "z") (.identifier "x") (.identifier "y")))
  .declaration "pick" (.lambda ["x", "y"] (.sequence
    [.declaration "inner" inner true, .ret (.application (.identifier "inner") [.identifier "x"])])) true

/-- Two bodies, one in the other. -/
theorem code_layout_nestedChoice : ∃ program, nestedChoice.assemble [] = .ok program ∧
    program.functionAddresses.length = nestedChoice.functions.length ∧ program.Body 3 24 ∧
    program.Body 6 15 ∧
    (∀ pc target, program.Jumps pc target → (Within 6 15 pc ↔ Within 6 15 target)) := by
  have hcheck : (nestedChoice.assemble []).toOption.any fun program =>
      program.code[1]? == some (.loadFunction 2 3 2) && (program.code[2]? == some (.jump 24) &&
      (program.code[4]? == some (.loadFunction 1 6 1) && program.code[5]? == some (.jump 15))) := by
    decide +kernel
  obtain ⟨program, hcompile, hcheck⟩ := Actions.of_any_ok hcheck
  simp only [Bool.and_eq_true, beq_iff_eq] at hcheck
  obtain ⟨hload, hover, hload', hover'⟩ := hcheck
  obtain ⟨-, -, -, -, -, -, hapart, hfunctions⟩ := code_layout hcompile
  have hinner : program.Body 6 15 := ⟨4, 1, 1, hload', hover'⟩
  refine ⟨program, hcompile, hfunctions.length_eq, ⟨1, 2, 2, hload, hover⟩, hinner, ?_⟩
  exact fun pc target => hapart 6 15 pc target hinner

end ClosureMachine
