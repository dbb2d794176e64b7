import Mathlib.Algebra.BigOperators.Group.List.Basic
import Mathlib.Algebra.Order.Ring.Int
import Mathlib.Data.List.MinMax
import ClosureMachine.Proofs.CodeLayout
import ClosureMachine.Proofs.Compile.Flow

/-!
# How deep an address is in blocks

Instructions that enter scopes and instructions that leave them are like brackets, and code is read like a text: the
height of an address is the number of brackets that are open in front of it. The code of a part opens and closes its
own brackets, and what a jump passes over is the code of parts, so a jump leads to the height from which it came. So
the flow of control, which follows the jumps, finds as many scopes open as the text says
(`Flow.scopes_eq`), counted from where the body begins.

Which body that is, is known from the layout: of the bodies around an address the innermost one is that which begins
last (`Program.bodyStart`).
-/

set_option autoImplicit false

namespace ClosureMachine

/-! ## Heights -/

/-- The scopes entered and not left, when the code in front of the address is read from top to bottom. -/
def Program.height (program : Program) (pc : Nat) : Int :=
  ((program.code.toList.take pc).map Instruction.scopeEffect).sum

theorem height_succ {program : Program} {pc : Nat} {i : Instruction} (hi : program.code[pc]? = some i) :
    program.height (pc + 1) = program.height pc + i.scopeEffect := by
  have hi' : program.code.toList[pc]? = some i := by rwa [Array.getElem?_toList]
  simp [Program.height, List.take_add_one, hi']

/-- The code opens and closes its own scopes, and so does what its jumps pass over. -/
structure Balanced (program : Program) (start stop : Nat) : Prop where
  height : program.height stop = program.height start
  jump : ∀ ⦃pc target : Nat⦄, Within start stop pc → program.Jumps pc target →
    program.height target = program.height pc

namespace Balanced

variable {program : Program} {start mid stop : Nat} {i : Instruction}

theorem append (h : Balanced program start mid) (h' : Balanced program mid stop) : Balanced program start stop where
  height := h'.height.trans h.height
  jump pc target hpc hj := by
    rcases Nat.lt_or_ge pc mid with hlt | hge
    · exact h.jump ⟨hpc.1, hlt⟩ hj
    · exact h'.jump ⟨hge, hpc.2⟩ hj

theorem empty : Balanced program start start :=
  ⟨rfl, fun _ _ hpc _ => absurd hpc.2 (Nat.not_lt.mpr hpc.1)⟩

/-- One instruction that is no bracket. If it jumps, then to its own height. -/
theorem single (hi : program.code[start]? = some i) (hscopes : i.scopeEffect = 0)
    (hj : ∀ target, i.jumpTarget = some target → program.height target = program.height start) :
    Balanced program start (start + 1) where
  height := by rw [height_succ hi, hscopes, Int.add_zero]
  jump pc target hpc := by
    intro ⟨i', hi', hj'⟩
    obtain rfl := Orderly.within_succ hpc
    cases hi.symm.trans hi'
    exact hj target hj'

theorem plain (hi : program.code[start]? = some i) (hscopes : i.scopeEffect = 0) (hj : i.jumpTarget = none) :
    Balanced program start (start + 1) := by
  apply single hi hscopes
  intro target htarget
  rw [hj] at htarget
  cases htarget

/-- An instruction that jumps over balanced code. -/
theorem skip (hi : program.code[start]? = some i) (hscopes : i.scopeEffect = 0) (hj : i.jumpTarget = some stop)
    (h : Balanced program (start + 1) stop) : Balanced program start stop := by
  have hover : program.height stop = program.height start := by
    rw [h.height, height_succ hi, hscopes, Int.add_zero]
  refine (single hi hscopes fun target htarget => ?_).append h
  cases hj.symm.trans htarget
  exact hover

/-- Brackets around balanced code. -/
theorem bracket {slots : Nat} (henter : program.code[start]? = some (.enterScope slots))
    (h : Balanced program (start + 1) stop) (hexit : program.code[stop]? = some .exitScope) :
    Balanced program start (stop + 1) where
  height := by
    rw [height_succ hexit, h.height, height_succ henter]
    simp [Instruction.scopeEffect]
  jump pc target hpc hj := by
    rcases Nat.eq_or_lt_of_le hpc.1 with rfl | hlt
    · exact absurd hj (Orderly.not_jumps henter rfl)
    · rcases Nat.eq_or_lt_of_le (Nat.le_of_lt_succ hpc.2) with rfl | hlt'
      · exact absurd hj (Orderly.not_jumps hexit rfl)
      · exact h.jump ⟨hlt, hlt'⟩ hj

end Balanced

/-- **All emitted code is balanced.** -/
theorem Emitted.balanced {program : Program} {inFunction : Bool} {part : Part} {start stop : Nat}
    (h : Emitted program inFunction part start stop) : Balanced program start stop := by
  induction h with
  | literal hi => exact .plain hi rfl rfl
  | identifier hi => exact .plain hi rfl rfl
  | binary _ ih | unary _ ih | conjunction _ ih | disjunction _ ih | sequence _ ih | functionDeclaration _ ih
  | ret _ ih | lastStatement _ ih => exact ih
  | conditional _ hfork _ hjoin _ ihp ihx ihy =>
    -- the second branch ends where it began, and the first one jumps there
    have hleave : Balanced program _ _ := .single hjoin rfl fun target htarget => by
      cases htarget
      rw [ihy.height, height_succ hjoin]
      exact Int.add_zero _
    exact ihp.append ((Balanced.skip hfork rfl rfl (ihx.append hleave)).append ihy)
  | application _ _ hi ihf ihargs => exact ihf.append (ihargs.append (.plain hi rfl rfl))
  | lambda hload hover _ _ hpop hundefined hret ihbody =>
    have hend := (Balanced.plain hpop rfl rfl).append
      ((Balanced.plain hundefined rfl rfl).append (.plain hret rfl rfl))
    exact (Balanced.plain hload rfl rfl).append (.skip hover rfl rfl (ihbody.append hend))
  | block henter _ hexit ih => exact .bracket henter ih hexit
  | declaration _ hi ih => exact ih.append (.plain hi rfl rfl)
  | assignment _ hi ih => exact ih.append (.plain hi rfl rfl)
  | returned _ hi ih => exact ih.append (.plain hi rfl rfl)
  | tailCall _ _ hi ihf ihargs => exact ihf.append (ihargs.append (.plain hi rfl rfl))
  | tailConditional _ hfork _ _ ihp ihx ihy =>
    exact ihp.append ((Balanced.skip hfork rfl rfl ihx).append ihy)
  | noOperands => exact .empty
  | operand _ _ iht ihts => exact iht.append ihts
  | noStatements hi => exact .plain hi rfl rfl
  | statement _ hi _ iht ihts => exact iht.append ((Balanced.plain hi rfl rfl).append ihts)

/-! ## Bodies around an address -/

/-- The bodies of functions, each from where to where. -/
def Program.bodies (program : Program) : List (Nat × Nat) :=
  program.functionAddresses.filterMap fun a : Nat =>
    match program.code[a]?, program.code[a + 1]? with
    | some (.loadFunction _ entry _), some (.jump stop) => some (entry, stop)
    | _, _ => none

/-- Where the body begins to which the address belongs: the latest body around it, or else the main program. -/
def Program.bodyStart (program : Program) (pc : Nat) : Nat :=
  ((program.bodies.filter fun body => body.1 ≤ pc && pc < body.2).map (·.1)).foldr max 0

/-- The number of scopes of its body that are open at the address. -/
def Program.scopesOpen (program : Program) (pc : Nat) : Nat :=
  (program.height pc - program.height (program.bodyStart pc)).toNat

/-- The greatest number of scopes of one body that are open at the same address. -/
def Program.deepestNesting (program : Program) : Nat :=
  ((List.range program.code.size).map program.scopesOpen).foldr max 0

section

variable {program : Program}

theorem scopesOpen_le {pc : Nat} (hpc : pc < program.code.size) :
    program.scopesOpen pc ≤ program.deepestNesting :=
  List.le_max_of_le (List.mem_map_of_mem (List.mem_range.mpr hpc)) (Nat.le_refl _)

theorem mem_functionAddresses {a arity entry stack : Nat}
    (hload : program.code[a]? = some (.loadFunction arity entry stack)) : a ∈ program.functionAddresses := by
  have hlt := (Array.getElem?_eq_some_iff.mp hload).1
  refine List.mem_filter.mpr ⟨List.mem_range.mpr hlt, ?_⟩
  simp [Program.builds, hload, Instruction.functionEntry]

/-- The list of bodies has all of them, and nothing else. -/
theorem mem_bodies {entry stop : Nat} : (entry, stop) ∈ program.bodies ↔ program.Body entry stop := by
  rw [Program.bodies, List.mem_filterMap]
  constructor
  · intro ⟨a, _, ha⟩
    split at ha
    · rename_i hload hover
      cases ha
      exact ⟨a, _, _, hload, hover⟩
    · cases ha
  · intro ⟨a, arity, stack, hload, hover⟩
    refine ⟨a, mem_functionAddresses hload, ?_⟩
    rw [hload, hover]

theorem bodyStart_le (program : Program) (pc : Nat) : program.bodyStart pc ≤ pc := by
  apply List.max_le_of_forall_le
  intro n hn
  obtain ⟨body, hbody, rfl⟩ := List.mem_map.mp hn
  have haround := (List.mem_filter.mp hbody).2
  simp only [Bool.and_eq_true, decide_eq_true_eq] at haround
  exact haround.1

theorem le_bodyStart {entry stop pc : Nat} (hb : program.Body entry stop) (hpc : Within entry stop pc) :
    entry ≤ program.bodyStart pc := by
  have haround : (entry, stop) ∈ program.bodies.filter fun body => body.1 ≤ pc && pc < body.2 := by
    refine List.mem_filter.mpr ⟨mem_bodies.mpr hb, ?_⟩
    simpa [Within] using hpc
  exact List.le_max_of_le (List.mem_map_of_mem haround) (Nat.le_refl _)

/-- Addresses in the same bodies belong to the same body. -/
theorem bodyStart_congr {pc pc' : Nat}
    (h : ∀ entry stop, program.Body entry stop → (Within entry stop pc ↔ Within entry stop pc')) :
    program.bodyStart pc = program.bodyStart pc' := by
  have hsame : ∀ body ∈ program.bodies,
      (decide (body.1 ≤ pc) && decide (pc < body.2)) = (decide (body.1 ≤ pc') && decide (pc' < body.2)) := by
    intro body hbody
    have hiff := h body.1 body.2 (mem_bodies.mp hbody)
    unfold Within at hiff
    rw [Bool.eq_iff_iff]
    simpa using hiff
  rw [Program.bodyStart, List.filter_congr hsame]
  rfl

end

/-! ## The flow of control and the text -/

/-- The addresses at which bodies begin. -/
def Program.CodeEntry (program : Program) (entry : Nat) : Prop :=
  entry = 0 ∨ ∃ a arity stack : Nat, program.code[a]? = some (.loadFunction arity entry stack)

section

variable {program : Program} {globals : Scopes} {tree : Tree}

theorem height_jump (h : tree.toProgram globals = .ok program) {pc target : Nat} (hj : program.Jumps pc target) :
    program.height target = program.height pc := by
  obtain ⟨stop, hemitted, hdone, hsize, -⟩ := emitted_program h
  exact hemitted.balanced.jump (jumps_within hdone hsize hj) hj

/-- One instruction further in the same body. -/
theorem height_successor (h : tree.toProgram globals = .ok program) {pc pc' : Nat} {i : Instruction}
    (hi : program.code[pc]? = some i) (hnext : pc' ∈ i.successors pc) :
    program.height pc' = program.height pc + i.scopeEffect := by
  have hjump : ∀ target, i.jumpTarget = some target → program.height target = program.height pc :=
    fun target hj => height_jump h ⟨i, hi, hj⟩
  cases i with
  | jumpIfFalse target =>
    rcases List.mem_pair.mp hnext with rfl | rfl
    · exact height_succ hi
    · exact (hjump _ rfl).trans (Int.add_zero _).symm
  | jump target => exact List.mem_singleton.mp hnext ▸ (hjump _ rfl).trans (Int.add_zero _).symm
  | tailCall n => cases hnext
  | ret => cases hnext
  | done => cases hnext
  | _ => exact List.mem_singleton.mp hnext ▸ height_succ hi

/-- What comes next in front of a body is the jump over it, and the last instruction of a body is its return. -/
theorem within_succ_iff (h : tree.toProgram globals = .ok program) {pc : Nat} {i : Instruction}
    (hi : program.code[pc]? = some i) (hnext : pc + 1 ∈ i.successors pc) {entry stop : Nat}
    (hb : program.Body entry stop) : Within entry stop pc ↔ Within entry stop (pc + 1) := by
  obtain ⟨a, hf⟩ := functionAt_of_body h hb
  have hentry := hf.entry_eq
  have hroom := hf.room
  have hfirst : pc + 1 ≠ entry := by
    intro heq
    obtain rfl : pc = a + 1 := by omega
    cases hf.skipped.symm.trans hi
    have hto := (jump_forward h ⟨_, hf.skipped, rfl⟩).1
    have hin := List.mem_singleton.mp hnext
    omega
  have hlast : pc + 1 ≠ stop := by
    intro heq
    obtain rfl : pc = stop - 1 := by omega
    cases hf.ret.symm.trans hi
    cases hnext
  unfold Within
  omega

theorem bodyStart_successor (h : tree.toProgram globals = .ok program) {pc pc' : Nat} {i : Instruction}
    (hi : program.code[pc]? = some i) (hnext : pc' ∈ i.successors pc) :
    program.bodyStart pc' = program.bodyStart pc := by
  refine (bodyStart_congr fun entry stop hb => ?_).symm
  by_cases hj : i.jumpTarget = some pc'
  · exact jump_apart h hb ⟨i, hi, hj⟩
  · -- it does not jump, so it goes on
    obtain rfl : pc' = pc + 1 := by
      cases i with
      | jumpIfFalse target =>
        rcases List.mem_pair.mp hnext with rfl | rfl
        · rfl
        · exact absurd rfl hj
      | jump target => exact absurd (congrArg some (List.mem_singleton.mp hnext).symm) hj
      | tailCall n => cases hnext
      | ret => cases hnext
      | done => cases hnext
      | _ => exact List.mem_singleton.mp hnext
    exact within_succ_iff h hi hnext hb

theorem bodyStart_entry (h : tree.toProgram globals = .ok program) {entry : Nat} (hentry : program.CodeEntry entry) :
    program.bodyStart entry = entry := by
  rcases hentry with rfl | ⟨a, arity, stack, hload⟩
  · exact Nat.le_zero.mp (bodyStart_le program 0)
  · obtain ⟨stop, hf⟩ := functionAt_of_load h hload
    have hroom := hf.room
    exact Nat.le_antisymm (bodyStart_le program entry)
      (le_bodyStart ⟨a, arity, stack, hload, hf.skipped⟩ ⟨Nat.le_refl _, by omega⟩)

/-- **The flow of control finds as many scopes open as the text says.** -/
theorem Flow.scopes_eq (h : tree.toProgram globals = .ok program) {entry : Nat} (hentry : program.CodeEntry entry)
    {depth scopes : Int} {pc : Nat} (hflow : Flow program entry depth scopes pc) :
    program.bodyStart pc = entry ∧ scopes = program.height pc - program.height entry := by
  induction hflow with
  | start => exact ⟨bodyStart_entry h hentry, (Int.sub_self _).symm⟩
  | step _ hi hnext ih =>
    refine ⟨(bodyStart_successor h hi hnext).trans ih.1, ?_⟩
    have hheight := height_successor h hi hnext
    omega

end

end ClosureMachine
