import Mathlib.Data.List.Forall2
import ClosureMachine.Proofs.Compile.Emitted

/-!
# Orderly code

Which addresses belong together. The body of a function stands between the jump over it and the target of that
jump (`Program.Body`), and nothing but a call leads into it or out of it. A stretch of code is `Orderly` if this is so
of all bodies in it, if its jumps go forward, and if they stay in it. A branch of a conditional leaves its own stretch,
by the one jump to where the conditional ends, so there is one exit that jumps may take in addition; stretches with the
same exit can be put one behind the other.

The functions of a tree are built in the order in which the tree has them (`BuildsAll`), so the instructions that build
functions and the functions of the tree correspond to each other one by one.
-/

set_option autoImplicit false

namespace ClosureMachine

/-! ## Jumps and bodies -/

/-- The instruction at the address may jump to the target. -/
def Program.Jumps (program : Program) (pc target : Nat) : Prop :=
  ∃ i, program.code[pc]? = some i ∧ i.jumpTarget = some target

/-- The body of a function occupies the addresses from `entry` up to `stop`: an instruction builds closures that
begin at `entry`, and the one behind it jumps to `stop`. -/
def Program.Body (program : Program) (entry stop : Nat) : Prop :=
  ∃ a arity stack, program.code[a]? = some (.loadFunction arity entry stack) ∧
    program.code[a + 1]? = some (.jump stop)

/-- The instruction at `a` builds a function, and its body is as bodies are. -/
structure Program.FunctionAt (program : Program) (a entry stop : Nat) : Prop where
  load : ∃ arity stack, program.code[a]? = some (.loadFunction arity entry stack)
  entry_eq : entry = a + 2
  skipped : program.code[a + 1]? = some (.jump stop)
  room : entry + 3 ≤ stop
  pop : program.code[stop - 3]? = some .pop
  undefined : program.code[stop - 2]? = some (.loadConstant .undefined)
  ret : program.code[stop - 1]? = some .ret

/-- The address is one of those from `start` up to `stop`. -/
def Within (start stop pc : Nat) : Prop := start ≤ pc ∧ pc < stop

structure Orderly (program : Program) (start stop exit : Nat) : Prop where
  le : start ≤ stop
  le_exit : stop ≤ exit
  jump : ∀ ⦃pc target : Nat⦄, Within start stop pc → program.Jumps pc target →
    pc < target ∧ (target ≤ stop ∨ target = exit)
  function : ∀ ⦃pc arity entry stack : Nat⦄, Within start stop pc →
    program.code[pc]? = some (.loadFunction arity entry stack) →
    ∃ e, program.FunctionAt pc entry e ∧ e ≤ stop
  /-- No jump enters a body or leaves it. -/
  apart : ∀ ⦃a entry e pc target : Nat⦄, Within start stop a → program.FunctionAt a entry e →
    Within start stop pc → program.Jumps pc target → (Within entry e pc ↔ Within entry e target)
  notDone : ∀ ⦃pc : Nat⦄, Within start stop pc → program.code[pc]? ≠ some .done

/-- An instruction that neither jumps nor builds a function, and behind which it goes on. -/
def Instruction.Simple (i : Instruction) : Prop :=
  i.jumpTarget = none ∧ i.functionEntry = none ∧ i ≠ .done

namespace Orderly

variable {program : Program} {start mid stop exit exit' pc target : Nat} {i : Instruction}

/-! ## Single instructions -/

theorem not_jumps (hi : program.code[pc]? = some i) (hj : i.jumpTarget = none) : ¬program.Jumps pc target := by
  intro ⟨i', hi', hj'⟩
  cases hi.symm.trans hi'
  rw [hj] at hj'
  cases hj'

theorem not_functionAt (hi : program.code[pc]? = some i) (hentry : i.functionEntry = none) {entry : Nat} :
    ¬program.FunctionAt pc entry stop := by
  intro hf
  obtain ⟨arity, stack, hload⟩ := hf.load
  cases hi.symm.trans hload
  cases hentry

theorem within_succ (hpc : Within start (start + 1) pc) : pc = start := by
  unfold Within at hpc
  omega

theorem empty (hle : start ≤ exit) : Orderly program start start exit where
  le := Nat.le_refl _
  le_exit := hle
  jump _ _ hpc _ := absurd hpc.2 (Nat.not_lt.mpr hpc.1)
  function _ _ _ _ hpc _ := absurd hpc.2 (Nat.not_lt.mpr hpc.1)
  apart _ _ _ _ _ _ _ hpc _ := absurd hpc.2 (Nat.not_lt.mpr hpc.1)
  notDone _ hpc := absurd hpc.2 (Nat.not_lt.mpr hpc.1)

/-- One instruction that builds no function. If it jumps, then to the exit. -/
theorem single (hi : program.code[pc]? = some i) (hentry : i.functionEntry = none) (hdone : i ≠ .done)
    (hlt : pc < exit) (hj : ∀ target, i.jumpTarget = some target → target = exit) :
    Orderly program pc (pc + 1) exit := by
  refine ⟨Nat.le_succ _, hlt, ?_, ?_, ?_, ?_⟩
  · intro pc' target hpc ⟨i', hi', hj'⟩
    obtain rfl := within_succ hpc
    cases hi.symm.trans hi'
    obtain rfl := hj target hj'
    exact ⟨hlt, .inr rfl⟩
  · intro pc' arity entry stack hpc hload
    obtain rfl := within_succ hpc
    cases hi.symm.trans hload
    cases hentry
  · intro a entry e pc' target ha hf
    obtain rfl := within_succ ha
    exact absurd hf (not_functionAt hi hentry)
  · intro pc' hpc hi'
    obtain rfl := within_succ hpc
    cases hi.symm.trans hi'
    exact hdone rfl

theorem simple (hi : program.code[pc]? = some i) (hs : i.Simple) :
    Orderly program pc (pc + 1) (pc + 1) := by
  obtain ⟨hjump, hentry, hdone⟩ := hs
  apply single hi hentry hdone (Nat.lt_succ_self pc)
  intro target hj
  rw [hjump] at hj
  cases hj

/-! ## Stretches of code -/

/-- A body in a stretch ends in it. -/
theorem end_le (h : Orderly program start stop exit) {a entry e : Nat} (ha : Within start stop a)
    (hf : program.FunctionAt a entry e) : e ≤ stop := by
  obtain ⟨arity, stack, hload⟩ := hf.load
  obtain ⟨e', hf', hle⟩ := h.function ha hload
  cases hf.skipped.symm.trans hf'.skipped
  exact hle

/-- One stretch behind another. What leaves the first one goes to the beginning of the second, to its end or to its
exit. -/
theorem append (h : Orderly program start mid exit) (h' : Orderly program mid stop exit')
    (hexit : exit = mid ∨ exit = stop ∨ exit = exit') : Orderly program start stop exit' := by
  have hsplit : ∀ {pc : Nat}, Within start stop pc → Within start mid pc ∨ Within mid stop pc := by
    intro pc hpc
    rcases Nat.lt_or_ge pc mid with hlt | hge
    · exact .inl ⟨hpc.1, hlt⟩
    · exact .inr ⟨hge, hpc.2⟩
  have hle := h'.le
  have hle' := h'.le_exit
  refine ⟨Nat.le_trans h.le hle, hle', ?_, ?_, ?_, ?_⟩
  · intro pc target hpc hj
    rcases hsplit hpc with hpc | hpc
    · obtain ⟨hlt, hto⟩ := h.jump hpc hj
      exact ⟨hlt, by omega⟩
    · exact h'.jump hpc hj
  · intro pc arity entry stack hpc hi
    rcases hsplit hpc with hpc | hpc
    · obtain ⟨e, hf, he⟩ := h.function hpc hi
      exact ⟨e, hf, Nat.le_trans he hle⟩
    · exact h'.function hpc hi
  · intro a entry e pc target ha hf hpc hj
    have hentry := hf.entry_eq
    rcases hsplit ha with ha | ha <;> rcases hsplit hpc with hpc | hpc
    · exact h.apart ha hf hpc hj
    · -- the body ends before the jump, and the jump goes forward
      have hend := h.end_le ha hf
      have hto := h'.jump hpc hj
      unfold Within at *
      omega
    · -- what the jump reaches is not behind the beginning of the body, or not before its end
      have hend := h'.end_le ha hf
      have hto := h.jump hpc hj
      unfold Within at *
      omega
    · exact h'.apart ha hf hpc hj
  · intro pc hpc
    rcases hsplit hpc with hpc | hpc
    · exact h.notDone hpc
    · exact h'.notDone hpc

theorem andThen (h : Orderly program start mid mid) (h' : Orderly program mid stop exit) :
    Orderly program start stop exit :=
  h.append h' (.inl rfl)

/-- An instruction that jumps over a stretch. -/
theorem skip (hi : program.code[pc]? = some i) (hj : i.jumpTarget = some stop)
    (h : Orderly program (pc + 1) stop exit) : Orderly program pc stop exit := by
  have hfirst : Orderly program pc (pc + 1) stop := by
    apply single hi ?_ ?_ h.le
    · intro target hj'
      exact Option.some.inj (hj'.symm.trans hj)
    · cases i with
      | jumpIfFalse _ | jump _ => rfl
      | _ => cases hj
    · rintro rfl
      cases hj
  exact hfirst.append h (.inr (.inl rfl))

/-- The jumps inside the new body do not reach the return at its end, and the jump over it is outside. -/
theorem apart_body (hover : program.code[start + 1]? = some (.jump (stop + 3)))
    (hbody : Orderly program (start + 2) stop stop)
    (hend : ∀ pc target, Within stop (stop + 3) pc → ¬program.Jumps pc target)
    (hpc : Within (start + 1) (stop + 3) pc) (hj : program.Jumps pc target) :
    Within (start + 2) (stop + 3) pc ↔ Within (start + 2) (stop + 3) target := by
  by_cases hfirst : pc = start + 1
  · subst hfirst
    obtain ⟨i, hi, hj⟩ := hj
    cases hover.symm.trans hi
    cases hj
    unfold Within
    omega
  · by_cases hlt : pc < stop
    · have hto := hbody.jump ⟨by unfold Within at hpc; omega, hlt⟩ hj
      unfold Within at *
      omega
    · exact absurd hj (hend pc target ⟨Nat.not_lt.mp hlt, hpc.2⟩)

/-- A function, given the code of its body without the return at its end. -/
theorem lambda {arity stack : Nat}
    (hload : program.code[start]? = some (.loadFunction arity (start + 2) stack))
    (hover : program.code[start + 1]? = some (.jump (stop + 3)))
    (hbody : Orderly program (start + 2) stop stop) (hpop : program.code[stop]? = some .pop)
    (hundefined : program.code[stop + 1]? = some (.loadConstant .undefined))
    (hret : program.code[stop + 2]? = some .ret) : Orderly program start (stop + 3) (stop + 3) := by
  have hle := hbody.le
  have hend : Orderly program stop (stop + 3) (stop + 3) :=
    (simple hpop ⟨rfl, rfl, nofun⟩).andThen
      ((simple hundefined ⟨rfl, rfl, nofun⟩).andThen (simple hret ⟨rfl, rfl, nofun⟩))
  have hquiet : ∀ pc target, Within stop (stop + 3) pc → ¬program.Jumps pc target := by
    intro pc target hpc
    have hcases : pc = stop ∨ pc = stop + 1 ∨ pc = stop + 2 := by
      unfold Within at hpc
      omega
    rcases hcases with rfl | rfl | rfl
    · exact not_jumps hpop rfl
    · exact not_jumps hundefined rfl
    · exact not_jumps hret rfl
  have hrest : Orderly program (start + 1) (stop + 3) (stop + 3) := skip hover rfl (hbody.andThen hend)
  have hat : program.FunctionAt start (start + 2) (stop + 3) :=
    ⟨⟨arity, stack, hload⟩, rfl, hover, by omega, hpop, hundefined, hret⟩
  have hsplit : ∀ {pc : Nat}, Within start (stop + 3) pc → pc = start ∨ Within (start + 1) (stop + 3) pc := by
    intro pc hpc
    unfold Within at *
    omega
  refine ⟨by omega, Nat.le_refl _, ?_, ?_, ?_, ?_⟩
  · intro pc target hpc hj
    rcases hsplit hpc with rfl | hpc
    · exact absurd hj (not_jumps hload rfl)
    · exact hrest.jump hpc hj
  · intro pc arity' entry stack' hpc hi
    rcases hsplit hpc with rfl | hpc
    · cases hload.symm.trans hi
      exact ⟨_, hat, Nat.le_refl _⟩
    · exact hrest.function hpc hi
  · intro a entry e pc target ha hf hpc hj
    rcases hsplit hpc with rfl | hpc
    · exact absurd hj (not_jumps hload rfl)
    · rcases hsplit ha with rfl | ha
      · cases hf.skipped.symm.trans hover
        cases hf.entry_eq
        exact apart_body hover hbody hquiet hpc hj
      · exact hrest.apart ha hf hpc hj
  · intro pc hpc
    rcases hsplit hpc with rfl | hpc
    · rw [hload]
      nofun
    · exact hrest.notDone hpc

end Orderly

/-- **All emitted code is orderly.** -/
theorem Emitted.orderly {program : Program} {inFunction : Bool} {part : Part} {start stop : Nat}
    (h : Emitted program inFunction part start stop) : Orderly program start stop stop := by
  induction h with
  | literal hi => exact .simple hi ⟨rfl, rfl, nofun⟩
  | identifier hi => exact .simple hi ⟨rfl, rfl, nofun⟩
  | binary _ ih => exact ih
  | unary _ ih => exact ih
  | conjunction _ ih => exact ih
  | disjunction _ ih => exact ih
  | conditional _ hfork _ hjoin _ ihp ihx ihy =>
    -- the first branch leaves the stretch that is jumped over
    have hleave := Orderly.single hjoin rfl nofun ihy.le fun _ hj => (Option.some.inj hj).symm
    exact ihp.andThen ((Orderly.skip hfork rfl (ihx.andThen hleave)).append ihy (.inr (.inr rfl)))
  | application _ _ hi ihf ihargs => exact ihf.andThen (ihargs.andThen (.simple hi ⟨rfl, rfl, nofun⟩))
  | lambda hload hover _ _ hpop hundefined hret ihbody =>
    exact .lambda hload hover ihbody hpop hundefined hret
  | sequence _ ih => exact ih
  | block henter _ hexit ih =>
    exact (Orderly.simple henter ⟨rfl, rfl, nofun⟩).andThen (ih.andThen (.simple hexit ⟨rfl, rfl, nofun⟩))
  | declaration _ hi ih => exact ih.andThen (.simple hi ⟨rfl, rfl, nofun⟩)
  | assignment _ hi ih => exact ih.andThen (.simple hi ⟨rfl, rfl, nofun⟩)
  | functionDeclaration _ ih => exact ih
  | ret _ ih => exact ih
  | returned _ hi ih => exact ih.andThen (.simple hi ⟨rfl, rfl, nofun⟩)
  | tailCall _ _ hi ihf ihargs => exact ihf.andThen (ihargs.andThen (.simple hi ⟨rfl, rfl, nofun⟩))
  | tailConditional _ hfork _ _ ihp ihx ihy =>
    exact ihp.andThen ((Orderly.skip hfork rfl ihx).andThen ihy)
  | noOperands => exact .empty (Nat.le_refl _)
  | operand _ _ iht ihts => exact iht.andThen ihts
  | noStatements hi => exact .simple hi ⟨rfl, rfl, nofun⟩
  | lastStatement _ ih => exact ih
  | statement _ hi _ iht ihts => exact iht.andThen ((Orderly.simple hi ⟨rfl, rfl, nofun⟩).andThen ihts)

/-! ## The functions of a tree -/

/-- A function as it stands in a tree. -/
structure FunctionTree where
  parameters : List String
  body : Tree

namespace Tree

mutual

/-- The functions inside a tree, in the order of the code: each one before those in its body. -/
def functions : Tree → List FunctionTree
  | .literal _ | .identifier _ => []
  | .unary _ t | .declaration _ t _ | .assignment _ t | .ret t | .block t => t.functions
  | .binary _ left right | .logical _ left right => left.functions ++ right.functions
  | .conditional predicate consequent alternative =>
    predicate.functions ++ (consequent.functions ++ alternative.functions)
  | .lambda parameters body | .functionDeclaration _ parameters body => ⟨parameters, body⟩ :: body.functions
  | .application function arguments => function.functions ++ functionsIn arguments
  | .sequence statements => functionsIn statements

def functionsIn : List Tree → List FunctionTree
  | [] => []
  | t :: rest => t.functions ++ functionsIn rest

end

end Tree

def Part.functions : Part → List FunctionTree
  | .value t | .result t => t.functions
  | .operands ts | .statements ts => Tree.functionsIn ts

/-- The instruction at the address builds a function. -/
def Program.builds (program : Program) (a : Nat) : Bool :=
  (program.code[a]?.bind Instruction.functionEntry).isSome

/-- The addresses in front of `pc` at which functions are built, in ascending order. -/
def Program.functionsBefore (program : Program) (pc : Nat) : List Nat := (List.range pc).filter program.builds

/-- All of them. -/
def Program.functionAddresses (program : Program) : List Nat := program.functionsBefore program.code.size

/-- What is built at the address is the function of the tree. A body with declarations is a block. -/
structure BuildsFunction (program : Program) (a : Nat) (f : FunctionTree) : Prop where
  load : program.code[a]? = some (.loadFunction f.parameters.length (a + 2) f.body.bodyDemand)
  body : ∃ inner stop, (inner = f.body ∨ inner = .block f.body) ∧ Emitted program true (.value inner) (a + 2) stop

/-- The code from `start` up to `stop` builds these functions, in this order. -/
def BuildsAll (program : Program) (start stop : Nat) (functions : List FunctionTree) : Prop :=
  ∃ addresses, program.functionsBefore stop = program.functionsBefore start ++ addresses ∧
    List.Forall₂ (BuildsFunction program) addresses functions

namespace BuildsAll

variable {program : Program} {start mid stop : Nat} {functions functions' : List FunctionTree}

theorem empty : BuildsAll program start start [] := ⟨[], (List.append_nil _).symm, .nil⟩

theorem append (h : BuildsAll program start mid functions) (h' : BuildsAll program mid stop functions') :
    BuildsAll program start stop (functions ++ functions') := by
  obtain ⟨as, has, hbuilt⟩ := h
  obtain ⟨as', has', hbuilt'⟩ := h'
  refine ⟨as ++ as', ?_, List.rel_append hbuilt hbuilt'⟩
  rw [has', has, List.append_assoc]

/-- An instruction that builds no function. -/
theorem quiet {i : Instruction} (hi : program.code[start]? = some i) (hentry : i.functionEntry = none) :
    BuildsAll program start (start + 1) [] := by
  refine ⟨[], ?_, .nil⟩
  have hnot : program.builds start = false := by simp [Program.builds, hi, hentry]
  simp [Program.functionsBefore, List.range_succ, hnot]

theorem load {f : FunctionTree} (h : BuildsFunction program start f) : BuildsAll program start (start + 1) [f] := by
  refine ⟨[start], ?_, .cons h .nil⟩
  have hbuilds : program.builds start = true := by simp [Program.builds, h.load, Instruction.functionEntry]
  simp [Program.functionsBefore, List.range_succ, hbuilds]

/-- One stretch and an instruction behind it that builds no function. -/
theorem snoc (h : BuildsAll program start stop functions) {i : Instruction} (hi : program.code[stop]? = some i)
    (hentry : i.functionEntry = none) : BuildsAll program start (stop + 1) functions := by
  have hboth := h.append (quiet hi hentry)
  rwa [List.append_nil] at hboth

end BuildsAll

/-- **The code of a part builds the functions of the part, in their order.** -/
theorem Emitted.builds {program : Program} {inFunction : Bool} {part : Part} {start stop : Nat}
    (h : Emitted program inFunction part start stop) : BuildsAll program start stop part.functions := by
  induction h with
  | literal hi => exact .quiet hi rfl
  | identifier hi => exact .quiet hi rfl
  | binary _ ih => simpa [Part.functions, Tree.functions, Tree.functionsIn] using ih
  | unary _ ih => simpa [Part.functions, Tree.functions, Tree.functionsIn] using ih
  | conjunction _ ih => simpa [Part.functions, Tree.functions] using ih
  | disjunction _ ih => simpa [Part.functions, Tree.functions] using ih
  | conditional _ hfork _ hjoin _ ihp ihx ihy =>
    exact (ihp.snoc hfork rfl).append ((ihx.snoc hjoin rfl).append ihy)
  | application _ _ hi ihf ihargs => exact ihf.append (ihargs.snoc hi rfl)
  | @lambda _ parameters body inner start stop hload hover hinner hbody hpop hundefined hret ihbody =>
    have hfirst : BuildsAll program start (start + 2) [⟨parameters, body⟩] :=
      (BuildsAll.load ⟨hload, inner, stop, hinner, hbody⟩).snoc hover rfl
    have hinside : BuildsAll program (start + 2) stop body.functions := by
      rcases hinner with rfl | rfl
      · exact ihbody
      · simpa [Part.functions, Tree.functions] using ihbody
    exact hfirst.append (((hinside.snoc hpop rfl).snoc hundefined rfl).snoc hret rfl)
  | sequence _ ih => exact ih
  | block henter _ hexit ih => exact (BuildsAll.quiet henter rfl).append (ih.snoc hexit rfl)
  | declaration _ hi ih => exact ih.snoc hi rfl
  | assignment _ hi ih => exact ih.snoc hi rfl
  | functionDeclaration _ ih => exact ih
  | ret _ ih => exact ih
  | returned _ hi ih => exact ih.snoc hi rfl
  | tailCall _ _ hi ihf ihargs => exact ihf.append (ihargs.snoc hi rfl)
  | tailConditional _ hfork _ _ ihp ihx ihy => exact (ihp.snoc hfork rfl).append (ihx.append ihy)
  | noOperands => exact .empty
  | operand _ _ iht ihts => exact iht.append ihts
  | noStatements hi => exact .quiet hi rfl
  | lastStatement _ ih => simpa [Part.functions, Tree.functionsIn] using ih
  | statement _ hi _ iht ihts => exact (iht.snoc hi rfl).append ihts

end ClosureMachine
