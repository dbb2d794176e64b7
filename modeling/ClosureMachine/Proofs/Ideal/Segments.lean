import ClosureMachine.Proofs.Compile.Nesting
import ClosureMachine.Proofs.Ideal.Passages
import ClosureMachine.Proofs.StackBounds

/-!
# The segments of the control stack

The frames that wait belong to activations: to each a frame for every scope that it has entered, and below them
the frame of its call, except for the main program. How many scopes an activation has entered is known from the
code, since every way to an address has opened the same number (`Flow.scopes_eq`); so the length of the stack is known
from the number of calls that wait and the addresses at which they do.

A move keeps this (`Shaped.move`). Only a call of a closure makes one activation more, and only a return one less: a
closure that takes over has the frame of the activation before it, and none of its scopes.
-/

set_option autoImplicit false

namespace ClosureMachine.Ideal

/-! ## Scopes at an address -/

/-- Control gets from the beginning of the body to the address with so many scopes open. -/
def ScopesAt (program : Program) (entry pc n : Nat) : Prop := ∃ depth : Int, Flow program entry depth n pc

namespace ScopesAt

variable {program : Program} {entry pc n : Nat}

theorem start (program : Program) (entry : Nat) : ScopesAt program entry entry 0 := ⟨0, .start⟩

theorem step (h : ScopesAt program entry pc n) {i : Instruction} {pc' n' : Nat} (hi : program.code[pc]? = some i)
    (hnext : pc' ∈ i.successors pc) (hn : (n' : Int) = n + i.scopeEffect) : ScopesAt program entry pc' n' := by
  obtain ⟨depth, hflow⟩ := h
  refine ⟨depth + i.operandEffect, ?_⟩
  rw [hn]
  exact hflow.step hi hnext

variable {globals : Scopes} {tree : Tree}

/-- Body and number are those that the code shows. -/
theorem eq_scopesOpen (h : ScopesAt program entry pc n) (hcompile : tree.toProgram globals = .ok program)
    (hentry : program.CodeEntry entry) : program.bodyStart pc = entry ∧ n = program.scopesOpen pc := by
  obtain ⟨depth, hflow⟩ := h
  obtain ⟨hbody, hheight⟩ := hflow.scopes_eq hcompile hentry
  refine ⟨hbody, ?_⟩
  rw [Program.scopesOpen, hbody, ← hheight, Int.toNat_natCast]

theorem lt_size (h : ScopesAt program entry pc n) (hcompile : tree.toProgram globals = .ok program)
    (hentry : program.CodeEntry entry) : pc < program.code.size := by
  obtain ⟨depth, hflow⟩ := h
  apply hflow.lt_size hcompile
  rcases hentry with rfl | ⟨a, arity, stack, hload⟩
  · obtain ⟨stop, -, -, hsize, -⟩ := emitted_program hcompile
    omega
  · exact entry_lt hcompile hload

theorem le_deepestNesting (h : ScopesAt program entry pc n) (hcompile : tree.toProgram globals = .ok program)
    (hentry : program.CodeEntry entry) : n ≤ program.deepestNesting := by
  rw [(h.eq_scopesOpen hcompile hentry).2]
  exact scopesOpen_le (h.lt_size hcompile hentry)

end ScopesAt

/-! ## Segments -/

/-- From top to bottom: the frames of an activation that has come to `pc`, and those of the `calls` activations that
wait for it, each at the return address of the frame above it. -/
inductive Segments (program : Program) (nodes : List Node) : (pc calls : Nat) → (control : List Loc) → Prop
  | main {pc : Nat} {blocks : List Loc} (hb : ∀ l ∈ blocks, IsBlock nodes l)
      (hscopes : ScopesAt program 0 pc blocks.length) : Segments program nodes pc 0 blocks
  | call {pc calls a arity entry capacity address : Nat} {frame : Loc} {env stack : Option Loc}
      {blocks control : List Loc} (hload : program.code[a]? = some (.loadFunction arity entry capacity))
      (hb : ∀ l ∈ blocks, IsBlock nodes l) (hscopes : ScopesAt program entry pc blocks.length)
      (hframe : nodes[frame]? = some (.callFrame env stack address))
      (rest : Segments program nodes address calls control) :
      Segments program nodes pc (calls + 1) (blocks ++ frame :: control)

/-- Where blocks end, they end in one way. -/
theorem blocks_unique {nodes : List Node} {blocks blocks' rest rest' : List Loc} {frame frame' : Loc}
    (heq : blocks ++ frame :: rest = blocks' ++ frame' :: rest') (hb : ∀ l ∈ blocks, IsBlock nodes l)
    (hb' : ∀ l ∈ blocks', IsBlock nodes l) (hf : ¬ IsBlock nodes frame) (hf' : ¬ IsBlock nodes frame') :
    blocks = blocks' ∧ frame = frame' ∧ rest = rest' := by
  induction blocks generalizing blocks' with
  | nil =>
    cases blocks' with
    | nil =>
      obtain ⟨rfl, rfl⟩ := List.cons.inj heq
      exact ⟨rfl, rfl, rfl⟩
    | cons block blocks' =>
      obtain ⟨rfl, -⟩ := List.cons.inj heq
      exact absurd (hb' _ List.mem_cons_self) hf
  | cons block blocks ih =>
    cases blocks' with
    | nil =>
      obtain ⟨rfl, -⟩ := List.cons.inj heq
      exact absurd (hb _ List.mem_cons_self) hf'
    | cons block' blocks' =>
      obtain ⟨rfl, htail⟩ := List.cons.inj heq
      obtain ⟨rfl, rfl, rfl⟩ := ih htail (fun l hl => hb l (List.mem_cons_of_mem _ hl))
        fun l hl => hb' l (List.mem_cons_of_mem _ hl)
      exact ⟨rfl, rfl, rfl⟩

namespace Segments

variable {program : Program} {nodes nodes' : List Node} {pc pc' calls n : Nat} {control blocks rest used : List Loc}
  {frame : Loc}

theorem later (h : Segments program nodes pc calls control) (hl : Later True used nodes nodes') :
    Segments program nodes' pc calls control := by
  induction h with
  | main hb hscopes => exact .main (fun l hmem => (hb l hmem).later hl) hscopes
  | call hload hb hscopes hframe _ ih =>
    exact .call hload (fun l hmem => (hb l hmem).later hl) hscopes (hl.keep_callFrame hframe) ih

/-- The activation goes on, with the same scopes. -/
theorem step (h : Segments program nodes pc calls control) {i : Instruction} (hi : program.code[pc]? = some i)
    (hnext : pc' ∈ i.successors pc) (hscopes : i.scopeEffect = 0) : Segments program nodes pc' calls control := by
  have hn : ∀ n : Nat, (n : Int) = n + i.scopeEffect := by
    intro n
    rw [hscopes, Int.add_zero]
  cases h with
  | main hb hat => exact .main hb (hat.step hi hnext (hn _))
  | call hload hb hat hframe rest => exact .call hload hb (hat.step hi hnext (hn _)) hframe rest

/-- One scope more. -/
theorem enter (h : Segments program nodes pc calls control) {slots : Nat}
    (hi : program.code[pc]? = some (.enterScope slots)) (hframe : IsBlock nodes frame) :
    Segments program nodes (pc + 1) calls (frame :: control) := by
  have hn : ∀ blocks : List Loc, ((frame :: blocks).length : Int) =
      blocks.length + (Instruction.enterScope slots).scopeEffect := fun blocks => Int.natCast_succ blocks.length
  cases h with
  | main hb hat =>
    exact .main (List.forall_mem_cons.mpr ⟨hframe, hb⟩) (hat.step hi (List.mem_singleton_self _) (hn _))
  | @call _ _ _ _ _ _ _ _ _ _ blocks control hload hb hat hcall rest =>
    rw [← List.cons_append]
    exact .call hload (List.forall_mem_cons.mpr ⟨hframe, hb⟩) (hat.step hi (List.mem_singleton_self _) (hn _)) hcall rest

/-- One scope less. -/
theorem exit (h : Segments program nodes pc calls (frame :: control)) (hi : program.code[pc]? = some .exitScope)
    (hframe : IsBlock nodes frame) : Segments program nodes (pc + 1) calls control := by
  have hn : ∀ blocks : List Loc, (blocks.length : Int) =
      (frame :: blocks).length + Instruction.exitScope.scopeEffect := by
    intro blocks
    simp [Instruction.scopeEffect]
  generalize heq : frame :: control = all at h
  cases h with
  | main hb hat =>
    subst heq
    exact .main (fun l hl => hb l (List.mem_cons_of_mem _ hl)) (hat.step hi (List.mem_singleton_self _) (hn _))
  | @call _ _ _ _ _ _ _ _ _ _ blocks control' hload hb hat hcall rest =>
    cases blocks with
    | nil =>
      obtain ⟨rfl, -⟩ := List.cons.inj heq
      exact absurd hframe (not_isBlock hcall rfl)
    | cons block blocks =>
      obtain ⟨rfl, rfl⟩ := List.cons.inj heq
      exact .call hload (fun l hl => hb l (List.mem_cons_of_mem _ hl))
        (hat.step hi (List.mem_singleton_self _) (hn _)) hcall rest

/-- An activation begins, with the frame of its call on top. -/
theorem entered {a arity entry capacity address : Nat} {env stack : Option Loc}
    (hload : program.code[a]? = some (.loadFunction arity entry capacity))
    (hframe : nodes[frame]? = some (.callFrame env stack address))
    (rest : Segments program nodes address calls control) :
    Segments program nodes entry (calls + 1) (frame :: control) := by
  rw [← List.nil_append (frame :: control)]
  exact .call hload (fun l hl => absurd hl List.not_mem_nil) (.start program entry) hframe rest

/-- The topmost call, found below the blocks. -/
theorem split (h : Segments program nodes pc calls (blocks ++ frame :: rest)) (hb : ∀ l ∈ blocks, IsBlock nodes l)
    {node : Node} (hn : nodes[frame]? = some node) (hk : node.kind = .callFrame) :
    ∃ calls' address env stack, calls = calls' + 1 ∧ nodes[frame]? = some (.callFrame env stack address) ∧
      Segments program nodes address calls' rest := by
  generalize heq : blocks ++ frame :: rest = all at h
  cases h with
  | main hb' =>
    subst heq
    exact absurd (hb' frame (by simp)) (not_isBlock hn hk)
  | call _ hb' _ hframe below =>
    obtain ⟨rfl, rfl, rfl⟩ := blocks_unique heq hb hb' (not_isBlock hn hk) (not_isBlock hframe rfl)
    exact ⟨_, _, _, _, rfl, hframe, below⟩

variable {globals : Scopes} {tree : Tree}

/-- **What the frames amount to**: one for each call, and to each activation as many as scopes are nested. -/
theorem length_le (h : Segments program nodes pc calls control) (hcompile : tree.toProgram globals = .ok program) :
    control.length ≤ calls + (calls + 1) * program.deepestNesting := by
  induction h with
  | main _ hscopes =>
    have hle := hscopes.le_deepestNesting hcompile (.inl rfl)
    omega
  | @call _ calls _ _ _ _ _ _ _ _ blocks control hload _ hscopes _ _ ih =>
    have hle := hscopes.le_deepestNesting hcompile (.inr ⟨_, _, _, hload⟩)
    calc (blocks ++ _ :: control).length
        = blocks.length + (control.length + 1) := by rw [List.length_append, List.length_cons]
      _ ≤ program.deepestNesting + (calls + (calls + 1) * program.deepestNesting + 1) :=
          Nat.add_le_add hle (Nat.add_le_add_right ih 1)
      _ = calls + 1 + (calls + 1 + 1) * program.deepestNesting := by rw [Nat.succ_mul (calls + 1)]; omega

/-- The same just before one more scope is entered. -/
theorem length_lt (h : Segments program nodes pc calls control) (hcompile : tree.toProgram globals = .ok program)
    {slots : Nat} (hi : program.code[pc]? = some (.enterScope slots)) :
    control.length + 1 ≤ calls + (calls + 1) * program.deepestNesting := by
  -- as if the frame were there
  have hlater := h.later (Later.append True [] nodes [.blockFrame none])
  exact (hlater.enter hi ⟨none, by simp⟩ : Segments program _ (pc + 1) calls (nodes.length :: control)).length_le hcompile

end Segments

/-! ## Moves -/

/-- The frames are in segments, and every closure begins where a function was built. -/
structure Shaped (program : Program) (c : Core) (calls : Nat) : Prop where
  entries : ∀ ⦃l env : Loc⦄ ⦃arity entry capacity : Nat⦄,
    c.nodes[l]? = some (.closure (some env) arity entry capacity) →
      ∃ a : Nat, program.code[a]? = some (.loadFunction arity entry capacity)
  segments : Segments program c.nodes c.pc calls c.control

section

variable {program : Program} {c c' : Core} {calls : Nat}

theorem Shaped.entries_next (h : Shaped program c calls) (hmove : Move program c c') ⦃l env : Loc⦄
    ⦃arity entry capacity : Nat⦄ (hn : c'.nodes[l]? = some (.closure (some env) arity entry capacity)) :
    ∃ a : Nat, program.code[a]? = some (.loadFunction arity entry capacity) := by
  by_cases hlt : l < c.nodes.length
  · obtain ⟨used, hl⟩ : ∃ used, Later True used c.nodes c'.nodes := hmove.later fun _ _ => trivial
    have hold := List.getElem?_eq_getElem hlt
    obtain ⟨n', hn', hb⟩ := hl hold
    cases hn.symm.trans hn'
    generalize c.nodes[l] = n at hold hb
    cases hb with
    | same => exact h.entries hold
  · exact ⟨_, (hmove.new_closure (Nat.le_of_not_lt hlt) hn).1⟩

/-- What a move does to the number of calls. -/
theorem Shaped.move (h : Shaped program c calls) (hmove : Move program c c') :
    ∃ i calls', program.code[c.pc]? = some i ∧ Shaped program c' calls' ∧
      calls' + (if i.returns c.calleeKind? then 1 else 0) = calls + if i.callsClosure c.calleeKind? then 1 else 0 := by
  have hentries := h.entries_next hmove
  cases hmove.passage with
  | stays hi hnext hscopes hcalls hreturns hnodes _ hcontrol =>
    refine ⟨_, calls, hi, ⟨hentries, ?_⟩, by rw [hcalls, hreturns]⟩
    rw [hcontrol]
    exact (h.segments.later hnodes).step hi hnext hscopes
  | enters hi hpc hnodes _ _ hframe hcontrol =>
    refine ⟨_, calls, hi, ⟨hentries, ?_⟩, rfl⟩
    rw [hcontrol, hpc]
    exact (h.segments.later hnodes).enter hi ⟨_, hframe⟩
  | exits hi hpc hnodes _ hc hframe hcontrol =>
    refine ⟨_, calls, hi, ⟨hentries, ?_⟩, rfl⟩
    have hsegments := h.segments
    rw [hc] at hsegments
    rw [hcontrol, hpc]
    exact (hsegments.exit hi ⟨_, hframe⟩).later hnodes
  | calls hi hn hs hcallee hnodes _ _ hframe hpc _ hcontrol =>
    obtain ⟨a, hload⟩ := h.entries hcallee
    refine ⟨_, calls + 1, hi, ⟨hentries, ?_⟩, ?_⟩
    · rw [hcontrol, hpc]
      exact .entered hload hframe ((h.segments.later hnodes).step hi (List.mem_singleton_self _) rfl)
    · rw [Instruction.callsClosure, ← hn, Core.calleeKind?_eq hs hcallee]
      rfl
  | hands hi hkind hcallee hnodes hc hb hframe hk hpc _ hcontrol =>
    obtain ⟨a, hload⟩ := h.entries hcallee
    have hsegments := h.segments
    rw [hc] at hsegments
    obtain ⟨calls', address, env, stack, rfl, hcall, hbelow⟩ := hsegments.split hb hframe hk
    refine ⟨_, calls' + 1, hi, ⟨hentries, ?_⟩, ?_⟩
    · rw [hcontrol, hpc]
      exact .entered hload (hnodes.keep_callFrame hcall) (hbelow.later hnodes)
    · rw [Instruction.returns, hkind]
      rfl
  | returns hi hreturns hc hb hframe _ hnodes _ hpc _ _ hcontrol =>
    have hsegments := h.segments
    rw [hc] at hsegments
    obtain ⟨calls', address, env, stack, rfl, hcall, hbelow⟩ := hsegments.split hb hframe rfl
    cases hframe.symm.trans hcall
    refine ⟨_, calls', hi, ⟨hentries, ?_⟩, ?_⟩
    · rw [hcontrol, hpc]
      exact hbelow.later hnodes
    · rw [hreturns, Instruction.not_callsClosure_of_returns hreturns]
      rfl

end

end ClosureMachine.Ideal
