import ClosureMachine.Proofs.Ideal.Segments

/-!
# The pace of activations

While an activation runs, the address at which it stands grows with every step, also over calls, after which it goes on
behind the instruction that made them. So it has taken at most as many steps as the address says, and when it is over,
at most as many as the program is long. A step is charged to the activation that takes it, and what all of them have
taken is no more than the sum of these amounts (`Paced`).

An activation begins only where a closure is entered, and when a closure takes over, the activation before it is over.
-/

set_option autoImplicit false

namespace ClosureMachine

/-- The instruction enters a closure, whether it waits for it or not, if under its arguments there is something of the given
kind. -/
def Instruction.entersClosure (calleeKind? : Nat → Option Kind) : Instruction → Bool
  | .call n | .tailCall n => calleeKind? n == some .closure
  | _ => false

/-- Control goes forward. -/
theorem successor_gt {program : Program} {globals : Scopes} {tree : Tree} (h : tree.toProgram globals = .ok program)
    {pc pc' : Nat} {i : Instruction} (hi : program.code[pc]? = some i) (hnext : pc' ∈ i.successors pc) : pc < pc' := by
  have hjump : ∀ target, i.jumpTarget = some target → pc < target := fun target hj => (jump_forward h ⟨i, hi, hj⟩).1
  cases i with
  | jumpIfFalse target =>
    rcases List.mem_pair.mp hnext with rfl | rfl
    · exact Nat.lt_succ_self pc
    · exact hjump _ rfl
  | jump target => exact List.mem_singleton.mp hnext ▸ hjump _ rfl
  | tailCall n => cases hnext
  | ret => cases hnext
  | done => cases hnext
  | _ => exact List.mem_singleton.mp hnext ▸ Nat.lt_succ_self pc

namespace Ideal

/-! ## Where activations wait -/

/-- The address at which a caller goes on, if the frame is one of a call. -/
def returnAddress? (nodes : List Node) (frame : Loc) : Option Nat :=
  match nodes[frame]? with
  | some (.callFrame _ _ address) => some address
  | _ => none

/-- The addresses at which the activations that wait go on. -/
def waiting (nodes : List Node) (control : List Loc) : List Nat := control.filterMap (returnAddress? nodes)

section

variable {nodes nodes' : List Node} {frame : Loc} {blocks control : List Loc}

theorem waiting_call {env stack : Option Loc} {address : Nat}
    (hframe : nodes[frame]? = some (.callFrame env stack address)) :
    waiting nodes (frame :: control) = address :: waiting nodes control :=
  List.filterMap_cons_some (by simp only [returnAddress?, hframe])

theorem waiting_block (hframe : IsBlock nodes frame) : waiting nodes (frame :: control) = waiting nodes control := by
  obtain ⟨env, hn⟩ := hframe
  exact List.filterMap_cons_none (by simp only [returnAddress?, hn])

theorem waiting_blocks (hb : ∀ l ∈ blocks, IsBlock nodes l) (control : List Loc) :
    waiting nodes (blocks ++ control) = waiting nodes control := by
  induction blocks with
  | nil => rfl
  | cons block blocks ih =>
    rw [List.cons_append, waiting_block (hb block List.mem_cons_self),
      ih fun l hl => hb l (List.mem_cons_of_mem _ hl)]

/-- The main program waits for nothing but its own scopes. -/
theorem waiting_eq_nil (hb : ∀ l ∈ blocks, IsBlock nodes l) : waiting nodes blocks = [] := by
  rw [← List.append_nil blocks, waiting_blocks hb]
  rfl

namespace Segments

variable {program : Program} {pc calls : Nat} {used : List Loc}

/-- A move changes nothing about the frames that there are. -/
theorem waiting_later (h : Segments program nodes pc calls control) (hl : Later True used nodes nodes') :
    waiting nodes' control = waiting nodes control := by
  induction h with
  | main hb _ => rw [waiting_eq_nil hb, waiting_eq_nil fun l hmem => (hb l hmem).later hl]
  | call _ hb _ hframe _ ih =>
    rw [waiting_blocks hb, waiting_blocks fun l hmem => (hb l hmem).later hl, waiting_call hframe,
      waiting_call (hl.keep_callFrame hframe), ih]

variable {tree : Tree} {globals : Scopes}

theorem pc_lt (h : Segments program nodes pc calls control) (hcompile : tree.toProgram globals = .ok program) :
    pc < program.code.size := by
  cases h with
  | main _ hscopes => exact hscopes.lt_size hcompile (.inl rfl)
  | call hload _ hscopes => exact hscopes.lt_size hcompile (.inr ⟨_, _, _, hload⟩)

theorem sum_waiting_le (h : Segments program nodes pc calls control) (hcompile : tree.toProgram globals = .ok program) :
    (waiting nodes control).sum ≤ program.code.size * (waiting nodes control).length := by
  induction h with
  | main hb _ =>
    rw [waiting_eq_nil hb]
    exact Nat.zero_le _
  | call _ hb _ hframe rest ih =>
    rw [waiting_blocks hb, waiting_call hframe, List.sum_cons, List.length_cons, Nat.mul_succ]
    have hlt := rest.pc_lt hcompile
    omega

end Segments

end

/-! ## Steps against addresses -/

/-- What the steps have been taken by: each activation that is over has taken at most as many as the program is long, and
each of the others at most as many as the address says at which it stands. Those that are over are
those that were begun, except for the ones that wait. -/
def Paced (program : Program) (c : Core) (steps begun : Nat) : Prop :=
  steps + program.code.size * (waiting c.nodes c.control).length ≤
    program.code.size * begun + (c.pc + (waiting c.nodes c.control).sum)

section

variable {program : Program} {c c' : Core} {calls steps begun : Nat} {tree : Tree} {globals : Scopes}

/-- As long as the activation goes on, its address grows. -/
theorem Paced.forward (hp : Paced program c steps begun) {more : Nat} (hpc : c.pc < c'.pc)
    (hwaiting : waiting c'.nodes c'.control = waiting c.nodes c.control) :
    Paced program c' (steps + 1) (begun + more) := by
  unfold Paced at hp ⊢
  rw [hwaiting, Nat.mul_add]
  omega

/-- A move is one step, and begins an activation if it enters a closure. -/
theorem Paced.move (hp : Paced program c steps begun) (hshaped : Shaped program c calls)
    (hcompile : tree.toProgram globals = .ok program) (hmove : Move program c c') {i : Instruction}
    (hi : program.code[c.pc]? = some i) :
    Paced program c' (steps + 1) (begun + if i.entersClosure c.calleeKind? then 1 else 0) := by
  have hlt := hshaped.segments.pc_lt hcompile
  have hkept : ∀ {used}, Later True used c.nodes c'.nodes → waiting c'.nodes c.control = waiting c.nodes c.control :=
    fun hl => hshaped.segments.waiting_later hl
  cases hmove.passage with
  | stays hi' hnext _ _ _ hnodes _ hcontrol =>
    exact hp.forward (successor_gt hcompile hi' hnext) (by rw [hcontrol, hkept hnodes])
  | enters _ hpc hnodes _ _ hframe hcontrol =>
    refine hp.forward (hpc ▸ Nat.lt_succ_self _) ?_
    rw [hcontrol, waiting_block ⟨_, hframe⟩, hkept hnodes]
  | exits _ hpc hnodes _ hc hframe hcontrol =>
    refine hp.forward (hpc ▸ Nat.lt_succ_self _) ?_
    rw [← hkept hnodes, hc, hcontrol, waiting_block (IsBlock.later ⟨_, hframe⟩ hnodes)]
  | @calls n _ _ _ _ _ _ _ _ hi' hn hs hcallee hnodes _ _ hframe hpc _ hcontrol =>
    cases hi.symm.trans hi'
    have henters : (Instruction.call n).entersClosure c.calleeKind? = true := by
      rw [Instruction.entersClosure, ← hn, Core.calleeKind?_eq hs hcallee]
      rfl
    -- the caller will go on one address further, which pays for this step
    unfold Paced at hp ⊢
    rw [henters, hcontrol, waiting_call hframe, hkept hnodes, List.sum_cons, List.length_cons, if_pos rfl, Nat.mul_succ,
      Nat.mul_succ]
    omega
  | @hands n _ _ _ _ _ _ _ _ hi' hkind _ hnodes hc hb hframe hk hpc _ hcontrol =>
    cases hi.symm.trans hi'
    have henters : (Instruction.tailCall n).entersClosure c.calleeKind? = true := by
      rw [Instruction.entersClosure, hkind]
      rfl
    have hwaiting : waiting c'.nodes c'.control = waiting c.nodes c.control := by
      rw [← hkept hnodes, hc, hcontrol, waiting_blocks fun l hl => (hb l hl).later hnodes]
    -- the activation before is over, and its address was inside the program
    unfold Paced at hp ⊢
    rw [henters, hwaiting, if_pos rfl, Nat.mul_succ]
    omega
  | returns _ _ hc hb hframe _ hnodes _ hpc _ _ hcontrol =>
    have hwaiting : waiting c.nodes c.control = c'.pc :: waiting c'.nodes c'.control := by
      rw [← hkept hnodes, hc, waiting_blocks fun l hl => (hb l hl).later hnodes,
        waiting_call (hnodes.keep_callFrame hframe), hcontrol, hpc]
    -- one activation less waits, so a whole length of the program is set free for the one that is over
    unfold Paced at hp ⊢
    rw [hwaiting, List.sum_cons, List.length_cons, Nat.mul_succ] at hp
    rw [Nat.mul_add]
    omega

/-- One more step is as many as the activations have room for. -/
theorem Paced.steps_lt (hp : Paced program c steps begun) (hshaped : Shaped program c calls)
    (hcompile : tree.toProgram globals = .ok program) : steps < program.code.size * (1 + begun) := by
  have hlt := hshaped.segments.pc_lt hcompile
  have hsum := hshaped.segments.sum_waiting_le hcompile
  unfold Paced at hp
  rw [Nat.mul_add, Nat.mul_one]
  omega

/-- Closures are entered only where the program builds functions. -/
theorem Shaped.builds_of_enters (h : Shaped program c calls) (hmove : Move program c c') {i : Instruction}
    (hi : program.code[c.pc]? = some i) (henters : i.entersClosure c.calleeKind? = true) :
    ∃ a arity entry capacity : Nat, program.code[a]? = some (.loadFunction arity entry capacity) := by
  cases hmove.passage with
  | stays hi' hnext _ hcalls =>
    cases hi.symm.trans hi'
    -- a tail call has no successor, so nothing stays after one
    cases i with
    | call n => exact absurd (hcalls.symm.trans henters) Bool.false_ne_true
    | tailCall n => cases hnext
    | _ => cases henters
  | enters hi' | exits hi' =>
    cases hi.symm.trans hi'
    cases henters
  | calls _ _ _ hcallee | hands _ _ hcallee =>
    obtain ⟨a, hload⟩ := h.entries hcallee
    exact ⟨a, _, _, _, hload⟩
  | returns hi' hreturns =>
    cases hi.symm.trans hi'
    cases i with
    | tailCall n =>
      rw [Instruction.returns, beq_iff_eq] at hreturns
      rw [Instruction.entersClosure, hreturns] at henters
      cases henters
    | ret => cases henters
    | _ => cases hreturns

end

end Ideal

end ClosureMachine
