import Mathlib.Data.Nat.Count
import ClosureMachine.Proofs.Constancy
import ClosureMachine.Proofs.Ideal.Peak
import ClosureMachine.Proofs.Ideal.Segments

/-!
# The shape of the control stack

In the first run of a compiled program the control stack can be read off the code. Between two turns there is a frame
for each call of a closure that has not come back, and above it and at the bottom there are frames for the scopes that
are open at the address where that activation goes on.

So the stack is as deep as there are calls that wait, times the depth to which scopes are nested in the program. Tail
calls do not count: a loop that is written as a function calling itself last runs in the space of one call.
-/

set_option autoImplicit false

namespace ClosureMachine

open ClosureMachine.Ideal (State Loc Segments Shaped)

/-! ## Shapes and counts -/

/-- The frames, from top to bottom, of a machine that has come to `pc`: the scopes that the activation has open, and if
it is not the main program, the frame of its call and the frames of the caller, which goes on at the return
address. -/
inductive ControlShape (program : Program) (h : Heap) : (pc : Nat) → (frames : List Ref) → Prop
  | main {pc : Nat} {blocks : List Ref} (hbody : program.bodyStart pc = 0)
      (hb : ∀ r ∈ blocks, Heap.kind r h = .ok .blockFrame) (hlen : blocks.length = program.scopesOpen pc) :
      ControlShape program h pc blocks
  | call {pc address : Nat} {frame : Ref} {blocks frames : List Ref} (hbody : 0 < program.bodyStart pc)
      (hb : ∀ r ∈ blocks, Heap.kind r h = .ok .blockFrame) (hlen : blocks.length = program.scopesOpen pc)
      (hkind : Heap.kind frame h = .ok .callFrame) (haddress : CallFrame.returnAddress frame h = .ok address)
      (rest : ControlShape program h address frames) : ControlShape program h pc (blocks ++ frame :: frames)

namespace Heap

def isCallFrame (h : Heap) (r : Ref) : Bool := (Heap.kind r h).toOption == some .callFrame

end Heap

namespace Machine

/-- The number of calls that have not come back. -/
def pendingCalls (m : Machine) : Nat := m.registers.control.frames.countP m.heap.isCallFrame

variable (config : Config) (program : Program) (m : Machine)

/-- How many of the first `n` turns call a closure and wait for it. -/
def closureCalls (n : Nat) : Nat := Nat.count (fun k => (m.after config program k).callsClosure program) n

/-- How many of the first `n` turns return to a caller. -/
def returnsMade (n : Nat) : Nat := Nat.count (fun k => (m.after config program k).returns program) n

end Machine

/-! ## From the ideal machine to memory -/

section

variable {room : Nat} {w : World} {m : Machine} {s : State} {program : Program}

theorem Rel.callsClosure_eq (hrel : Rel room w m s) {i : Instruction} (hi : program.code[s.pc]? = some i) :
    m.callsClosure program = i.callsClosure s.core.calleeKind? := by
  rw [Machine.callsClosure, hrel.pc, hi, hrel.calleeKind?_eq, Option.any_some]

theorem Rel.returns_eq (hrel : Rel room w m s) {i : Instruction} (hi : program.code[s.pc]? = some i) :
    m.returns program = i.returns s.core.calleeKind? := by
  rw [Machine.returns, hrel.pc, hi, hrel.calleeKind?_eq, Option.any_some]

theorem Rel.isBlock (hrel : Rel room w m s) {blocks : List Ref} {locs : List Loc}
    (hat : List.Forall₂ w.At blocks locs) (hb : ∀ l ∈ locs, Ideal.IsBlock s.nodes l) :
    ∀ r ∈ blocks, Heap.kind r m.heap = .ok .blockFrame := by
  intro r hr
  obtain ⟨l, hl, hplace⟩ := Represents.Rooted.of_mem hat hr
  obtain ⟨env, hn⟩ := hb l hl
  exact (hrel.rep.placed_of hplace hn).kind_eq

/-- No frame of a block is one of a call. -/
theorem countP_isCallFrame_eq_zero {h : Heap} {blocks : List Ref}
    (hb : ∀ r ∈ blocks, Heap.kind r h = .ok .blockFrame) : blocks.countP h.isCallFrame = 0 := by
  apply List.countP_eq_zero.mpr
  intro r hr
  rw [Heap.isCallFrame, hb r hr]
  decide

/-- The frames in memory have the shape of those of the ideal machine. -/
theorem Rel.controlShape (hrel : Rel room w m s) {globals : Scopes} {tree : Tree}
    (hcompile : tree.toProgram globals = .ok program) {pc calls : Nat} {control : List Loc}
    (h : Segments program s.nodes pc calls control) {frames : List Ref} (hat : List.Forall₂ w.At frames control) :
    ControlShape program m.heap pc frames ∧ frames.countP m.heap.isCallFrame = calls := by
  induction h generalizing frames with
  | main hb hscopes =>
    obtain ⟨hbody, hopen⟩ := hscopes.eq_scopesOpen hcompile (.inl rfl)
    have hblocks := hrel.isBlock hat hb
    exact ⟨.main hbody hblocks (hat.length_eq.trans hopen), countP_isCallFrame_eq_zero hblocks⟩
  | @call _ _ _ _ _ _ _ _ _ _ blocks control hload hb hscopes hframe _ ih =>
    obtain ⟨hbody, hopen⟩ := hscopes.eq_scopesOpen hcompile (.inr ⟨_, _, _, hload⟩)
    obtain ⟨stop, hfunction⟩ := functionAt_of_load hcompile hload
    have htop := List.forall₂_take_append _ _ _ hat
    obtain ⟨r, refs, hplace, hrest, hframes⟩ :=
      List.forall₂_cons_right_iff.mp (List.forall₂_drop_append _ _ _ hat)
    have hplaced := hrel.rep.placed_of hplace hframe
    obtain ⟨address, haddress, rfl⟩ := hplaced.answers_returnAddress.exists_of_ok
    obtain ⟨hshape, hcount⟩ := ih hrest
    have hblocks := hrel.isBlock htop hb
    rw [← List.take_append_drop blocks.length frames, hframes]
    constructor
    · refine .call ?_ hblocks (htop.length_eq.trans hopen) hplaced.kind_eq haddress hshape
      rw [hbody, hfunction.entry_eq]
      exact Nat.succ_pos _
    · have hcall : m.heap.isCallFrame r = true := by
        rw [Heap.isCallFrame, hplaced.kind_eq]
        rfl
      rw [List.countP_append, countP_isCallFrame_eq_zero hblocks, List.countP_cons_of_pos hcall, hcount, Nat.zero_add]

end

/-! ## The first run -/

section

variable {config : Config} {program : Program} {m : Machine} {w : Nat → World} {tree : Tree} {n : Nat}

theorem shaped_boot (program : Program) : Shaped program (Ideal.bootState program).core 0 where
  entries l env arity entry capacity hn := by
    have hmem := List.mem_of_getElem? hn
    simp [Ideal.State.core, Ideal.bootState, Ideal.globalNodes] at hmem
  segments := .main (fun l hl => absurd hl List.not_mem_nil) (.start program 0)

theorem Machine.GoesOn.mono {k : Nat} (h : m.GoesOn config program n) (hle : k ≤ n) : m.GoesOn config program k :=
  fun j hj => h j (Nat.lt_of_lt_of_le hj hle)

/-- Calls are counted: those that wait are those that were made and have not been returned from. -/
theorem Names.shaped (hn : Names config program m w) (hcompile : tree.toProgram Primitive.globals = .ok program)
    (hgoes : m.GoesOn config program n) :
    ∃ calls, Shaped program (Ideal.reached config program n).core calls ∧
      calls + m.returnsMade config program n = m.closureCalls config program n := by
  induction n with
  | zero => exact ⟨0, shaped_boot program, rfl⟩
  | succ n ih =>
    obtain ⟨calls, hshaped, hcount⟩ := ih (hgoes.mono (Nat.le_succ n))
    have hmove := Ideal.move_reached hcompile (hn.goesOn hgoes) (Nat.lt_succ_self n)
    obtain ⟨i, calls', hi, hshaped', hcount'⟩ := hshaped.move hmove
    have hreturns := (hn.rel n).returns_eq hi
    have hcalls := (hn.rel n).callsClosure_eq hi
    refine ⟨calls', hshaped', ?_⟩
    simp only [Machine.returnsMade, Machine.closureCalls, Nat.count_succ, hreturns, hcalls] at hcount ⊢
    omega

theorem Names.controlShape (hn : Names config program m w) (hcompile : tree.toProgram Primitive.globals = .ok program)
    (hgoes : m.GoesOn config program n) :
    ControlShape program (m.after config program n).heap (m.after config program n).registers.pc
        (m.after config program n).registers.control.frames ∧
      Segments program (Ideal.reached config program n).nodes (Ideal.reached config program n).pc
        (m.after config program n).pendingCalls (Ideal.reached config program n).control ∧
      (m.after config program n).pendingCalls + m.returnsMade config program n = m.closureCalls config program n := by
  obtain ⟨calls, hshaped, hcount⟩ := hn.shaped hcompile hgoes
  obtain ⟨hshape, rfl⟩ := (hn.rel n).controlShape hcompile hshaped.segments (hn.rel n).control
  rw [(hn.rel n).pc]
  exact ⟨hshape, hshaped.segments, hcount⟩

/-! ## The greatest depth -/

/-- More calls, more frames. -/
theorem frames_mono {calls d B : Nat} (hle : calls ≤ d) : calls + (calls + 1) * B ≤ d + (d + 1) * B :=
  Nat.add_le_add hle (Nat.mul_le_mul_right _ (Nat.succ_le_succ hle))

/-- The machine goes on if the ideal machine does. -/
theorem Names.goesOn_succ (hn : Names config program m w) (hgoes : m.GoesOn config program n)
    (hturn : (Ideal.turn (some (config.heapSize / 2)) config.maxSteps program (Ideal.reached config program n)).1 =
      .ok none) : m.GoesOn config program (n + 1) := by
  intro k hk
  rcases Nat.lt_succ_iff_lt_or_eq.mp hk with hlt | rfl
  · exact hgoes k hlt
  · have hsame := ((hn.rel k).turn config program).1
    rw [hturn] at hsame
    rcases hm : (m.after config program k).turn config program with ⟨failure | outcome, m'⟩ <;> rw [hm] at hsame
    · exact hsame.elim
    · cases hsame
      rfl

/-- One turn more, which may be the last. -/
theorem Names.peakDepth_turn (hn : Names config program m w)
    (hcompile : tree.toProgram Primitive.globals = .ok program) (hgoes : m.GoesOn config program n) {d : Nat}
    (hd : ∀ k ≤ n + 1, m.GoesOn config program k → (m.after config program k).pendingCalls ≤ d)
    (hpeak : (m.after config program n).peakDepth ≤ d + (d + 1) * program.deepestNesting) :
    (m.after config program (n + 1)).peakDepth ≤ d + (d + 1) * program.deepestNesting := by
  rw [(hn.rel n).peakDepth] at hpeak
  rw [(hn.rel (n + 1)).peakDepth]
  have hsegments := (hn.controlShape hcompile hgoes).2.1
  have hpending := hd n (Nat.le_succ n) hgoes
  have hturn : Ideal.turn (some (config.heapSize / 2)) config.maxSteps program (Ideal.reached config program n) =
    (_, Ideal.reached config program (n + 1)) := rfl
  rcases Ideal.turn_peak hturn with hsame | ⟨slots, hi, hscope⟩ | ⟨hok, hcall⟩
  · rw [hsame]
    exact hpeak
  · rw [hscope]
    exact Nat.max_le.mpr ⟨hpeak, (hsegments.length_lt hcompile hi).trans (frames_mono hpending)⟩
  · have hgoes' := hn.goesOn_succ hgoes hok
    have hsegments' := (hn.controlShape hcompile hgoes').2.1
    rw [hcall]
    exact Nat.max_le.mpr ⟨hpeak, (hsegments'.length_le hcompile).trans (frames_mono (hd _ (Nat.le_refl _) hgoes'))⟩

theorem Names.peakDepth_le (hn : Names config program m w)
    (hcompile : tree.toProgram Primitive.globals = .ok program) (hgoes : m.GoesOn config program n) {d : Nat}
    (hd : ∀ k ≤ n, (m.after config program k).pendingCalls ≤ d) :
    (m.after config program n).peakDepth ≤ d + (d + 1) * program.deepestNesting := by
  induction n with
  | zero =>
    rw [(hn.rel 0).peakDepth]
    exact Nat.zero_le _
  | succ n ih =>
    have hgoes' := hgoes.mono (Nat.le_succ n)
    exact hn.peakDepth_turn hcompile hgoes' (fun k hk _ => hd k hk) (ih hgoes' fun k hk => hd k (Nat.le_succ_of_le hk))

end

/-! ## The theorem -/

/-- **The control stack has the shape of the code.** In the first run of a compiled program, whatever the size of memory:
between any two turns the frames are in segments, one for the main program and one for each call of a closure that has
not come back, and each segment is as long as scopes are open in the code where its activation stands; the calls
that wait are those made less those returned from. So the stack never gets deeper than the calls that wait at the same
time and the nesting of scopes allow, however many tail calls there are. A run that ends has gone through such turns
and one more. -/
theorem control_shape {tree : Tree} {program : Program} (hcompile : tree.toProgram Primitive.globals = .ok program)
    {config : Config} {m : Machine} {log log' : Log} (hboot : Machine.boot config program log = (.ok m, log')) :
    (∀ n, m.GoesOn config program n →
      ControlShape program (m.after config program n).heap (m.after config program n).registers.pc
        (m.after config program n).registers.control.frames ∧
      (m.after config program n).pendingCalls + m.returnsMade config program n = m.closureCalls config program n) ∧
    (∀ n d, m.GoesOn config program n → (∀ k ≤ n, (m.after config program k).pendingCalls ≤ d) →
      (m.after config program n).peakDepth ≤ d + (d + 1) * program.deepestNesting) ∧
    (∀ d fuel report, (∀ k, m.GoesOn config program k → (m.after config program k).pendingCalls ≤ d) →
      Machine.launch config program fuel log = some report →
      report.peakDepth ≤ d + (d + 1) * program.deepestNesting) ∧
    ∀ fuel log₁ result m' log₂, Machine.run config program fuel m log₁ = some (result, m', log₂) →
      ∃ k, m.GoesOn config program k ∧ m' = m.after config program (k + 1) := by
  obtain ⟨w, hn⟩ := exists_names hboot
  refine ⟨fun n hgoes => ?_, fun n d hgoes hd => hn.peakDepth_le hcompile hgoes hd, fun d fuel report hd hlaunch => ?_,
    fun fuel log₁ result m' log₂ hrun => Machine.goesOn_of_run hrun⟩
  · obtain ⟨hshape, -, hcount⟩ := hn.controlShape hcompile hgoes
    exact ⟨hshape, hcount⟩
  · rw [Machine.launch, hboot] at hlaunch
    obtain ⟨⟨result, m', log''⟩, hrun, rfl⟩ := Option.map_eq_some_iff.mp hlaunch
    obtain ⟨n, hgoes, hm'⟩ := Machine.goesOn_of_run hrun
    show m'.peakDepth ≤ _
    rw [show m' = _ from hm']
    exact hn.peakDepth_turn hcompile hgoes (fun k _ hk => hd k hk)
      (hn.peakDepth_le hcompile hgoes fun k hk => hd k (hgoes.mono hk))

/-- A function that calls what it is given, last of all and from inside a block, with itself as the argument. -/
def selfApplied : Tree :=
  let function := .lambda ["f"] (.block (.ret (.application (.identifier "f") [.identifier "f"])))
  .application function [function]

set_option maxRecDepth 100000 in
/-- The tenth turn is the first of its tail calls. The one call that the main program made still waits, and all frames
after it are those of two scopes. -/
theorem control_shape_selfApplied : ∃ program m log, selfApplied.toProgram Primitive.globals = .ok program ∧
    Machine.boot tight program .silent = (.ok m, log) ∧ m.GoesOn tight program 10 ∧
    program.code[(m.after tight program 9).registers.pc]? = some (.tailCall 1) ∧
    ControlShape program (m.after tight program 10).heap (m.after tight program 10).registers.pc
      (m.after tight program 10).registers.control.frames ∧
    (m.after tight program 10).pendingCalls + m.returnsMade tight program 10 = m.closureCalls tight program 10 ∧
    (∀ k ≤ 10, (m.after tight program k).pendingCalls ≤ 1) ∧
    (m.after tight program 10).peakDepth ≤ 1 + (1 + 1) * 1 ∧
    ∀ fuel report, (∀ k, m.GoesOn tight program k → (m.after tight program k).pendingCalls ≤ 1) →
      Machine.launch tight program fuel .silent = some report → report.peakDepth ≤ 1 + (1 + 1) * 1 := by
  have hcheck : ((selfApplied.toProgram Primitive.globals).toOption.any fun program =>
      (Machine.boot tight program .silent).1.toOption.any fun m =>
        (List.range 10).all (fun k => decide (((m.after tight program k).turn tight program).1 = .ok none)) &&
        (decide (program.code[(m.after tight program 9).registers.pc]? = some (.tailCall 1)) &&
        ((List.range 11).all (fun k => decide ((m.after tight program k).pendingCalls ≤ 1)) &&
        decide (program.deepestNesting = 1)))) = true := by
    decide +kernel
  obtain ⟨program, hcompile, hcheck⟩ := Actions.of_any_ok hcheck
  obtain ⟨m, hboot, hcheck⟩ := Actions.of_any_ok hcheck
  simp only [Bool.and_eq_true, decide_eq_true_iff, List.all_eq_true, List.mem_range] at hcheck
  obtain ⟨hgoes, htail, hpending, hnesting⟩ := hcheck
  have hpending : ∀ k ≤ 10, (m.after tight program k).pendingCalls ≤ 1 := fun k hk => hpending k (Nat.lt_succ_of_le hk)
  have hboots : Machine.boot tight program .silent = (.ok m, (Machine.boot tight program .silent).2) := by
    rw [← hboot]
  obtain ⟨hshape, hdepth, hreport, -⟩ := control_shape hcompile hboots
  rw [hnesting] at hdepth hreport
  exact ⟨program, m, _, hcompile, hboots, hgoes, htail, (hshape 10 hgoes).1, (hshape 10 hgoes).2, hpending,
    hdepth 10 1 hgoes hpending, hreport 1⟩

end ClosureMachine
