import ClosureMachine.Proofs.Ideal.Progress
import ClosureMachine.Proofs.Tail.Memory
import ClosureMachine.Proofs.Transparency

/-!
# Tail calls do not change what a program does

A program and the one that the same compiler would make without tail calls run side by side, in the same heap.
They stay side by side until the one without tail calls ends. If it does not end for want of memory, the
other one ends as well and in the same way: with the same answer, or with the same fault, and after the same
output.
-/

set_option autoImplicit false

namespace ClosureMachine

namespace Ideal

/-! ## The beginning -/

section

variable {plain program : Program}

theorem image_range {n : Nat} {l : Loc} (h : l < n) : Image (List.range n) l l := by
  rw [Image, List.getElem?_range h]

/-- At the beginning every node is its own image. -/
theorem sameNodes_boot (plain program : Program) :
    SameNodes plain program (List.range (bootState program).nodes.length) (bootState program).nodes
      (bootState program).nodes where
  length := List.length_range
  nodup := List.nodup_range
  node := by
    intro l l' n hl hn
    have hlt : l' < (bootState program).nodes.length := (List.getElem?_eq_some_iff.mp hn).1
    obtain rfl := hl.unique (image_range hlt)
    refine ⟨n, hn, ?_⟩
    have hmem := List.mem_of_getElem? hn
    simp only [bootState, globalNodes, Nat.sub_self, List.replicate_zero, List.append_nil,
      List.cons_append, List.mem_cons, List.mem_append, List.mem_map, List.mem_range, List.not_mem_nil,
      or_false] at hmem
    rcases hmem with rfl | ⟨id, -, rfl⟩ | rfl
    · refine .environment (List.forall₂_same.mpr fun o ho => ?_) .none
      obtain ⟨id, hid, rfl⟩ := List.mem_map.mp ho
      exact .some (image_range (List.getElem?_eq_some_iff.mp
        (bootState_primitive program (List.mem_range.mp hid))).1)
    · exact .primitive id
    · exact .operandStack _ .nil

theorem tracks_boot (hstack : plain.mainStack = program.mainStack) (hagree : Agree plain program 0 0) :
    Tracks plain program (List.range (bootState program).nodes.length) [] (bootState plain).core
      (bootState program).core := by
  have hsame : (bootState plain).core = (bootState program).core := by
    simp [bootState, State.core, hstack]
  rw [hsame]
  exact
    { nodes := sameNodes_boot plain program
      env := image_range (List.getElem?_eq_some_iff.mp (bootState_globals program)).1
      stack := image_range (List.getElem?_eq_some_iff.mp (bootState_stack program)).1
      control := .nil
      apart := List.nodup_singleton _
      output := rfl
      pc := hagree }

end

/-! ## Runs in the same room -/

section

variable {program : Program} {s : State} {c' : Core} {room : Nat}

/-- A state between two turns: nothing is pinned there. -/
structure State.Settled (s : State) : Prop where
  sorted : s.Sorted
  pinned : s.pinned = []

/-- Where memory is not short, a turn does what it would do without limits. -/
theorem Step.turn (h : Step program s.core c') (hs : s.Settled)
    (hmem : ¬ OutOfMemory (Ideal.turn (some room) none program s).1) :
    ∃ s', Ideal.turn (some room) none program s = (.ok none, s') ∧ s'.core = c' ∧ s'.Settled := by
  have hsame := (turn_mono (.unlimited (some room)) none program s).resolve_left hmem
  obtain ⟨s', hturn, hcore⟩ := h s rfl
  obtain ⟨hsorted, -, hpinned⟩ := hs.sorted.turn (some room) none program
  rw [hsame, hturn] at hsorted hpinned
  refine ⟨s', hsame.trans hturn, hcore, hsorted, ?_⟩
  rcases hpinned with hpinned | ⟨_, _, -, -, herror, -⟩
  · exact hpinned.trans hs.pinned
  · cases herror

/-- The first turn of a run that does not end for want of memory does not find it short. -/
theorem turn_of_follow {fuel : Nat} {out : Except Failure Answer} {s' : State}
    (hrun : follow (turn (some room) none program) fuel s = some (out, s')) (hmem : ¬ OutOfMemory out) :
    ¬ OutOfMemory (turn (some room) none program s).1 := by
  cases fuel with
  | zero => cases hrun
  | succ fuel =>
    rw [ClosureMachine.follow] at hrun
    rcases hturn : turn (some room) none program s with ⟨failure | outcome, s₁⟩ <;> rw [hturn] at hrun
    · cases hrun
      exact hmem
    · exact id

/-- The rest of such a run, once it has taken some steps. -/
theorem Steps.rest {n fuel : Nat} {out : Except Failure Answer} {e : State}
    (h : Steps program n s.core c') (hs : s.Settled)
    (hrun : ClosureMachine.follow (Ideal.turn (some room) none program) fuel s = some (out, e))
    (hmem : ¬ OutOfMemory out) :
    ∃ fuel' s', fuel = fuel' + n ∧ s'.core = c' ∧ s'.Settled ∧
      ClosureMachine.follow (Ideal.turn (some room) none program) fuel' s' = some (out, e) := by
  induction n generalizing s fuel with
  | zero => exact ⟨fuel, s, rfl, h, hs, hrun⟩
  | succ n ih =>
    obtain ⟨c₁, hstep, hrest⟩ := h
    obtain ⟨s₁, hturn, rfl, hs₁⟩ := hstep.turn hs (turn_of_follow hrun hmem)
    cases fuel with
    | zero => cases hrun
    | succ fuel =>
      rw [ClosureMachine.follow, hturn] at hrun
      obtain ⟨fuel', s', rfl, hcore, hs', hrun'⟩ := ih hrest hs₁ hrun
      exact ⟨fuel', s', rfl, hcore, hs', hrun'⟩

end

/-- The same answer, or the same fault of the program. -/
def SameVerdict : Except Failure Answer → Except Failure Answer → Prop
  | .ok answer, .ok answer' => answer = answer'
  | .error f, .error f' => f.fault = f'.fault ∧ Blameless f.fault
  | _, _ => False

section

variable {plain program : Program} {room : Nat}

/-- What the plain machine has room for, the other one has room for. -/
theorem NeedsNoMore.turn {s s' : State} (h : NeedsNoMore plain program s.core s'.core) (hs : s.Settled)
    (hs' : s'.Settled) (hmem : ¬ OutOfMemory (Ideal.turn (some room) none plain s).1) :
    ¬ OutOfMemory (Ideal.turn (some room) none program s').1 := by
  obtain ⟨k', hneeds', rfl | ⟨k, hneeds, hle⟩⟩ := h
  · rw [hneeds' s' rfl hs'.pinned]
    exact Nat.not_lt_zero room
  · rw [hneeds s rfl hs.pinned, Nat.not_lt] at hmem
    rw [hneeds' s' rfl hs'.pinned, Nat.not_lt]
    exact Nat.le_trans hle hmem

/-- **The machine with tail calls ends as the plain one does**, and not later. -/
theorem Tracks.runs {fuel : Nat} {w saved : List Loc} {s s' e : State} {out : Except Failure Answer}
    (h : Tracks plain program w saved s.core s'.core) (hs : s.Settled) (hs' : s'.Settled)
    (htyped : Typed program s'.core)
    (hrun : follow (turn (some room) none plain) fuel s = some (out, e)) (hmem : ¬ OutOfMemory out) :
    ∃ out' e', follow (turn (some room) none program) fuel s' = some (out', e') ∧
      SameVerdict out out' ∧ e'.output = e.output := by
  -- a move of the one is at least one of the other, so the fuel of the plain run becomes less
  induction fuel using Nat.strong_induction_on generalizing w saved s s' with
  | _ fuel ih =>
    have hfirst := turn_of_follow hrun hmem
    obtain ⟨fuel₀, rfl⟩ : ∃ fuel₀, fuel = fuel₀ + 1 := by
      cases fuel with
      | zero => cases hrun
      | succ fuel₀ => exact ⟨fuel₀, rfl⟩
    cases InOrder.next ⟨hs'.sorted, htyped⟩ with
    | step move typed =>
      obtain ⟨k, w₁, saved₁, d, hsteps, htracks⟩ := h.move move
      obtain ⟨fuel₁, s₁, hfuel, rfl, hs₁, hrun₁⟩ := hsteps.rest hs hrun hmem
      obtain ⟨s₁', hturn', rfl, hs₁'⟩ := move.step.turn hs' ((h.affords move).turn hs hs' hfirst)
      obtain ⟨out', e', hrun', hsame, hout⟩ := ih fuel₁ (by omega) htracks hs₁ hs₁' typed hrun₁
      refine ⟨out', e', ?_, hsame, hout⟩
      rw [ClosureMachine.follow, hturn']
      exact follow_of_le hrun' (by omega)
    | fails refusal =>
      obtain ⟨f, s₁, hturn, hfault, hout⟩ := (h.refusal refusal).fails s rfl (some room)
      obtain ⟨f', s₁', hturn', hfault', hout'⟩ := refusal.fails s' rfl (some room)
      rw [ClosureMachine.follow, hturn] at hrun
      cases hrun
      refine ⟨.error f', s₁', ?_, ⟨hfault.trans hfault'.symm, hfault ▸ refusal.blameless⟩, ?_⟩
      · rw [ClosureMachine.follow, hturn']
      · rw [hout, hout', h.output]
    | @answers answer finish =>
      obtain ⟨s₁, hturn, hout⟩ := (h.finish finish).answers s rfl (some room)
      obtain ⟨s₁', hturn', hout'⟩ := finish.answers s' rfl (some room)
      rw [ClosureMachine.follow, hturn] at hrun
      cases hrun
      refine ⟨.ok answer, s₁', ?_, rfl, ?_⟩
      · rw [ClosureMachine.follow, hturn']
      · rw [hout, hout', h.output]

/-- The same, from the beginning. -/
theorem launch_tailCalls {tree : Tree} (hprogram : tree.toProgram Primitive.globals = .ok program)
    (hstack : plain.mainStack = program.mainStack) (hagree : Agree plain program 0 0) {fuel : Nat}
    {report : Report} (hrun : launch (some room) none plain fuel = some report)
    (hmem : ¬ OutOfMemory report.result) :
    ∃ report', launch (some room) none program fuel = some report' ∧
      SameVerdict report.result report'.result ∧ report'.output = report.output := by
  have hspec := boot_spec (some room) plain
  have hspec' := boot_spec (some room) program
  have hboot : boot (some room) plain = (boot (some room) program) := by
    rw [boot, boot, hstack]
  unfold launch at hrun ⊢
  cases hb : boot (some room) plain with
  | error err =>
    rw [hb] at hrun hspec
    cases hrun
    exact absurd hspec.2 hmem
  | ok s =>
    rw [hb] at hrun hspec
    rw [← hboot, hb] at hspec' ⊢
    obtain ⟨⟨out, e⟩, hfollow, hreport⟩ := Option.map_eq_some_iff.mp hrun
    subst hreport
    have htracks := tracks_boot hstack hagree
    rw [← hspec, ← hspec'] at htracks
    have hsettled : s.Settled := by
      rw [hspec]
      exact ⟨sorted_bootState plain, rfl⟩
    have htyped := typed_boot hprogram
    rw [← hspec'] at htyped
    obtain ⟨out', e', hrun', hsame, hout⟩ := htracks.runs hsettled hsettled htyped hfollow hmem
    exact ⟨⟨out', e'.output, e'.steps, e'.peakDepth⟩, Option.map_eq_some_iff.mpr ⟨_, hrun', rfl⟩, hsame,
      hout⟩

/-- Only faults of memory have positions in them. -/
theorem Blameless.of_anywhere {fault fault' : Fault} (h : Blameless fault) (heq : fault = fault'.anywhere) :
    fault = fault' := by
  cases fault' with
  | heap e =>
    rw [heq] at h
    cases h
  | _ => exact heq

end

end Ideal

/-! ## Machines in memory -/

open ClosureMachine.Ideal (OutOfMemory SameVerdict)

/-- The same answer, or errors of the same kind and with the same message. -/
def SameWords : Except Failure Answer → Except Failure Answer → Prop
  | .ok answer, .ok answer' => answer = answer'
  | .error f, .error f' => f.fault.kind = f'.fault.kind ∧ f.fault.message = f'.fault.message
  | _, _ => False

theorem Ideal.SameVerdict.words {out out' ideal ideal' : Except Failure Answer}
    (h : SameVerdict ideal ideal') (hout : SameEnd out ideal) (hout' : SameEnd out' ideal') :
    SameWords out out' := by
  cases out <;> cases ideal <;> simp only [SameEnd] at hout <;>
    cases out' <;> cases ideal' <;> simp only [SameEnd] at hout' <;> simp only [SameVerdict] at h
  · obtain ⟨hsame, hblameless⟩ := h
    have hfault := hblameless.of_anywhere hout.1
    have hfault' := (hsame ▸ hblameless).of_anywhere hout'.1
    have heq := hfault.symm.trans (hsame.trans hfault')
    exact ⟨congrArg Fault.kind heq, congrArg Fault.message heq⟩
  · exact hout.trans (h.trans hout'.symm)

/-- **Tail calls change nothing that can be seen, and cost no memory.** Every tree that compiles compiles to a
plain program too. If that one, in some heap, ends with an answer or with an error that is not for want of
memory, then the program ends in the same heap with the same answer, or with an error of the same kind
and with the same message, after the same output; and it takes no more steps for it. -/
theorem tail_calls_transparent {tree : Tree} {program : Program}
    (h : tree.toProgram Primitive.globals = .ok program) :
    ∃ plain, tree.toPlainProgram Primitive.globals = .ok plain ∧
      ∀ {heapSize fuel : Nat} {log : Log} {report : Report},
        Machine.launch ⟨heapSize, none⟩ plain fuel log = some report → ¬ OutOfMemory report.result →
        ∀ log', ∃ report', Machine.launch ⟨heapSize, none⟩ program fuel log' = some report' ∧
          SameWords report.result report'.result ∧ report'.output = report.output := by
  obtain ⟨plain, hplain, hagree, hstack⟩ := plain_program h
  refine ⟨plain, hplain, ?_⟩
  intro heapSize fuel log report hrun hmem log'
  have hmatch := launch_matches ⟨heapSize, none⟩ plain fuel log
  rw [hrun] at hmatch
  obtain ⟨ideal, hideal, hm⟩ : ∃ ideal, Ideal.launch (some (heapSize / 2)) none plain fuel = some ideal ∧
      report.Matches ideal := by
    cases hi : Ideal.launch (some (heapSize / 2)) none plain fuel with
    | none =>
      rw [hi] at hmatch
      cases hmatch
    | some ideal =>
      rw [hi] at hmatch
      cases hmatch with
      | some hm => exact ⟨ideal, rfl, hm⟩
  obtain ⟨ideal', hideal', hsame, hout⟩ := Ideal.launch_tailCalls h hstack hagree hideal
    fun hout => hmem (hm.result.outOfMemory_iff.mpr hout)
  have hmatch' := launch_matches ⟨heapSize, none⟩ program fuel log'
  rw [hideal'] at hmatch'
  obtain ⟨report', hrun', hm'⟩ := exists_of_matches hmatch'
  exact ⟨report', hrun', hsame.words hm.result hm'.result, hm'.output.trans (hout.trans hm.output.symm)⟩

/-- A function that calls itself out of a block, and a primitive the next time. -/
def relay : Tree :=
  .sequence [.functionDeclaration "f" ["x"] (.sequence [.block (.sequence
    [.declaration "y" (.identifier "x") true,
      .ret (.conditional (.identifier "y")
        (.application (.identifier "f") [.unary "!" (.identifier "y")])
        (.application (.identifier "display") [.identifier "y"]))])]),
    .application (.identifier "f") [.literal (.boolean true)]]

/-- In the smallest heap that is enough for the plain program. -/
theorem tail_calls_transparent_relay :
    ∃ program plain report report', relay.toProgram Primitive.globals = .ok program ∧
      relay.toPlainProgram Primitive.globals = .ok plain ∧
      Machine.launch ⟨424, none⟩ plain 33 .silent = some report ∧
      report.result = .ok (.literal .undefined) ∧ report.output = #["false"] ∧
      Machine.launch ⟨424, none⟩ program 33 .silent = some report' ∧
      SameWords (.ok (.literal .undefined)) report'.result ∧ report'.output = #["false"] := by
  have hcheck : ((relay.toProgram Primitive.globals).toOption.any fun _ =>
      (relay.toPlainProgram Primitive.globals).toOption.any fun plain =>
        (Machine.launch ⟨424, none⟩ plain 33 .silent).any fun report =>
          decide (report.result = .ok (.literal .undefined)) && decide (report.output = #["false"])) = true := by
    decide +kernel
  obtain ⟨program, hcompile, hcheck⟩ := Actions.of_any_ok hcheck
  obtain ⟨plain', hplain', hcheck⟩ := Actions.of_any_ok hcheck
  obtain ⟨plain, hplain, htail⟩ := tail_calls_transparent hcompile
  obtain rfl : plain = plain' := Except.ok.inj (hplain.symm.trans hplain')
  obtain ⟨report, hrun, hreport⟩ := (Option.any_eq_true _ _).mp hcheck
  rw [Bool.and_eq_true, decide_eq_true_iff, decide_eq_true_iff] at hreport
  obtain ⟨hresult, houtput⟩ := hreport
  obtain ⟨report', hrun', hsame, hout⟩ := htail hrun (by rw [hresult]; exact id) .silent
  rw [hresult] at hsame
  exact ⟨program, plain, report, report', hcompile, hplain, hrun, hresult, houtput, hrun', hsame,
    hout.trans houtput⟩

end ClosureMachine
