import ClosureMachine.Proofs.Ideal.Refinement
import ClosureMachine.Proofs.Ideal.Room

/-!
# Collections are not noticed

A collection moves nodes, begins a new epoch and lets the string table give out numbers again, and when it
happens depends on the size of the heap. None of this shows in what a program does. The ideal machine, in which
there are no collections, stands between the machines with two heaps: each of them follows it, and all
that the size of the heap decides is whether there is memory for the next node.
-/

set_option autoImplicit false

namespace ClosureMachine

open ClosureMachine.Ideal (OutOfMemory)

/-- What can be seen of a machine that was booted and run once. -/
structure Report where
  result : Except Failure Answer
  output : Array String
  steps : Nat
  peakDepth : Nat
deriving DecidableEq

namespace Machine

/-- Boots a machine and runs it once, in at most `fuel` instructions. A machine that does not boot has done
nothing. -/
def launch (config : Config) (program : Program) (fuel : Nat) (log : Log) : Option Report :=
  match boot config program log with
  | (.error failure, _) => some ⟨.error failure, #[], 0, 0⟩
  | (.ok m, log) =>
    (run config program fuel m log).map fun (result, m, _) =>
      ⟨result, m.host.output, m.steps, m.peakDepth⟩

end Machine

/-- The same answer, or a failure of the same kind in the same instruction. -/
def SameResult : Except Failure Answer → Except Failure Answer → Prop
  | .ok answer, .ok answer' => answer = answer'
  | .error f, .error f' => f.fault.kind = f'.fault.kind ∧ f.location = f'.location
  | _, _ => False

/-! ## Seen from the ideal machine -/

namespace Ideal

/-- What can be seen of the ideal machine. -/
noncomputable def launch (room : Option Nat) (limit : Option Nat) (program : Program) (fuel : Nat) :
    Option Report :=
  match boot room program with
  | .error e => some ⟨.error (.ofFault (.heap e)), #[], 0, 0⟩
  | .ok s =>
    (follow (turn room limit program) fuel s).map fun (result, s) =>
      ⟨result, s.output, s.steps, s.peakDepth⟩

/-- In more room the ideal machine does the same, unless it runs out of memory in the smaller one. -/
theorem launch_mono {room room' : Option Nat} (hw : Wider room room') (limit : Option Nat)
    (program : Program) (fuel : Nat) :
    (∃ report, launch room limit program fuel = some report ∧ OutOfMemory report.result) ∨
      launch room limit program fuel = launch room' limit program fuel := by
  unfold launch
  rcases boot_mono hw program with ⟨e, he, hkind⟩ | heq
  · rw [he]
    exact .inl ⟨_, rfl, hkind⟩
  · rw [← heq]
    cases boot room program with
    | error e => exact .inr rfl
    | ok s =>
      dsimp only
      rcases follow_mono hw limit program fuel s with ⟨out, s', hrun, hout⟩ | hsame
      · rw [hrun]
        exact .inl ⟨_, rfl, hout⟩
      · rw [hsame]
        exact .inr rfl

end Ideal

/-- Reports that agree in everything but positions in memory. -/
structure Report.Matches (report report' : Report) : Prop where
  result : SameEnd report.result report'.result
  output : report.output = report'.output
  steps : report.steps = report'.steps
  peakDepth : report.peakDepth = report'.peakDepth

/-- Of a machine and of the ideal machine one sees the same. -/
theorem launch_matches (config : Config) (program : Program) (fuel : Nat) (log : Log) :
    Option.Rel Report.Matches (Machine.launch config program fuel log)
      (Ideal.launch (some (config.heapSize / 2)) config.maxSteps program fuel) := by
  have hboot := rel_boot config.heapSize program
  unfold Machine.launch Machine.boot Ideal.launch
  cases hx : Machine.bootStore config.heapSize program.mainStack <;>
    cases hy : Ideal.boot (some (config.heapSize / 2)) program <;> rw [hx, hy] at hboot
  · exact hboot.elim
  · obtain ⟨w, hrel⟩ := hboot
    rename_i registers heap s
    have hrun := hrel.follow config program fuel
    dsimp only
    generalize hlog : Log.add _ _ _ _ = log'
    rw [← Machine.run_eq_follow config program fuel _ log'] at hrun
    cases hm : Machine.run config program fuel (Machine.ofRegisters heap registers) log' with
    | none =>
      cases hs : follow (Ideal.turn (some (config.heapSize / 2)) config.maxSteps program) fuel s with
      | none => exact .none
      | some out =>
        rw [hm, hs] at hrun
        exact hrun.elim
    | some out =>
      cases hs : follow (Ideal.turn (some (config.heapSize / 2)) config.maxSteps program) fuel s with
      | none =>
        rw [hm, hs] at hrun
        exact hrun.elim
      | some out' =>
        rw [hm, hs] at hrun
        obtain ⟨hend, w', hrel'⟩ := hrun
        exact .some ⟨hend, hrel'.output, hrel'.steps, hrel'.peakDepth⟩
  · subst hboot
    exact .some ⟨⟨rfl, rfl⟩, rfl, rfl, rfl⟩
  · exact hboot.elim

/-- A machine that matches an ideal one which has come to its end. -/
theorem exists_of_matches {launched : Option Report} {ideal : Report}
    (h : Option.Rel Report.Matches launched (some ideal)) :
    ∃ report, launched = some report ∧ report.Matches ideal := by
  cases h with
  | some hm => exact ⟨_, rfl, hm⟩

theorem SameEnd.outOfMemory_iff {out out' : Except Failure Answer} (h : SameEnd out out') :
    OutOfMemory out ↔ OutOfMemory out' := by
  cases out <;> cases out' <;> simp only [SameEnd] at h
  · simp only [OutOfMemory, h.1, Fault.kind_anywhere]
  · exact Iff.rfl

/-- Two machines that both do what the ideal one does have the same result. -/
theorem SameEnd.sameResult {out out' ideal : Except Failure Answer} (h : SameEnd out ideal)
    (h' : SameEnd out' ideal) : SameResult out out' := by
  cases out <;> cases ideal <;> simp only [SameEnd] at h <;> cases out' <;> simp only [SameEnd] at h'
  · refine ⟨?_, h.2.symm.trans h'.2⟩
    rw [← Fault.kind_anywhere, ← h.1, h'.1, Fault.kind_anywhere]
  · exact h.trans h'.symm

/-! ## Two heaps -/

/-- A run that does not end for want of memory goes the same way in every larger heap: the same
answer or the same failure in the same instruction, the same output, as many steps, and as
many frames at most. -/
theorem launch_larger_heap {program : Program} {limit : Option Nat} {small large fuel : Nat}
    {log : Log} {report : Report} (hle : small ≤ large)
    (hrun : Machine.launch ⟨small, limit⟩ program fuel log = some report)
    (hmem : ¬ OutOfMemory report.result) (log' : Log) :
    ∃ report', Machine.launch ⟨large, limit⟩ program fuel log' = some report' ∧
      SameResult report.result report'.result ∧ report'.output = report.output ∧
      report'.steps = report.steps ∧ report'.peakDepth = report.peakDepth := by
  have hsmall := launch_matches ⟨small, limit⟩ program fuel log
  have hlarge := launch_matches ⟨large, limit⟩ program fuel log'
  rw [hrun] at hsmall
  obtain ⟨ideal, hideal, hmatch⟩ : ∃ ideal,
      Ideal.launch (some (small / 2)) limit program fuel = some ideal ∧ report.Matches ideal := by
    cases hi : Ideal.launch (some (small / 2)) limit program fuel with
    | none =>
      rw [hi] at hsmall
      cases hsmall
    | some ideal =>
      rw [hi] at hsmall
      cases hsmall with
      | some hm => exact ⟨ideal, rfl, hm⟩
  have hwider := Ideal.Wider.of_le (Nat.div_le_div_right hle : small / 2 ≤ large / 2)
  rcases Ideal.launch_mono hwider limit program fuel with ⟨report', hr, hout⟩ | heq
  · obtain rfl : ideal = report' := by simpa [hideal] using hr
    exact absurd (hmatch.result.outOfMemory_iff.mpr hout) hmem
  · rw [← heq, hideal] at hlarge
    cases hl : Machine.launch ⟨large, limit⟩ program fuel log' with
    | none =>
      rw [hl] at hlarge
      cases hlarge
    | some report' =>
      rw [hl] at hlarge
      cases hlarge with
      | some hm =>
        exact ⟨report', rfl, hmatch.result.sameResult hm.result, hm.output.trans hmatch.output.symm,
          hm.steps.trans hmatch.steps.symm, hm.peakDepth.trans hmatch.peakDepth.symm⟩

/-- A program that drops one value and answers with another. -/
def dropsOne : Program := ⟨#[.loadConstant .null, .pop, .loadConstant (.boolean true), .done], 1⟩

/-- How often a machine has collected memory when its first run ends, and how often it had when it last released
texts. -/
def Machine.collectionsAtEnd (config : Config) (program : Program) (fuel : Nat) : Option (Nat × Nat) :=
  (boot config program .silent).1.toOption.bind fun m =>
    (run config program fuel m .silent).map fun (_, m, _) => (m.heap.collections.size, m.sweptAt)

set_option maxRecDepth 100000 in
/-- The smaller heap has room for one box besides what is there from the start. So the second box takes a
collection, and a sweep follows it; the larger heap needs neither. -/
theorem launch_larger_heap_dropsOne :
    Machine.collectionsAtEnd ⟨266, none⟩ dropsOne 4 = some (1, 1) ∧
    Machine.collectionsAtEnd ⟨400, none⟩ dropsOne 4 = some (0, 0) ∧
    Machine.launch ⟨266, none⟩ dropsOne 4 .silent = some ⟨.ok (.literal (.boolean true)), #[], 4, 0⟩ ∧
    ∃ report, Machine.launch ⟨400, none⟩ dropsOne 4 .silent = some report ∧
      SameResult (.ok (.literal (.boolean true))) report.result ∧ report.output = #[] ∧
      report.steps = 4 ∧ report.peakDepth = 0 := by
  -- evaluated together, so that the run is evaluated once
  have hsmall : Machine.collectionsAtEnd ⟨266, none⟩ dropsOne 4 = some (1, 1) ∧
      Machine.launch ⟨266, none⟩ dropsOne 4 .silent =
        some ⟨.ok (.literal (.boolean true)), #[], 4, 0⟩ := by
    decide +kernel
  have hlarge : Machine.collectionsAtEnd ⟨400, none⟩ dropsOne 4 = some (0, 0) := by
    decide +kernel
  exact ⟨hsmall.1, hlarge, hsmall.2, launch_larger_heap (by decide) hsmall.2 (fun h => h) .silent⟩

end ClosureMachine
