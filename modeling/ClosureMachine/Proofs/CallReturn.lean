import ClosureMachine.Proofs.ControlShape
import ClosureMachine.Proofs.Ideal.AnyCode

/-!
# Calls give back what they took

A call of a closure puts a frame on the control stack, and from then on the registers belong to the callee. It may call
others, hand over to others, or leave scopes open, and memory may be collected many times. When the frame is taken
off, the caller finds everything as it left it, at the next instruction, with one value in the place of the callee and
its arguments.

The code need not come from the compiler for this. That no two activations share an operand stack is all that it takes
(`Ideal.Undisturbed`), and any code keeps it up as long as no turn fails.
-/

set_option autoImplicit false

namespace ClosureMachine

open ClosureMachine.Ideal (State Loc Move Undisturbed Held Resumed)

/-! ## The ideal machine under any code -/

namespace Ideal

section

variable {config : Config} {program : Program} {n k j : Nat}

theorem undisturbed_reached (h : GoesOn config program n) : Undisturbed (reached config program n).core := by
  induction n with
  | zero => exact undisturbed_boot program
  | succ n ih =>
    have hc := ih (h.mono (Nat.le_succ n))
    have hmove := regular_turn (sorted_reached config program n) hc (some (config.heapSize / 2)) config.maxSteps program
    rw [h n (Nat.lt_succ_self n)] at hmove
    exact hc.move hmove

/-- Every turn that goes on is a move, compiled or not. -/
theorem move_anyCode (h : GoesOn config program n) (hk : k < n) :
    Move program (reached config program k).core (reached config program (k + 1)).core := by
  have hmove := regular_turn (sorted_reached config program k) (undisturbed_reached (h.mono (Nat.le_of_lt hk)))
    (some (config.heapSize / 2)) config.maxSteps program
  rw [h k hk] at hmove
  exact hmove

variable {frame env stack : Loc} {address free : Nat} {operands below : List Loc}

/-- As long as its frame waits, a caller is held. -/
theorem held_reached (h : GoesOn config program n) (hle : k ≤ n)
    (hheld : Held (reached config program k).core frame env stack address operands free below)
    (hwaits : frame ∈ (reached config program n).control) :
    Held (reached config program n).core frame env stack address operands free below := by
  induction n, hle using Nat.le_induction with
  | base => exact hheld
  | succ n hle ih =>
    have hmove := move_anyCode h (Nat.lt_succ_self n)
    have hlt := Nat.lt_of_lt_of_le (lt_of_getElem? hheld.links) (length_reached_le hle)
    have hgoes := h.mono (Nat.le_succ n)
    rcases (ih hgoes (hmove.mem_control hwaits hlt)).move (undisturbed_reached hgoes) hmove with hnext | ⟨hgone, -⟩
    · exact hnext
    · exact absurd hwaits hgone

/-- The turn that takes the frame off resumes the caller. -/
theorem resumed_reached (h : GoesOn config program (n + 1)) (hle : k ≤ n)
    (hheld : Held (reached config program k).core frame env stack address operands free below)
    (hwaits : frame ∈ (reached config program n).control)
    (hgone : frame ∉ (reached config program (n + 1)).control) :
    Resumed (reached config program (n + 1)).core env stack address operands free below ∧
      ∃ i, program.code[(reached config program n).pc]? = some i ∧
        i.returns (reached config program n).core.calleeKind? = true := by
  have hgoes := h.mono (Nat.le_succ n)
  rcases (held_reached hgoes hle hheld hwaits).move (undisturbed_reached hgoes) (move_anyCode h (Nat.lt_succ_self n))
    with hnext | ⟨-, hresumed⟩
  · exact absurd hnext.mem hgone
  · exact hresumed

end

/-- A call of a closure takes the arguments and the callee off, and holds the caller. -/
theorem Move.held {program : Program} {c c' : Core} (hmove : Move program c c') {n : Nat}
    (hi : program.code[c.pc]? = some (.call n)) (hclosure : c.calleeKind? n = some .closure) :
    ∃ frame args callee operands free, args.length = n ∧
      c.nodes[c.stack]? = some (.operandStack (args ++ callee :: operands) free) ∧
      c'.control = frame :: c.control ∧
      Held c' frame c.env c.stack (c.pc + 1) operands (free + n) c.control := by
  cases hmove.passage with
  | stays hi' _ _ hcalls =>
    cases hi.symm.trans hi'
    rw [Instruction.callsClosure, hclosure] at hcalls
    cases hcalls
  | enters hi' | exits hi' | hands hi' => cases hi.symm.trans hi'
  | returns hi' hreturns =>
    cases hi.symm.trans hi'
    cases hreturns
  | calls hi' hn hs _ _ hrest _ hframe _ _ hcontrol =>
    cases hi.symm.trans hi'
    exact ⟨_, _, _, _, _, hn, hs, hcontrol, ⟨[], hcontrol⟩, hframe, hrest⟩

end Ideal

/-! ## Operands and frames in memory -/

/-- These are the operands of a stack, the top one first. -/
def OperandStack.Holds (h : Heap) (stack : Ref) (operands : List Ref) : Prop :=
  OperandStack.depth stack h = .ok operands.length ∧
    ∀ i r, operands[i]? = some r → OperandStack.peek stack i h = .ok r

/-- A node of one moment, and the same node at another. -/
def World.SameNode (w w' : World) (r r' : Ref) : Prop := ∃ l, w.place l = some r ∧ w'.place l = some r'

/-- The frame of this name is on the control stack. -/
def Machine.Awaits (m : Machine) (w : World) (frame : Loc) : Prop :=
  ∃ r ∈ m.registers.control.frames, w.place frame = some r

section

variable {room : Nat} {w w' : World} {m : Machine} {s : State}

theorem World.sameNode_of_at {refs refs' : List Ref} {locs : List Loc} (h : List.Forall₂ w.At refs locs)
    (h' : List.Forall₂ w'.At refs' locs) : List.Forall₂ (w.SameNode w') refs refs' := by
  induction h generalizing refs' with
  | nil =>
    cases h'
    exact .nil
  | cons hat _ ih =>
    cases h' with
    | cons hat' hrest => exact .cons ⟨_, hat, hat'⟩ (ih hrest)

theorem Rel.awaits_iff (hrel : Rel room w m s) {frame : Loc} : m.Awaits w frame ↔ frame ∈ s.control := by
  constructor
  · intro ⟨r, hr, hplace⟩
    obtain ⟨l, hl, hat⟩ := Represents.Rooted.of_mem hrel.control hr
    rw [hrel.place_inj hplace hat]
    exact hl
  · intro hmem
    obtain ⟨i, hi, rfl⟩ := List.mem_iff_getElem.mp hmem
    have hi' : i < m.registers.control.frames.length := hrel.control.length_eq ▸ hi
    exact ⟨_, List.getElem_mem hi', hrel.control.get hi' hi⟩

theorem World.exists_at {locs : List Loc} (h : ∀ l ∈ locs, ∃ r, w.At r l) : ∃ refs, List.Forall₂ w.At refs locs := by
  induction locs with
  | nil => exact ⟨[], .nil⟩
  | cons l locs ih =>
    obtain ⟨r, hat⟩ := h l List.mem_cons_self
    obtain ⟨refs, hrefs⟩ := ih fun l' hl' => h l' (List.mem_cons_of_mem l hl')
    exact ⟨r :: refs, .cons hat hrefs⟩

/-- The operands of a stack are where those of the ideal machine are. -/
theorem Rel.holds (hrel : Rel room w m s) {stack : Ref} {l : Loc} (hat : w.At stack l) {operands : List Loc}
    {free : Nat} (hn : s.nodes[l]? = some (.operandStack operands free)) :
    ∃ refs, List.Forall₂ w.At refs operands ∧ OperandStack.Holds m.heap stack refs := by
  have hplaced := hrel.rep.placed_of hat hn
  have hpeek : ∀ i (hi : i < operands.length),
      ∃ r, OperandStack.peek stack i m.heap = .ok r ∧ w.At r operands[i] := by
    intro i hi
    have hsame := hplaced.answers_peek i
    rw [Ideal.Node.peek, List.getElem?_eq_getElem hi] at hsame
    exact hsame.exists_of_ok
  have hall : ∀ l' ∈ operands, ∃ r, w.At r l' := by
    intro l' hl'
    obtain ⟨i, hi, rfl⟩ := List.mem_iff_getElem.mp hl'
    obtain ⟨r, -, hr⟩ := hpeek i hi
    exact ⟨r, hr⟩
  obtain ⟨refs, hrefs⟩ := World.exists_at hall
  refine ⟨refs, hrefs, ?_, fun i r hi => ?_⟩
  · obtain ⟨depth, hdepth, rfl⟩ := hplaced.answers_depth.exists_of_ok
    rw [hdepth, hrefs.length_eq]
  · obtain ⟨hlt, rfl⟩ := List.getElem?_eq_some_iff.mp hi
    have hlt' : i < operands.length := hrefs.length_eq ▸ hlt
    obtain ⟨r, hr, hplace⟩ := hpeek i hlt'
    rw [hr, Option.some.inj (hplace.symm.trans (hrefs.get hlt hlt'))]
    rfl

end

/-! ## From the call to the return -/

/-- The state of a caller, and what it finds after a call with `n` arguments: it goes on behind the call, in its
environment, above the frames that it stood on and with its operand stack, where one value is in the place of the
arguments and the callee. -/
structure GivenBack (w w' : World) (m m' : Machine) (n : Nat) : Prop where
  pc : m'.registers.pc = m.registers.pc + 1
  env : w.SameNode w' m.registers.env m'.registers.env
  control : List.Forall₂ (w.SameNode w') m.registers.control.frames m'.registers.control.frames
  stack : w.SameNode w' m.registers.stack m'.registers.stack
  operands : ∃ args callee rest value rest', args.length = n ∧
    OperandStack.Holds m.heap m.registers.stack (args ++ callee :: rest) ∧
    OperandStack.Holds m'.heap m'.registers.stack (value :: rest') ∧ List.Forall₂ (w.SameNode w') rest rest'

/-- The frame on top is new and one of a call. -/
def PushesFrame (w w' : World) (m m' : Machine) (frame : Loc) : Prop :=
  ∃ r rest, m'.registers.control.frames = r :: rest ∧ w'.place frame = some r ∧
    Heap.kind r m'.heap = .ok .callFrame ∧ List.Forall₂ (w.SameNode w') m.registers.control.frames rest

section

variable {room : Nat} {w w' : World} {m m' : Machine} {s s' : State} {args operands : List Loc} {callee : Loc}
  {free free' : Nat}

theorem Rel.givenBack (hrel : Rel room w m s) (hrel' : Rel room w' m' s')
    (hs : s.nodes[s.stack]? = some (.operandStack (args ++ callee :: operands) free))
    (h : Resumed s'.core s.env s.stack (s.pc + 1) operands free' s.control) : GivenBack w w' m m' args.length := by
  have hcontrol := hrel'.control
  have hstack := hrel'.stack
  rw [show s'.control = s.control from h.control_eq] at hcontrol
  rw [show s'.stack = s.stack from h.stack_eq] at hstack
  obtain ⟨v, hv⟩ := h.contents
  obtain ⟨refs, hrefs, hholds⟩ := hrel.holds hrel.stack hs
  obtain ⟨refs', hrefs', hholds'⟩ := hrel'.holds hstack hv
  have hargs := List.forall₂_take_append _ _ _ hrefs
  obtain ⟨r, rest, -, hrest, hbelow⟩ := List.forall₂_cons_right_iff.mp (List.forall₂_drop_append _ _ _ hrefs)
  obtain ⟨value, rest', -, hrest', rfl⟩ := List.forall₂_cons_right_iff.mp hrefs'
  rw [← List.take_append_drop args.length refs, hbelow] at hholds
  refine ⟨?_, ⟨s.env, hrel.env, ?_⟩, World.sameNode_of_at hrel.control hcontrol, ⟨s.stack, hrel.stack, hstack⟩,
    _, r, rest, value, rest', hargs.length_eq, hholds, hholds', World.sameNode_of_at hrest hrest'⟩
  · rw [hrel'.pc, hrel.pc]
    exact h.pc_eq
  · rw [← show s'.env = s.env from h.env_eq]
    exact hrel'.env

theorem Rel.pushesFrame (hrel : Rel room w m s) (hrel' : Rel room w' m' s') {frame : Loc} {env stack : Option Loc}
    {address : Nat} (hcontrol : s'.control = frame :: s.control)
    (hframe : s'.nodes[frame]? = some (.callFrame env stack address)) : PushesFrame w w' m m' frame := by
  have hframes := hrel'.control
  rw [hcontrol] at hframes
  obtain ⟨r, rest, hat, hrest, heq⟩ := List.forall₂_cons_right_iff.mp hframes
  exact ⟨r, rest, heq, hat, (hrel'.rep.placed_of hat hframe).kind_eq, World.sameNode_of_at hrel.control hrest⟩

end

/-- Returning never finds a stack full. -/
theorem Names.return_fits {config : Config} {program : Program} {m : Machine} {w : Nat → World}
    (hn : Names config program m w) {n : Nat} (hgoes : m.GoesOn config program n)
    (hreturns : (m.after config program n).returns program = true) {failure : Failure}
    (hfails : ((m.after config program n).turn config program).1 = .error failure) :
    failure.fault.kind ≠ .operandStackOverflow := by
  intro hfull
  have hsame := ((hn.rel n).turn config program).1
  have hregular := Ideal.regular_turn (Ideal.sorted_reached config program n)
    (Ideal.undisturbed_reached (hn.goesOn hgoes)) (some (config.heapSize / 2)) config.maxSteps program
  rw [hfails] at hsame
  rcases hturn : Ideal.turn (some (config.heapSize / 2)) config.maxSteps program (Ideal.reached config program n)
    with ⟨failure' | outcome, s'⟩ <;> rw [hturn] at hsame hregular
  · have hkind : failure'.fault.kind = failure.fault.kind := by rw [hsame.1, Fault.kind_anywhere]
    obtain ⟨i, hi, hloads⟩ := hregular (hkind.trans hfull)
    rw [(hn.rel n).returns_eq hi] at hreturns
    cases i with
    | ret | tailCall => cases hloads
    | _ => cases hreturns
  · exact hsame.elim

/-! ## The theorem -/

/-- **A call gives the caller back its own state.** Whatever the code and the size of memory, as long as no turn fails:
a call of a closure puts a new frame on the control stack. The turn that takes that frame off again, however much later,
returns, and leaves the machine as the caller left it, with one value in the place of the callee and its arguments. There
is always a place for that value. A run that ends has gone through such turns and one more. -/
theorem call_gives_back {program : Program} {config : Config} {m : Machine} {log log' : Log}
    (hboot : Machine.boot config program log = (.ok m, log')) :
    ∃ w, Names config program m w ∧
      (∀ k n, m.GoesOn config program (k + 1) →
        program.code[(m.after config program k).registers.pc]? = some (.call n) →
        (m.after config program k).calleeKind? n = some .closure →
        ∃ frame, PushesFrame (w k) (w (k + 1)) (m.after config program k) (m.after config program (k + 1)) frame ∧
          ¬ (m.after config program k).Awaits (w k) frame ∧
          ∀ j, k < j → m.GoesOn config program (j + 1) → (m.after config program j).Awaits (w j) frame →
            ¬ (m.after config program (j + 1)).Awaits (w (j + 1)) frame →
            (m.after config program j).returns program = true ∧
              GivenBack (w k) (w (j + 1)) (m.after config program k) (m.after config program (j + 1)) n) ∧
      (∀ j failure, m.GoesOn config program j → (m.after config program j).returns program = true →
        ((m.after config program j).turn config program).1 = .error failure →
        failure.fault.kind ≠ .operandStackOverflow) ∧
      ∀ fuel log₁ result m' log₂, Machine.run config program fuel m log₁ = some (result, m', log₂) →
        ∃ k, m.GoesOn config program k ∧ m' = m.after config program (k + 1) := by
  obtain ⟨w, hn⟩ := exists_names hboot
  refine ⟨w, hn, fun k n hgoes hi hclosure => ?_, fun j failure hgoes hreturns hfails =>
    hn.return_fits hgoes hreturns hfails, fun fuel log₁ result m' log₂ hrun => Machine.goesOn_of_run hrun⟩
  rw [(hn.rel k).pc] at hi
  rw [(hn.rel k).calleeKind?_eq] at hclosure
  have hmove := Ideal.move_anyCode (hn.goesOn hgoes) (Nat.lt_succ_self k)
  obtain ⟨frame, args, callee, operands, free, rfl, hs, hcontrol, hheld⟩ := hmove.held hi hclosure
  have honce := (Ideal.undisturbed_reached (hn.goesOn hgoes)).once
  rw [hcontrol] at honce
  refine ⟨frame, (hn.rel k).pushesFrame (hn.rel (k + 1)) hcontrol hheld.links, ?_, fun j hj hgoes' hwaits hgone => ?_⟩
  · rw [(hn.rel k).awaits_iff]
    exact (List.nodup_cons.mp honce).1
  · rw [(hn.rel j).awaits_iff] at hwaits
    rw [(hn.rel (j + 1)).awaits_iff] at hgone
    obtain ⟨hresumed, i, hi', hreturns⟩ := Ideal.resumed_reached (hn.goesOn hgoes') hj hheld hwaits hgone
    rw [(hn.rel j).returns_eq hi']
    exact ⟨hreturns, (hn.rel k).givenBack (hn.rel (j + 1)) hs hresumed⟩

/-- Code that no tree compiles to: the main program has an operand under the call that it never uses, and the function
returns its argument from inside a scope. -/
def strayCall : Program where
  code := #[.loadConstant .null, .loadFunction 1 5 1, .loadConstant (.boolean true), .call 1, .done,
    .enterScope 1, .load ⟨1, 0⟩, .ret]
  mainStack := 3

set_option maxRecDepth 100000 in
/-- The fourth turn calls and the seventh returns, with a scope left open. -/
theorem call_gives_back_strayCall : ∃ m log w, Machine.boot tight strayCall .silent = (.ok m, log) ∧
    Names tight strayCall m w ∧ m.GoesOn tight strayCall 7 ∧ (m.after tight strayCall 6).returns strayCall = true ∧
    (m.after tight strayCall 6).registers.control.frames.length = 2 ∧
    GivenBack (w 3) (w 7) (m.after tight strayCall 3) (m.after tight strayCall 7) 1 ∧
    ∀ failure, ((m.after tight strayCall 6).turn tight strayCall).1 = .error failure →
      failure.fault.kind ≠ .operandStackOverflow := by
  have hcheck : ((Machine.boot tight strayCall .silent).1.toOption.any fun m =>
      (List.range 7).all (fun k => decide (((m.after tight strayCall k).turn tight strayCall).1 = .ok none)) &&
      (decide (strayCall.code[(m.after tight strayCall 3).registers.pc]? = some (.call 1)) &&
      (decide ((m.after tight strayCall 3).calleeKind? 1 = some .closure) &&
      ([4, 5].all (fun k => decide ((m.after tight strayCall k).returns strayCall = false)) &&
      (decide ((m.after tight strayCall 6).registers.control.frames.length = 2) &&
      decide ((m.after tight strayCall 7).registers.control.frames = [])))))) = true := by
    decide +kernel
  obtain ⟨m, hboot, hcheck⟩ := Actions.of_any_ok hcheck
  simp only [Bool.and_eq_true, decide_eq_true_iff, List.all_eq_true, List.mem_range] at hcheck
  obtain ⟨hgoes, hi, hclosure, hstays, htwo, hnone⟩ := hcheck
  have hgoes : m.GoesOn tight strayCall 7 := hgoes
  have hboots : Machine.boot tight strayCall .silent = (.ok m, (Machine.boot tight strayCall .silent).2) := by
    rw [← hboot]
  obtain ⟨w, hn, hcalls, hfits, -⟩ := call_gives_back hboots
  obtain ⟨frame, ⟨r, rest, hframes, hplace, -⟩, -, hback⟩ := hcalls 3 1 (hgoes.mono (by decide)) hi hclosure
  have hwaits : (m.after tight strayCall 4).Awaits (w 4) frame := ⟨r, hframes ▸ List.mem_cons_self, hplace⟩
  -- the frame stays, because these turns do not return
  have hkeeps : ∀ k ∈ [4, 5], (m.after tight strayCall k).Awaits (w k) frame →
      (m.after tight strayCall (k + 1)).Awaits (w (k + 1)) frame := by
    intro k hk hwaits
    by_contra hgone
    have hbounds : 3 < k ∧ k + 1 ≤ 7 := by rcases List.mem_pair.mp hk with rfl | rfl <;> decide
    have hreturns := (hback k hbounds.1 (hgoes.mono hbounds.2) hwaits hgone).1
    rw [hstays k hk] at hreturns
    cases hreturns
  have hwaits := hkeeps 5 (by simp) (hkeeps 4 (by simp) hwaits)
  have hgone : ¬ (m.after tight strayCall 7).Awaits (w 7) frame := by
    intro ⟨r, hr, _⟩
    rw [hnone] at hr
    cases hr
  obtain ⟨hreturns, hgiven⟩ := hback 6 (by decide) hgoes hwaits hgone
  exact ⟨m, _, w, hboots, hn, hgoes, hreturns, htwo, hgiven,
    fun failure => hfits 6 failure (hgoes.mono (by decide)) hreturns⟩

end ClosureMachine
