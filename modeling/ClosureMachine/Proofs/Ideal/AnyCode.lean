import ClosureMachine.Proofs.Ideal.Progress
import ClosureMachine.Proofs.Ideal.Undisturbed

/-!
# Turns of any code

A compiled program finds everything that its instructions need. Other code need not: it may push onto a full stack, jump
out of a function or return from the main program. But also then a turn either is a move, or it ends the run.
One lemma for each instruction says which (`Prospect`), from what is known of every state: references are to
nodes of the right kind (`State.Sorted`) and callers are left alone (`Undisturbed`).

A full stack is met only where something is put on a stack from which nothing was taken before: by the three
instructions that load.
-/

set_option autoImplicit false

namespace ClosureMachine

/-- The instructions that put an operand on the stack and take none off. -/
def Instruction.loads : Instruction → Bool
  | .loadConstant _ | .load _ | .loadFunction .. => true
  | _ => false

namespace Ideal

/-- What comes of a turn, given all the memory and all the time it wants. -/
inductive Prospect (program : Program) (s : State) : Prop
  | moves {c' : Core} (h : Move program s.core c')
  | answers {answer : Answer} (h : Finish program s.core answer)
  | fails {failure : Failure} {s' : State} (h : turn none none program s = (.error failure, s'))
      (hfull : failure.fault.kind = .operandStackOverflow →
        ∃ i, program.code[s.pc]? = some i ∧ i.loads = true)

variable {program : Program} {s : State} {i : Instruction}

/-- The action fails, with a fault of this sort. -/
def Errs {α : Type} (x : Act α) (s : State) (P : Fault → Prop) : Prop := ∃ fault s', x s = .error fault s' ∧ P fault

namespace Errs

variable {α β : Type} {x : Act α} {f : α → Act β} {P : Fault → Prop}

theorem here {fault : Fault} {s' : State} (hx : x s = .error fault s') (hP : P fault) : Errs x s P :=
  ⟨fault, s', hx, hP⟩

theorem first (h : Errs x s P) : Errs (x >>= f) s P := by
  obtain ⟨fault, s', hx, hP⟩ := h
  exact ⟨fault, s', Actions.bind_error hx, hP⟩

theorem of_eq {y : Act α} {s' : State} (hxy : x s = y s') (h : Errs y s' P) : Errs x s P := by
  obtain ⟨fault, s'', hy, hP⟩ := h
  exact ⟨fault, s'', hxy.trans hy, hP⟩

theorem mono {Q : Fault → Prop} (h : Errs x s P) (hPQ : ∀ fault, P fault → Q fault) : Errs x s Q := by
  obtain ⟨fault, s', hx, hP⟩ := h
  exact ⟨fault, s', hx, hPQ fault hP⟩

theorem after {a : α} {s' : State} (hx : x s = .ok a s') (h : Errs (f a) s' P) : Errs (x >>= f) s P := by
  obtain ⟨fault, s'', hfa, hP⟩ := h
  exact ⟨fault, s'', (Actions.bind_ok hx).trans hfa, hP⟩

end Errs

namespace Prospect

/-- An instruction that fails. -/
theorem of_errs (hi : program.code[s.pc]? = some i)
    (h : Errs (execute none i) { s with steps := s.steps + 1 } fun fault =>
      fault.kind = .operandStackOverflow → i.loads = true) : Prospect program s := by
  obtain ⟨fault, s', hx, hfull⟩ := h
  refine .fails (by rw [turn_eq none hi, hx]) fun hkind => ⟨i, hi, hfull ?_⟩
  rwa [Failure.fault_locatedAt] at hkind

theorem of_refusal {fault : Fault} (h : Refusal program s.core fault) : Prospect program s := by
  obtain ⟨failure, s', hturn, hfault, -⟩ := h.fails s rfl none
  refine .fails hturn fun hkind => ?_
  rw [hfault] at hkind
  cases h.blameless <;> cases hkind

end Prospect

/-! ## Operands -/

section

variable {operands : List Loc} {n : Nat}

theorem push_full (v : Loc) (hs : s.nodes[s.stack]? = some (.operandStack operands 0)) :
    push v s = .error (.heap (.operandStackOverflow operands.length)) s := by
  simp only [push, Actions.bind_apply, Actions.get_apply, lift_apply, change, alter, hs]
  rfl

theorem pop_empty (hs : s.nodes[s.stack]? = some (.operandStack [] n)) :
    pop s = .error (.heap .operandStackUnderflow) s := by
  simp only [pop, Actions.bind_apply, Actions.get_apply, lift_apply, alter, hs]
  rfl

theorem look_error {β : Type} {l : Loc} {node : Node} {ask : Node → Except HeapError β} {e : HeapError}
    (hn : s.nodes[l]? = some node) (he : ask node = .error e) :
    (liftM (look l ask) : Act β) s = .error (.heap e) s := by
  simp only [lift_apply, look, hn, he]

theorem change_error {l : Loc} {node : Node} {f : Node → Except HeapError Node} {e : HeapError}
    (hn : s.nodes[l]? = some node) (he : f node = .error e) :
    (liftM (change l f) : Act Unit) s = .error (.heap e) s := by
  simp only [lift_apply, change, alter, hn, he]
  rfl

/-- There are not so many operands. -/
theorem peek_error {free : Nat} (hs : s.nodes[s.stack]? = some (.operandStack operands free))
    (hle : operands.length ≤ n) :
    (liftM (look s.stack (Node.peek n)) : Act Loc) s = .error (.heap .operandStackUnderflow) s :=
  look_error hs (by rw [Node.peek, List.getElem?_eq_none hle])

end

/-! ## Frames -/

theorem popFrame_empty (hc : s.control = []) : popFrame s = .error .controlStackEmpty s := by
  simp only [popFrame, Actions.bind_apply, Actions.get_apply, hc]
  rfl

/-- Where there are blocks only, there is nothing to return to. -/
theorem errs_unwindBlocks {frames : List Loc} (hb : ∀ l ∈ frames, IsBlock s.nodes l) :
    Errs (unwindBlocks frames) s (· = .noCallFrame) := by
  induction frames generalizing s with
  | nil => exact .here rfl rfl
  | cons frame frames ih =>
    obtain ⟨⟨env, hn⟩, hrest⟩ := List.forall_mem_cons.mp hb
    have hask : (.ok (Node.blockFrame env).kind : Except HeapError Kind) = .ok .blockFrame := rfl
    exact .after (look_eq hn hask) (.after rfl (ih hrest))

theorem errs_returnFromCall {v : Loc} {operands : List Loc} {free : Nat}
    (hs : s.nodes[s.stack]? = some (.operandStack (v :: operands) free)) (hb : ∀ l ∈ s.control, IsBlock s.nodes l) :
    Errs returnFromCall s (· = .noCallFrame) := by
  refine .after (pop_eq hs) (.first (.after rfl (errs_unwindBlocks fun l hl => ?_)))
  obtain ⟨env, hn⟩ := hb l hl
  exact ⟨env, (State.put_ne (ne_of_kind hs hn nofun)).trans hn⟩

section

variable (hs : s.Sorted)
include hs

theorem prospect_loadConstant {value : Literal} (hi : program.code[s.pc]? = some (.loadConstant value)) :
    Prospect program s := by
  obtain ⟨operands, free, hstack⟩ := hs.stack.stack_eq
  cases free with
  | zero =>
    apply Prospect.of_errs hi
    exact .first (.after (fresh_eq _ _) (.first (.here (push_full _ (State.add_old hstack)) fun _ => rfl)))
  | succ free => exact .moves (.loadConstant hi hstack)

theorem prospect_loadFunction {arity entry capacity : Nat}
    (hi : program.code[s.pc]? = some (.loadFunction arity entry capacity)) : Prospect program s := by
  obtain ⟨operands, free, hstack⟩ := hs.stack.stack_eq
  obtain ⟨slots, outer, henv⟩ := hs.env.environment_eq
  cases free with
  | zero =>
    have hne : s.nodes.length ≠ s.stack := Nat.ne_of_gt (lt_of_getElem? hstack)
    apply Prospect.of_errs hi
    exact .first (.after (fresh_eq _ _) (.after rfl (.after (setClosureEnv_eq State.add_new (State.add_old henv))
      (.first (.here (push_full _ ((State.put_ne hne).trans (State.add_old hstack))) fun _ => rfl)))))
  | succ free => exact .moves (.loadFunction hi henv hstack)

theorem prospect_pop (hi : program.code[s.pc]? = some .pop) : Prospect program s := by
  obtain ⟨operands, free, hstack⟩ := hs.stack.stack_eq
  cases operands with
  | nil => exact .of_errs hi (.first (.here (pop_empty hstack) nofun))
  | cons v operands => exact .moves (.pop hi hstack)

theorem prospect_jumpIfFalse {target : Nat} (hi : program.code[s.pc]? = some (.jumpIfFalse target)) :
    Prospect program s := by
  obtain ⟨operands, free, hstack⟩ := hs.stack.stack_eq
  cases operands with
  | nil => exact .of_errs hi (.first (.first (.here (pop_empty hstack) nofun)))
  | cons v operands =>
    obtain ⟨n, hn, hv⟩ := hs.nodes hstack v List.mem_cons_self
    by_cases hboolean : ∃ b, n = .boxed (.boolean b)
    · obtain ⟨b, rfl⟩ := hboolean
      exact .moves (.jumpIfFalse hi hstack hn)
    · obtain ⟨a, n', hn', ha⟩ := hasArgument_of_value ⟨n, hn, hv⟩
      obtain rfl : n = n' := Option.some.inj (hn.symm.trans hn')
      refine .of_refusal (.notBoolean hi hstack ⟨n, hn, ha⟩ fun b hb => hboolean ⟨b, ?_⟩)
      subst hb
      cases n <;> cases ha
      rfl

/-! ## Names -/

/-- A walk outward ends at an environment, or finds too few. -/
theorem outward_cases (frames : Nat) {env : Loc} (he : InRole s.nodes .environment env) :
    outward env frames s.nodes = .ok none s.nodes ∨
      ∃ found slots outer, outward env frames s.nodes = .ok (some found) s.nodes ∧
        s.nodes[found]? = some (.environment slots outer) := by
  induction frames generalizing env with
  | zero =>
    obtain ⟨slots, outer, hn⟩ := he.environment_eq
    exact .inr ⟨env, slots, outer, rfl, hn⟩
  | succ frames ih =>
    obtain ⟨slots, outer, hn⟩ := he.environment_eq
    cases outer with
    | none => exact .inl (outward_outermost hn frames)
    | some outer =>
      rw [outward_enclosed hn]
      exact ih ((hs.nodes hn).2 outer rfl)

omit hs in
theorem environmentAt_none {frames : Nat} (hwalk : outward s.env frames s.nodes = .ok none s.nodes) :
    environmentAt frames s = .error (.chainTooShort frames) s := by
  simp only [environmentAt, Actions.bind_apply, Actions.get_apply, lift_apply, hwalk]
  rfl

omit hs in
theorem environmentAt_some {frames : Nat} {env : Loc}
    (hwalk : outward s.env frames s.nodes = .ok (some env) s.nodes) : environmentAt frames s = .ok env s := by
  simp only [environmentAt, Actions.bind_apply, Actions.get_apply, lift_apply, hwalk]
  rfl

theorem prospect_load {a : Address} (hi : program.code[s.pc]? = some (.load a)) : Prospect program s := by
  obtain ⟨operands, free, hstack⟩ := hs.stack.stack_eq
  rcases outward_cases hs a.frame hs.env with hwalk | ⟨env, slots, outer, hwalk, henv⟩
  · exact .of_errs hi (.first (.first (.here (environmentAt_none hwalk) fun h => by cases h)))
  · cases hslot : slots[a.slot]? with
    | none =>
      have hask : Node.slot? a.slot (.environment slots outer) = .error (Node.noSlot a.slot) := by
        rw [Node.slot?, hslot]
      exact .of_errs hi (.first (.after (environmentAt_some hwalk)
        (.first (.here (look_error henv hask) fun h => by cases (Node.kind_noSlot a.slot).symm.trans h))))
    | some found =>
      cases found with
      | none => exact .of_refusal (.unassignedName hi hwalk henv hslot)
      | some v =>
        cases free with
        | zero =>
          have hask : Node.slot? a.slot (.environment slots outer) = .ok (some v) := by rw [Node.slot?, hslot]
          exact .of_errs hi (.first (.after (environmentAt_some hwalk) (.after (look_eq henv hask)
            (.first (.here (push_full v hstack) fun _ => rfl)))))
        | succ free => exact .moves (.load hi hwalk henv hslot hstack)

theorem prospect_assign {a : Address} (hi : program.code[s.pc]? = some (.assign a)) : Prospect program s := by
  obtain ⟨operands, free, hstack⟩ := hs.stack.stack_eq
  cases operands with
  | nil =>
    exact .of_errs hi (.first (.after rfl (.first (.here (peek_error hstack (Nat.zero_le _)) fun h => by cases h))))
  | cons v operands =>
    rcases outward_cases hs a.frame hs.env with hwalk | ⟨env, slots, outer, hwalk, henv⟩
    · exact .of_errs hi (.first (.after rfl (.after (look_eq hstack rfl)
        (.first (.here (environmentAt_none hwalk) fun h => by cases h)))))
    · by_cases hlt : a.slot < slots.length
      · exact .moves (.assign hi hwalk henv hlt hstack)
      · have hset : Node.setSlot a.slot v (.environment slots outer) = .error (Node.noSlot a.slot) := by
          rw [Node.setSlot, if_neg hlt]
        exact .of_errs hi (.first (.after rfl (.after (look_eq hstack rfl) (.after (environmentAt_some hwalk)
          (.first (.here (change_error henv hset) fun h => by cases (Node.kind_noSlot a.slot).symm.trans h))))))

/-! ## Scopes -/

theorem prospect_enterScope {slots : Nat} (hi : program.code[s.pc]? = some (.enterScope slots)) :
    Prospect program s := by
  obtain ⟨names, outer, henv⟩ := hs.env.environment_eq
  exact .moves (.enterScope hi henv)

theorem prospect_exitScope (hi : program.code[s.pc]? = some .exitScope) : Prospect program s := by
  cases hc : s.control with
  | nil => exact .of_errs hi (.first (.first (.here (popFrame_empty hc) nofun)))
  | cons frame rest =>
    rcases (hs.control frame (hc ▸ List.mem_cons_self)).frame_cases with hcall | ⟨env, hframe⟩
    · obtain ⟨env, stack, address, hframe⟩ := hcall.call_eq
      have hask : Node.expect .blockFrame (.callFrame (some env) (some stack) address) =
        .error (.kindMismatch 0 .blockFrame .callFrame) := rfl
      exact .of_errs hi (.first (.after (popFrame_eq hc) (.first (.here (look_error hframe hask) nofun))))
    · exact .moves (.exitScope hi hc hframe)

/-! ## Returns -/

/-- Below the frames of blocks there is one of a call, or nothing. -/
theorem control_cases : (∀ l ∈ s.control, IsBlock s.nodes l) ∨
    ∃ blocks frame rest env stack address, s.control = blocks ++ frame :: rest ∧ (∀ l ∈ blocks, IsBlock s.nodes l) ∧
      s.nodes[frame]? = some (.callFrame (some env) (some stack) address) := by
  have hframes := hs.control
  generalize s.control = control at hframes
  induction control with
  | nil => exact .inl fun l hl => absurd hl List.not_mem_nil
  | cons frame control ih =>
    obtain ⟨hframe, hrest⟩ := List.forall_mem_cons.mp hframes
    rcases hframe.frame_cases with hcall | ⟨env, hblock⟩
    · obtain ⟨env, stack, address, hn⟩ := hcall.call_eq
      exact .inr ⟨[], frame, control, env, stack, address, rfl, fun l hl => absurd hl List.not_mem_nil, hn⟩
    · rcases ih hrest with hall | ⟨blocks, frame', rest, env', stack, address, rfl, hb, hn⟩
      · exact .inl (List.forall_mem_cons.mpr ⟨⟨_, hblock⟩, hall⟩)
      · exact .inr ⟨frame :: blocks, frame', rest, env', stack, address, rfl,
          List.forall_mem_cons.mpr ⟨⟨_, hblock⟩, hb⟩, hn⟩

omit hs in
/-- The caller's stack is another one and has a place for the result. -/
theorem Undisturbed.caller {c : Core} (hc : Undisturbed c) {frame env stack : Loc} {address : Nat}
    (hmem : frame ∈ c.control) (hframe : c.nodes[frame]? = some (.callFrame (some env) (some stack) address)) :
    c.stack ≠ stack ∧ HasPlace c.nodes stack := by
  have hsaved : stack ∈ savedStacks c.nodes c.control :=
    List.mem_filterMap.mpr ⟨frame, hmem, savedStack?_call hframe⟩
  exact ⟨fun heq => hc.unused hsaved (List.mem_singleton.mpr heq.symm), hc.places stack hsaved⟩

theorem prospect_ret (hc : Undisturbed s.core) (hi : program.code[s.pc]? = some .ret) : Prospect program s := by
  obtain ⟨operands, free, hstack⟩ := hs.stack.stack_eq
  cases operands with
  | nil => exact .of_errs hi (.first (.first (.here (pop_empty hstack) nofun)))
  | cons v operands =>
    rcases control_cases hs with hall | ⟨blocks, frame, rest, env, stack, address, hcontrol, hb, hframe⟩
    · refine .of_errs hi (.first (Errs.mono (errs_returnFromCall hstack hall) ?_))
      rintro _ rfl ⟨⟩
    · have hmem : frame ∈ s.control := by simp [hcontrol]
      obtain ⟨hne, operands', free', hstack'⟩ := hc.caller hmem hframe
      exact .moves (.ret hi hstack hcontrol hb hframe hstack' hne)

/-! ## Calls -/

omit hs in
theorem errs_unknown {locs operands : List Loc} {callee : Loc} {free id : Nat} {tail : Bool}
    (hstack : s.nodes[s.stack]? = some (.operandStack (locs ++ callee :: operands) free))
    (hn : s.nodes[callee]? = some (.primitive id)) (hid : Primitive.ofId? id = none) :
    Errs (call none locs.length tail) s (·.kind = .internal) := by
  refine .of_eq (call_primitive none hstack hn) (.after (look_eq hn rfl) ?_)
  rw [hid]
  exact .here rfl rfl

/-- How a call can fail, and what is called if it does not. -/
theorem call_cases (tail : Bool) {n : Nat} (hi : program.code[s.pc]? = some (callInstruction tail n)) :
    Prospect program s ∨ ∃ locs callee operands free, locs.length = n ∧
      s.nodes[s.stack]? = some (.operandStack (locs ++ callee :: operands) free) ∧
      ((∃ p args value id, s.nodes[callee]? = some (.primitive id) ∧ Primitive.ofId? id = some p ∧
        p.arity = locs.length ∧ List.Forall₂ (HasArgument s.nodes) locs args ∧ p.meaning args.reverse = .ok value) ∨
      ∃ env entry capacity slots outer, s.nodes[callee]? = some (.closure (some env) locs.length entry capacity) ∧
        s.nodes[env]? = some (.environment slots outer)) := by
  obtain ⟨operands, free, hstack⟩ := hs.stack.stack_eq
  by_cases hlt : n < operands.length
  · obtain ⟨locs, callee, rest, rfl, rfl, -⟩ :=
      split_operands (show operands.length = operands.length - 1 - n + 1 + n by omega)
    have hvalues := hs.nodes hstack
    obtain ⟨node, hn, hp⟩ := hvalues callee (by simp)
    cases node with
    | boxed value => exact .inl (.of_refusal (.notAFunction hi hstack hn))
    | primitive id =>
      cases hid : Primitive.ofId? id with
      | none =>
        refine .inl (.of_errs hi ?_)
        rw [execute_callInstruction]
        refine .first (Errs.mono (errs_unknown hstack hn hid) fun fault hinternal hkind => ?_)
        cases hinternal.symm.trans hkind
      | some p =>
        by_cases harity : p.arity = locs.length
        · obtain ⟨args, hargs⟩ := hasArguments_of_values fun l hl => hvalues l (List.mem_append_left _ hl)
          cases hm : p.meaning args.reverse with
          | ok value => exact .inr ⟨locs, callee, rest, free, rfl, hstack, .inl ⟨p, args, value, id, hn, hid, harity, hargs, hm⟩⟩
          | error fault => exact .inl (.of_refusal (.primitive hi hstack hn hid harity hargs hm))
        · exact .inl (.of_refusal (.primitiveArity hi hstack hn hid harity))
    | closure env arity entry capacity =>
      cases env with
      | none => cases hp
      | some env =>
        by_cases harity : arity = locs.length
        · subst harity
          obtain ⟨slots, outer, henv⟩ := (hs.nodes hn env rfl).environment_eq
          exact .inr ⟨locs, callee, rest, free, rfl, hstack, .inr ⟨env, entry, capacity, slots, outer, hn, henv⟩⟩
        · exact .inl (.of_refusal (.closureArity hi hstack hn harity))
    | _ => cases hp
  · refine .inl (.of_errs hi ?_)
    rw [execute_callInstruction]
    exact .first (.after rfl (.first (.here (peek_error hstack (Nat.le_of_not_lt hlt)) nofun)))

theorem prospect_call {n : Nat} (hi : program.code[s.pc]? = some (.call n)) : Prospect program s := by
  obtain ⟨slots', outer', hcurrent⟩ := hs.env.environment_eq
  rcases call_cases hs false hi with h | ⟨locs, callee, operands, free, rfl, hstack,
    ⟨p, args, value, id, hn, hid, harity, hargs, hm⟩ | ⟨env, entry, capacity, slots, outer, hn, henv⟩⟩
  · exact h
  · exact .moves (.callPrimitive hi hstack hn hid harity hargs hm)
  · exact .moves (.callClosure hi hstack hn henv hcurrent)

omit hs in
/-- The result of a primitive cannot be returned where no function was called. -/
theorem errs_returnPrimitive {locs operands : List Loc} {callee : Loc} {free id : Nat} {args : List Argument}
    {p : Primitive} {value : Literal}
    (hstack : s.nodes[s.stack]? = some (.operandStack (locs ++ callee :: operands) free))
    (hn : s.nodes[callee]? = some (.primitive id)) (hid : Primitive.ofId? id = some p)
    (harity : p.arity = locs.length) (hargs : List.Forall₂ (HasArgument s.nodes) locs args)
    (hm : p.meaning args.reverse = .ok value) (hb : ∀ l ∈ s.control, IsBlock s.nodes l) :
    Errs (call none locs.length true) s (· = .noCallFrame) := by
  have hcall : call none locs.length true s = _ :=
    (call_primitive none hstack hn).trans (callPrimitive_ok hstack hn hid harity hargs hm)
  rw [if_pos rfl] at hcall
  refine .of_eq hcall (errs_returnFromCall (List.getElem?_set_self ?_) fun l hl => ?_)
  · rw [List.length_append]
    exact Nat.lt_add_right _ (lt_of_getElem? hstack)
  · obtain ⟨env, hblock⟩ := hb l hl
    exact ⟨env, (List.getElem?_set_ne (ne_of_kind hstack hblock nofun)).trans (append_old hblock)⟩

omit hs in
/-- A closure cannot take over where no function was called. -/
theorem errs_handOver {locs operands : List Loc} {callee env : Loc} {free entry capacity : Nat}
    {slots : List (Option Loc)} {outer : Option Loc}
    (hstack : s.nodes[s.stack]? = some (.operandStack (locs ++ callee :: operands) free))
    (hn : s.nodes[callee]? = some (.closure (some env) locs.length entry capacity))
    (henv : s.nodes[env]? = some (.environment slots outer)) (hb : ∀ l ∈ s.control, IsBlock s.nodes l) :
    Errs (call none locs.length true) s (· = .noCallFrame) := by
  let s₁ := s.makeActivation locs.length capacity
  have hold : ∀ {l : Loc} {n : Node}, s.nodes[l]? = some n → s₁.nodes[l]? = some n :=
    fun hn => State.add_old (State.add_old hn)
  have hne : ∀ {l : Loc} {n : Node}, s.nodes[l]? = some n → l ≠ s.nodes.length :=
    fun hn => Nat.ne_of_lt (lt_of_getElem? hn)
  have henter := enterClosure_eq (s := s₁) none (s.nodes.length + 1) s.nodes.length (hne hstack) (Ne.symm (hne hn))
    (Ne.symm (hne henv)) (hold hstack) (State.add_old State.add_new) (hold hn) (hold henv)
  have hcall : call none locs.length true s = _ := (call_closure none hstack hn).trans (callClosure_eq hn)
  rw [if_pos rfl] at hcall
  refine .of_eq (hcall.trans henter) (.first (.after rfl (errs_unwindBlocks fun l hl => ?_)))
  obtain ⟨e, hblock⟩ := hb l hl
  refine ⟨e, (State.put_ne (Ne.symm (hne hblock))).trans ((State.put_ne ?_).trans (hold hblock))⟩
  exact ne_of_kind hstack hblock nofun

theorem prospect_tailCall (hc : Undisturbed s.core) {n : Nat} (hi : program.code[s.pc]? = some (.tailCall n)) :
    Prospect program s := by
  have hstranded : Errs (call none n true) { s with steps := s.steps + 1 } (· = .noCallFrame) → Prospect program s := by
    intro h
    refine .of_errs hi (.first (h.mono ?_))
    rintro _ rfl ⟨⟩
  obtain ⟨slots', outer', hcurrent⟩ := hs.env.environment_eq
  rcases call_cases hs true hi with h | ⟨locs, callee, operands, free, rfl, hstack,
    ⟨p, args, value, id, hn, hid, harity, hargs, hm⟩ | ⟨env, entry, capacity, slots, outer, hn, henv⟩⟩
  · exact h
  · rcases control_cases hs with hall | ⟨blocks, frame, rest, env, stack, address, hcontrol, hb, hframe⟩
    · apply hstranded
      exact errs_returnPrimitive hstack hn hid harity hargs hm hall
    · have hmem : frame ∈ s.control := by simp [hcontrol]
      obtain ⟨hne, operands', free', hstack'⟩ := hc.caller hmem hframe
      exact .moves (.tailCallPrimitive hi hstack hn hid harity hargs hm hcontrol hb hframe hstack' hne)
  · rcases control_cases hs with hall | ⟨blocks, frame, rest, env', stack, address, hcontrol, hb, hframe⟩
    · exact hstranded (errs_handOver hstack hn henv hall)
    · exact .moves (.tailCallClosure hi hstack hn henv hcurrent hcontrol hb hframe rfl)

theorem prospect_done (hi : program.code[s.pc]? = some .done) : Prospect program s := by
  obtain ⟨operands, free, hstack⟩ := hs.stack.stack_eq
  by_cases hone : operands.length = 1
  · obtain ⟨l, rfl⟩ := List.length_eq_one_iff.mp hone
    obtain ⟨a, ha⟩ := hasArgument_of_value (hs.nodes hstack l List.mem_cons_self)
    exact .answers (.done hi hstack ha)
  · apply Prospect.of_errs hi
    refine .first (.after rfl (.after (look_eq hstack rfl) ?_))
    rw [if_pos hone]
    exact .first (.here rfl nofun)

/-! ## All of them -/

theorem prospect (hc : Undisturbed s.core) (hi : program.code[s.pc]? = some i) : Prospect program s := by
  cases i with
  | loadConstant value => exact prospect_loadConstant hs hi
  | load source => exact prospect_load hs hi
  | assign target => exact prospect_assign hs hi
  | jumpIfFalse target => exact prospect_jumpIfFalse hs hi
  | jump target => exact .moves (.jump hi)
  | pop => exact prospect_pop hs hi
  | enterScope slots => exact prospect_enterScope hs hi
  | exitScope => exact prospect_exitScope hs hi
  | loadFunction arity entry capacity => exact prospect_loadFunction hs hi
  | call n => exact prospect_call hs hi
  | tailCall n => exact prospect_tailCall hs hc hi
  | ret => exact prospect_ret hs hc hi
  | done => exact prospect_done hs hi

end

/-- What is known of the outcome of a turn. -/
def Regular (program : Program) (s : State) : Turn × State → Prop
  | (.ok none, s') => Move program s.core s'.core
  | (.ok (some _), _) => True
  | (.error failure, _) => failure.fault.kind = .operandStackOverflow →
      ∃ i, program.code[s.pc]? = some i ∧ i.loads = true

theorem Prospect.regular (h : Prospect program s) : Regular program s (turn none none program s) := by
  cases h with
  | moves h =>
    obtain ⟨s', hturn, hcore⟩ := h.step s rfl
    rw [hturn]
    show Move program s.core s'.core
    rw [hcore]
    exact h
  | answers h =>
    obtain ⟨s', hturn, -⟩ := h.answers s rfl none
    rw [hturn]
    trivial
  | fails h hfull =>
    rw [h]
    exact hfull

/-- **Every turn that goes on is a move**, whatever the code and however much memory and time there is; and only
instructions that load find an operand stack full. -/
theorem regular_turn (hs : s.Sorted) (hc : Undisturbed s.core) (room limit : Option Nat) (program : Program) :
    Regular program s (turn room limit program s) := by
  rcases turn_limit room limit program s with hsame | ⟨-, failure, s', hturn, hkind⟩
  · rw [hsame]
    rcases turn_mono (Wider.unlimited room) none program s with hmem | hsame
    · rcases hturn : turn room none program s with ⟨failure | outcome, s'⟩ <;> rw [hturn] at hmem
      · intro hfull
        cases (show failure.fault.kind = .outOfMemory from hmem).symm.trans hfull
      · exact hmem.elim
    · rw [hsame]
      cases hi : program.code[s.pc]? with
      | none =>
        rw [turn, hi]
        exact nofun
      | some i => exact (prospect hs hc hi).regular
  · rw [hturn]
    intro hfull
    cases hkind.symm.trans hfull

end Ideal

end ClosureMachine
