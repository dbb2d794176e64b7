import ClosureMachine.Proofs.Ideal.Activations
import ClosureMachine.Proofs.Ideal.Moves
import ClosureMachine.Proofs.Ideal.Preservation

/-!
# Compiled programs go on

One lemma for each instruction says what a turn makes of a typed state. What the code can be blamed for does not
happen; what remains are the faults of the program itself.
-/

set_option autoImplicit false

namespace ClosureMachine.Ideal

/-- What the next turn does to a typed state. -/
inductive Next (program : Program) (c : Core) : Prop
  | step {c' : Core} (move : Move program c c') (typed : Typed program c')
  | fails {fault : Fault} (refusal : Refusal program c fault)
  | answers {answer : Answer} (finish : Finish program c answer)

/-! ## Values -/

/-- The nodes of these names are values. -/
def AllValues (nodes : List Node) (locs : List Loc) : Prop := ∀ l ∈ locs, InRole nodes .value l

theorem hasArgument_of_value {nodes : List Node} {l : Loc} (h : InRole nodes .value l) :
    ∃ a, HasArgument nodes l a := by
  obtain ⟨n, hn, hp⟩ := h
  cases n with
  | boxed value => exact ⟨_, _, hn, rfl⟩
  | primitive id => exact ⟨_, _, hn, rfl⟩
  | closure env arity entry stack => exact ⟨_, _, hn, rfl⟩
  | _ => cases hp

theorem hasArguments_of_values {nodes : List Node} {locs : List Loc} (h : AllValues nodes locs) :
    ∃ args, List.Forall₂ (HasArgument nodes) locs args := by
  induction locs with
  | nil => exact ⟨[], .nil⟩
  | cons l locs ih =>
    obtain ⟨hl, hlocs⟩ := List.forall_mem_cons.mp h
    obtain ⟨a, ha⟩ := hasArgument_of_value hl
    obtain ⟨args, hargs⟩ := ih hlocs
    exact ⟨a :: args, .cons ha hargs⟩

/-- The operands of a call: the arguments, and the callee under them. -/
theorem split_operands {operands : List Loc} {depth n : Nat} (h : operands.length = depth + 1 + n) :
    ∃ locs callee rest, operands = locs ++ callee :: rest ∧ locs.length = n ∧ rest.length = depth := by
  have hlt : n < operands.length := by omega
  refine ⟨operands.take n, operands.get ⟨n, hlt⟩, operands.drop (n + 1), ?_, ?_, ?_⟩
  · rw [List.get_eq_getElem, ← List.drop_eq_getElem_cons hlt, List.take_append_drop]
  · rw [List.length_take]
    omega
  · rw [List.length_drop]
    omega

/-! ## Instructions -/

section

variable {program : Program} {c : Core} {act : Activation} {inner : List Nat}
  {operands blocks control saved : List Loc} {free : Nat}

theorem next_loadConstant (h : Situation program c act inner operands free blocks control saved)
    {value : Literal} (hi : program.code[c.pc]? = some (.loadConstant value))
    (hroom : operands.length < act.capacity)
    (hnext : Point program act inner (operands.length + 1) (c.pc + 1)) : Next program c := by
  have hcap := h.active.capacity
  obtain ⟨free, rfl⟩ : ∃ k, free = k + 1 := ⟨free - 1, by omega⟩
  have hadd := h.add (n := .boxed value) trivial
  refine .step (.loadConstant hi h.active.stack) ((hadd.operate ?_ _ _).typed hnext)
  rw [List.length_cons]
  omega

theorem next_load (h : Situation program c act inner operands free blocks control saved) {a : Address}
    (hi : program.code[c.pc]? = some (.load a)) (hname : Named (inner ++ act.outer) a)
    (hroom : operands.length < act.capacity)
    (hnext : Point program act inner (operands.length + 1) (c.pc + 1)) : Next program c := by
  have hcap := h.active.capacity
  obtain ⟨free, rfl⟩ : ∃ k, free = k + 1 := ⟨free - 1, by omega⟩
  obtain ⟨env, slots, outer, hwalk, henv, hlt⟩ := h.active.chain.walk hname
  cases hslot : slots.get ⟨a.slot, hlt⟩ with
  | none =>
    have hnone : slots[a.slot]? = some none := List.getElem?_eq_some_iff.mpr ⟨hlt, hslot⟩
    exact .fails (.unassignedName hi hwalk henv hnone)
  | some v =>
    have hsome : slots[a.slot]? = some (some v) := List.getElem?_eq_some_iff.mpr ⟨hlt, hslot⟩
    refine .step (.load hi hwalk henv hsome h.active.stack) ((h.operate ?_ _ _).typed hnext)
    rw [List.length_cons]
    omega

theorem next_assign (h : Situation program c act inner operands free blocks control saved) {a : Address}
    {depth : Nat} (hd : operands.length = depth + 1) (hi : program.code[c.pc]? = some (.assign a))
    (hname : Named (inner ++ act.outer) a) (hnext : Point program act inner (depth + 1) (c.pc + 1)) :
    Next program c := by
  obtain ⟨env, slots, outer, hwalk, henv, hlt⟩ := h.active.chain.walk hname
  obtain ⟨v, rest, rfl⟩ := List.exists_cons_of_length_eq_add_one hd
  have hl : Later True [c.stack] c.nodes
      (c.nodes.set env (.environment (slots.set a.slot (some v)) outer)) :=
    .set henv (.slots trivial (List.length_set ..))
  have hne : env ≠ c.stack := ne_of_kind henv h.active.stack (by simp [Node.kind])
  have h' := h.proceed hl (h.made.same_length hl (List.length_set ..))
    ((List.getElem?_set_ne hne).trans h.active.stack) rfl (c.pc + 1) c.output
  exact .step (.assign hi hwalk henv hlt h.active.stack) (h'.typed (hd.symm ▸ hnext))

theorem next_jumpIfFalse (h : Situation program c act inner operands free blocks control saved)
    (hv : AllValues c.nodes operands) {depth target : Nat} (hd : operands.length = depth + 1)
    (hi : program.code[c.pc]? = some (.jumpIfFalse target))
    (hnext : Point program act inner depth (c.pc + 1)) (hother : Point program act inner depth target) :
    Next program c := by
  obtain ⟨v, rest, rfl⟩ := List.exists_cons_of_length_eq_add_one hd
  obtain ⟨a, ha⟩ := hasArgument_of_value (hv v List.mem_cons_self)
  have hrest : rest.length = depth := Nat.succ.inj hd
  by_cases hbool : ∃ b, a = .literal (.boolean b)
  · obtain ⟨b, rfl⟩ := hbool
    have hbox : c.nodes[v]? = some (.boxed (.boolean b)) := by
      obtain ⟨n, hn, ha⟩ := ha
      cases n <;> simp_all [Node.argument]
    refine .step (.jumpIfFalse hi h.active.stack hbox) ((h.operate ?_ _ _).typed ?_)
    · rw [List.length_cons]
      omega
    · rw [hrest]
      cases b with
      | true => exact hnext
      | false => exact hother
  · exact .fails (.notBoolean hi h.active.stack ha fun b hb => hbool ⟨b, hb⟩)

theorem next_jump (h : Situation program c act inner operands free blocks control saved) {target : Nat}
    (hi : program.code[c.pc]? = some (.jump target))
    (hnext : Point program act inner operands.length target) : Next program c := by
  exact .step (.jump hi) ((h.proceed (.refl _ _ _) h.made h.active.stack rfl _ _).typed hnext)

theorem next_pop (h : Situation program c act inner operands free blocks control saved) {depth : Nat}
    (hd : operands.length = depth + 1) (hi : program.code[c.pc]? = some .pop)
    (hnext : Point program act inner depth (c.pc + 1)) : Next program c := by
  obtain ⟨v, rest, rfl⟩ := List.exists_cons_of_length_eq_add_one hd
  have hrest : rest.length = depth := Nat.succ.inj hd
  refine .step (.pop hi h.active.stack) ((h.operate ?_ _ _).typed (hrest.symm ▸ hnext))
  rw [List.length_cons]
  omega

theorem next_enterScope (h : Situation program c act inner operands free blocks control saved)
    {slots : Nat} (hi : program.code[c.pc]? = some (.enterScope slots))
    (hnext : Point program act (slots :: inner) operands.length (c.pc + 1)) : Next program c := by
  obtain ⟨names, outer, henv⟩ := h.active.chain.environment
  exact .step (.enterScope hi henv) ((h.enter slots _).typed hnext)

theorem next_exitScope {slots : Nat}
    (h : Situation program c act (slots :: inner) operands free blocks control saved)
    (hi : program.code[c.pc]? = some .exitScope)
    (hnext : Point program act inner operands.length (c.pc + 1)) : Next program c := by
  obtain ⟨frame, env, blocks', hframes, hframe, hleave⟩ := h.leave
  exact .step (.exitScope hi hframes hframe) ((hleave _).typed hnext)

theorem next_loadFunction (h : Situation program c act inner operands free blocks control saved)
    {arity entry stack : Nat} (hi : program.code[c.pc]? = some (.loadFunction arity entry stack))
    (hroom : operands.length < act.capacity)
    (hbody : Point program ⟨stack, arity :: (inner ++ act.outer), true⟩ [] 0 entry)
    (hnext : Point program act inner (operands.length + 1) (c.pc + 1)) : Next program c := by
  have hcap := h.active.capacity
  obtain ⟨free, rfl⟩ : ∃ k, free = k + 1 := ⟨free - 1, by omega⟩
  obtain ⟨names, outer, henv⟩ := h.active.chain.environment
  have hadd := h.add (n := .closure (some c.env) arity entry stack)
    ⟨_, h.active.chain.later (Later.append True [] _ _), hbody⟩
  refine .step (.loadFunction hi henv h.active.stack) ((hadd.operate ?_ _ _).typed hnext)
  rw [List.length_cons]
  omega

theorem next_ret (h : Situation program c act inner operands free blocks control saved) {depth : Nat}
    (hd : operands.length = depth + 1) (hi : program.code[c.pc]? = some .ret)
    (hcaller : act.inFunction = true) : Next program c := by
  obtain ⟨v, rest, rfl⟩ := List.exists_cons_of_length_eq_add_one hd
  obtain ⟨frame, env, stack, address, operands', free', blocks', control', saved', act', inner', hc⟩ :=
    (hcaller ▸ h.waits).caller
  exact .step (.ret hi h.active.stack (h.frames.trans (hc.frames ▸ rfl)) h.active.entered.isBlock
    hc.frame hc.active.stack (h.stack_ne hc)) ((h.back hc rest _ v _).typed hc.point)

theorem next_done (h : Situation program c act inner operands free blocks control saved)
    (hv : AllValues c.nodes operands) (hd : operands.length = 1)
    (hi : program.code[c.pc]? = some .done) : Next program c := by
  obtain ⟨v, rfl⟩ := List.length_eq_one_iff.mp hd
  obtain ⟨a, ha⟩ := hasArgument_of_value (hv v List.mem_cons_self)
  exact .answers (.done hi h.active.stack ha)

/-! ## Calls -/

/-- How a call can fail, and what is called if it does not. -/
theorem callee_cases (tail : Bool) {locs rest : List Loc} {callee : Loc}
    (h : Situation program c act inner (locs ++ callee :: rest) free blocks control saved)
    (hv : AllValues c.nodes (locs ++ callee :: rest))
    (hi : program.code[c.pc]? = some (callInstruction tail locs.length)) :
    (∃ fault, Refusal program c fault) ∨
    (∃ p args value id, c.nodes[callee]? = some (.primitive id) ∧ Primitive.ofId? id = some p ∧
      p.arity = locs.length ∧ List.Forall₂ (HasArgument c.nodes) locs args ∧
      p.meaning args.reverse = .ok value) ∨
    ∃ env entry capacity outer,
      c.nodes[callee]? = some (.closure (some env) locs.length entry capacity) ∧
      Chain c.nodes outer (some env) ∧ Point program ⟨capacity, locs.length :: outer, true⟩ [] 0 entry := by
  have hs := h.active.stack
  obtain ⟨n, hn, hp⟩ := hv callee (by simp)
  have hmade := h.made hn
  cases n with
  | boxed value => exact .inl ⟨_, .notAFunction hi hs hn⟩
  | primitive id =>
    obtain ⟨p, hid⟩ := hmade
    by_cases harity : p.arity = locs.length
    · have hlocs : AllValues c.nodes locs := fun l hl => hv l (List.mem_append_left _ hl)
      obtain ⟨args, hargs⟩ := hasArguments_of_values hlocs
      cases hm : p.meaning args.reverse with
      | ok value => exact .inr (.inl ⟨p, args, value, id, hn, hid, harity, hargs, hm⟩)
      | error fault => exact .inl ⟨fault, .primitive hi hs hn hid harity hargs hm⟩
    · exact .inl ⟨_, .primitiveArity hi hs hn hid harity⟩
  | closure env arity entry capacity =>
    cases env with
    | none => cases hp
    | some env =>
      obtain ⟨outer, hchain, hpoint⟩ := hmade
      by_cases harity : arity = locs.length
      · subst harity
        exact .inr (.inr ⟨env, entry, capacity, outer, hn, hchain, hpoint⟩)
      · exact .inl ⟨_, .closureArity hi hs hn harity⟩
  | _ => cases hp

/-- A function that has been called begins with the arguments in its environment and no operands. -/
theorem typed_callee (more : List Node) {nodes : List Node} {env : Loc} {outer : List Nat}
    {capacity entry : Nat} {locs : List Loc} (hmade : AllMade program nodes)
    (hchain : Chain nodes outer (some env))
    (hpoint : Point program ⟨capacity, locs.length :: outer, true⟩ [] 0 entry)
    (hmore : ∀ n ∈ more, ∀ nodes, n.Made program nodes) (hwaits : Waits program
      (nodes ++ ([.environment (locs.reverse.map some) (some env), .operandStack [] capacity] ++ more))
      true control saved) (hapart : saved.Nodup) (hlt : ∀ l ∈ saved, l < nodes.length)
    (output : Array String) :
    Typed program ⟨nodes ++ ([.environment (locs.reverse.map some) (some env), .operandStack [] capacity] ++
      more), entry, nodes.length, nodes.length + 1, control, output⟩ := by
  let nodes' := nodes ++
    ([.environment (locs.reverse.map some) (some env), .operandStack [] capacity] ++ more)
  have hl : Later True [] nodes nodes' := .append _ _ _ _
  have henv : nodes'[nodes.length]? = some (.environment (locs.reverse.map some) (some env)) := by
    simp [nodes']
  have hstack : nodes'[nodes.length + 1]? = some (.operandStack [] capacity) := by simp [nodes']
  have hnew := Chain.cons henv (hchain.later hl)
  rw [List.length_map, List.length_reverse] at hnew
  have hmade' : AllMade program nodes' := by
    refine hmade.append fun n hn => ?_
    rcases List.mem_append.mp hn with hn | hn
    · simp only [List.mem_cons, List.not_mem_nil, or_false] at hn
      rcases hn with rfl | rfl <;> trivial
    · exact hmore n hn _
  have hactive : Active nodes' ⟨capacity, locs.length :: outer, true⟩ [] [] capacity nodes.length
      (nodes.length + 1) [] := ⟨hnew, .nil, hstack, Nat.zero_add _⟩
  have hapart' : ((nodes.length + 1) :: saved).Nodup := by
    refine List.nodup_cons.mpr ⟨fun hmem => ?_, hapart⟩
    exact absurd (hlt _ hmem) (Nat.not_lt.mpr (Nat.le_succ _))
  exact Situation.typed ⟨hmade', hactive, rfl, hwaits, hapart'⟩ hpoint

/-- The arguments and the callee have been taken off. -/
theorem Situation.taken {locs rest : List Loc} {callee : Loc}
    (h : Situation program c act inner (locs ++ callee :: rest) free blocks control saved) :
    Situation program ⟨c.nodes.set c.stack (.operandStack rest (free + locs.length + 1)), c.pc, c.env,
      c.stack, c.control, c.output⟩ act inner rest (free + locs.length + 1) blocks control saved := by
  refine h.operate ?_ _ _
  rw [List.length_append, List.length_cons]
  omega

theorem next_call (h : Situation program c act inner operands free blocks control saved)
    (hv : AllValues c.nodes operands) {depth n : Nat} (hd : operands.length = depth + 1 + n)
    (hi : program.code[c.pc]? = some (.call n))
    (hnext : Point program act inner (depth + 1) (c.pc + 1)) : Next program c := by
  obtain ⟨locs, callee, rest, rfl, rfl, rfl⟩ := split_operands hd
  have hs := h.active.stack
  rcases callee_cases false h hv hi with
    ⟨fault, hrefusal⟩ | ⟨p, args, value, id, hn, hid, harity, hargs, hm⟩ |
      ⟨env, entry, capacity, outer, hn, hchain, hpoint⟩
  · exact .fails hrefusal
  · have hadd := h.add (n := .boxed value) trivial
    refine .step (.callPrimitive hi hs hn hid harity hargs hm) ((hadd.operate ?_ _ _).typed hnext)
    simp only [List.length_append, List.length_cons]
    omega
  · obtain ⟨slots, outer', henv⟩ := hchain.environment
    obtain ⟨slots', outer'', hcurrent⟩ := h.active.chain.environment
    have hleft := h.taken
    have hl : Later True [c.stack] c.nodes
        (c.nodes.set c.stack (.operandStack rest (free + locs.length + 1))) :=
      .use hs (List.mem_singleton_self _)
    -- the running activation waits for the new one
    let nodes' := c.nodes.set c.stack (.operandStack rest (free + locs.length + 1)) ++
      [.environment (locs.reverse.map some) (some env), .operandStack [] capacity,
        .callFrame (some c.env) (some c.stack) (c.pc + 1)]
    have hframe : nodes'[c.nodes.length + 2]? =
        some (.callFrame (some c.env) (some c.stack) (c.pc + 1)) := by simp [nodes']
    have hwaits : Waits program nodes' true ((c.nodes.length + 2) :: (blocks ++ control))
        (c.stack :: saved) :=
      .call hframe (hleft.active.later (.append True [] _ _) (by simp)) hnext
        (hleft.waits.later (.append True [] _ _) (by simp))
    have hlt : ∀ l ∈ c.stack :: saved, l < (c.nodes.set c.stack _).length := List.forall_mem_cons.mpr
      ⟨(List.getElem?_eq_some_iff.mp hleft.active.stack).1, hleft.waits.stack_lt⟩
    have hcallee := typed_callee [.callFrame (some c.env) (some c.stack) (c.pc + 1)] hleft.made
      (hchain.later hl) hpoint (by simp [Node.Made]) hwaits h.apart hlt c.output
    rw [List.length_set, ← h.frames] at hcallee
    exact .step (.callClosure hi hs hn henv hcurrent) hcallee

theorem next_tailCall (h : Situation program c act inner operands free blocks control saved)
    (hv : AllValues c.nodes operands) {depth n : Nat} (hd : operands.length = depth + 1 + n)
    (hi : program.code[c.pc]? = some (.tailCall n)) (hcaller : act.inFunction = true) :
    Next program c := by
  obtain ⟨locs, callee, rest, rfl, rfl, rfl⟩ := split_operands hd
  have hs := h.active.stack
  obtain ⟨frame, env', stack, address, operands', free', blocks', control', saved', act', inner', hc⟩ :=
    (hcaller ▸ h.waits).caller
  have hcontrol : c.control = blocks ++ frame :: (blocks' ++ control') := h.frames.trans (hc.frames ▸ rfl)
  rcases callee_cases true h hv hi with
    ⟨fault, hrefusal⟩ | ⟨p, args, value, id, hn, hid, harity, hargs, hm⟩ |
      ⟨env, entry, capacity, outer, hn, hchain, hpoint⟩
  · exact .fails hrefusal
  · have hadd := h.add (n := .boxed value) trivial
    exact .step (.tailCallPrimitive hi hs hn hid harity hargs hm hcontrol h.active.entered.isBlock
      hc.frame hc.active.stack (h.stack_ne hc)) ((hadd.back (hc.append _) rest _ _ _).typed hc.point)
  · obtain ⟨slots, outer', henv⟩ := hchain.environment
    obtain ⟨slots', outer'', hcurrent⟩ := h.active.chain.environment
    have hleft := h.taken
    have hl : Later True [c.stack] c.nodes
        (c.nodes.set c.stack (.operandStack rest (free + locs.length + 1))) :=
      .use hs (List.mem_singleton_self _)
    have hwaits := hleft.waits
    rw [hcaller] at hwaits
    have hcallee := typed_callee [] hleft.made (hchain.later hl) hpoint (by simp)
      (hwaits.later (.append True [] _ _) (by simp)) (List.nodup_cons.mp h.apart).2 hwaits.stack_lt c.output
    rw [List.length_set, hc.frames] at hcallee
    exact .step (.tailCallClosure hi hs hn henv hcurrent hcontrol h.active.entered.isBlock hc.frame rfl)
      hcallee

/-! ## Every instruction -/

/-- Where something is known about the next instruction, a turn does no worse than it must. -/
theorem next_of_point {depth pc : Nat} (hpoint : Point program act inner depth pc)
    (h : Situation program c act inner operands free blocks control saved) (hpc : c.pc = pc)
    (hd : operands.length = depth) (hv : AllValues c.nodes operands) : Next program c := by
  subst hpc
  cases hpoint with
  | loadConstant hi hroom next =>
    subst hd
    exact next_loadConstant h hi hroom next
  | load hi hname hroom next =>
    subst hd
    exact next_load h hi hname hroom next
  | assign hi hname next => exact next_assign h hd hi hname next
  | jumpIfFalse hi next other => exact next_jumpIfFalse h hv hd hi next other
  | jump hi next =>
    subst hd
    exact next_jump h hi next
  | pop hi next => exact next_pop h hd hi next
  | enterScope hi next =>
    subst hd
    exact next_enterScope h hi next
  | exitScope hi next =>
    subst hd
    exact next_exitScope h hi next
  | loadFunction hi hroom body next =>
    subst hd
    exact next_loadFunction h hi hroom body next
  | call hi next => exact next_call h hv hd hi next
  | tailCall hi hcaller => exact next_tailCall h hv hd hi hcaller
  | ret hi hcaller => exact next_ret h hd hi hcaller
  | done hi hmain => exact next_done h hv hd hi

end

/-- The state is one in which a compiled program can be, whatever it has done. -/
structure InOrder (program : Program) (s : State) : Prop where
  sorted : s.Sorted
  typed : Typed program s.core

/-- **A state in order goes on to a typed one**, unless the program ends there. -/
theorem InOrder.next {program : Program} {s : State} (h : InOrder program s) : Next program s.core := by
  obtain ⟨act, inner, operands, free, blocks, control, saved, hsit, hpoint⟩ := h.typed
  exact next_of_point hpoint hsit rfl rfl (h.sorted.nodes hsit.active.stack)

/-! ## The beginning -/

/-- The nodes at the beginning are those of the primitives, apart from an environment and an operand
stack. -/
theorem allMade_boot (program : Program) : AllMade program (bootState program).nodes := by
  intro l n hn
  have hmem := List.mem_of_getElem? hn
  simp only [bootState, globalNodes, Nat.sub_self, List.replicate_zero, List.append_nil, List.cons_append,
    List.mem_cons, List.mem_append, List.mem_map, List.mem_range, List.not_mem_nil, or_false] at hmem
  rcases hmem with rfl | ⟨id, hid, rfl⟩ | rfl
  · trivial
  · exact ⟨_, List.getElem?_eq_getElem hid⟩
  · trivial

theorem typed_boot {program : Program} {tree : Tree} (h : tree.toProgram Primitive.globals = .ok program) :
    Typed program (bootState program).core := by
  have hpoint := point_program h
  have hsizes : Primitive.globals.sizes = [Primitive.all.length] := by
    simp [Primitive.globals, Scopes.sizes]
  rw [hsizes] at hpoint
  have hchain := Chain.cons (bootState_globals program) .nil
  rw [List.length_map, List.length_range] at hchain
  have hactive : Active (bootState program).nodes ⟨program.mainStack, [Primitive.all.length], false⟩ [] []
      program.mainStack 0 (Primitive.all.length + 1) [] :=
    ⟨hchain, .nil, bootState_stack program, Nat.zero_add _⟩
  exact Situation.typed ⟨allMade_boot program, hactive, rfl, .main, List.nodup_singleton _⟩ hpoint

end ClosureMachine.Ideal
