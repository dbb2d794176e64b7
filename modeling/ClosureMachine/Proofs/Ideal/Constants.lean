import ClosureMachine.Proofs.Compile.Sites
import ClosureMachine.Proofs.Ideal.Boot
import ClosureMachine.Proofs.Ideal.Later
import ClosureMachine.Proofs.Ideal.Moves

/-!
# Constants of compiled programs

At run time nothing tells a constant from a variable: an assignment could go to any slot. Here the account that `Site`
keeps of the code becomes an invariant of runs. Each environment was made for a scope, and the environments in sight
of an activation were made for the scopes that the compiler had in sight (`Scoped`). Of the scopes that an
activation has entered, the declarations to come have not been carried out, so their constants have
no value yet (`Inside`); and no two activations have entered the same environment.

It follows that an assignment never finds a value in the slot of a constant (`Accounted.unassigned`).
-/

set_option autoImplicit false

namespace ClosureMachine.Ideal

/-! ## Environments and scopes -/

/-- The environments from the node on outward were made for these scopes, and there are no others. -/
inductive Scoped (σ : Loc → Scope) (nodes : List Node) : (inSight : Scopes) → (env : Option Loc) → Prop
  | nil : Scoped σ nodes [] none
  | cons {env : Loc} {slots : List (Option Loc)} {outer : Option Loc} {rest : Scopes}
      (henv : nodes[env]? = some (.environment slots outer)) (around : Scoped σ nodes rest outer) :
      Scoped σ nodes (σ env :: rest) (some env)

/-- The constants whose declarations are still to come have no value. -/
def Underway.Pending (u : Underway) (slots : List (Option Loc)) : Prop :=
  ∀ ⦃k : Nat⦄ ⦃b : Binding⦄, u.done ≤ k → u.scope[k]? = some b → b.constant = true → slots[k]? = some none

/-- The environments `envs` were made for the scopes that have been entered, and the blocks are their frames. -/
inductive Inside (σ : Loc → Scope) (nodes : List Node) :
    (inner : List Underway) → (env : Loc) → (envs blocks : List Loc) → Prop
  | nil {env : Loc} : Inside σ nodes [] env [] []
  | cons {u : Underway} {inner : List Underway} {env outer frame : Loc} {slots : List (Option Loc)}
      {envs blocks : List Loc} (henv : nodes[env]? = some (.environment slots (some outer)))
      (hscope : σ env = u.scope) (hpending : Underway.Pending u slots)
      (hframe : nodes[frame]? = some (.blockFrame (some outer)))
      (around : Inside σ nodes inner outer envs blocks) :
      Inside σ nodes (u :: inner) env (env :: envs) (frame :: blocks)

section

variable {σ σ' : Loc → Scope} {nodes nodes' : List Node} {inSight : Scopes} {written : Prop}
  {used : List Loc} {inner : List Underway} {env : Loc} {envs blocks : List Loc}

theorem lt_of_getElem? {l : Loc} {n : Node} (hn : nodes[l]? = some n) : l < nodes.length :=
  (List.getElem?_eq_some_iff.mp hn).1

theorem Scoped.later {env : Option Loc} (h : Scoped σ nodes inSight env)
    (hσ : ∀ l < nodes.length, σ' l = σ l) (hl : Later written used nodes nodes') :
    Scoped σ' nodes' inSight env := by
  induction h with
  | nil => exact .nil
  | cons henv _ ih =>
    obtain ⟨slots', -, henv'⟩ := hl.keep_environment henv
    rw [← hσ _ (lt_of_getElem? henv)]
    exact .cons henv' ih

theorem Scoped.around {scope : Scope} {slots : List (Option Loc)} {outer : Option Loc}
    (h : Scoped σ nodes (scope :: inSight) (some env))
    (henv : nodes[env]? = some (.environment slots outer)) : Scoped σ nodes inSight outer := by
  cases h with
  | cons henv' around =>
    cases henv.symm.trans henv'
    exact around

/-- An address leads to an environment that was made for the scope at this distance. -/
theorem Scoped.walk {frame : Nat} {env' : Loc} (h : Scoped σ nodes inSight (some env))
    (hwalk : outward env frame nodes = .ok (some env') nodes) : inSight[frame]? = some (σ env') := by
  induction frame generalizing env inSight with
  | zero =>
    obtain rfl : env = env' := by simpa [outward] using hwalk
    cases h
    rfl
  | succ frame ih =>
    cases h with
    | @cons _ slots outer rest henv around =>
      cases outer with
      | none =>
        rw [outward_outermost henv] at hwalk
        simp at hwalk
      | some outer =>
        rw [outward_enclosed henv] at hwalk
        exact ih around hwalk

theorem Inside.later (h : Inside σ nodes inner env envs blocks) (hσ : ∀ l < nodes.length, σ' l = σ l)
    (hl : Later False used nodes nodes') : Inside σ' nodes' inner env envs blocks := by
  induction h with
  | nil => exact .nil
  | cons henv hscope hpending hframe _ ih =>
    refine .cons (hl.keep_quiet henv (by simp [Node.kind])) ?_ hpending
      (hl.keep_quiet hframe (by simp [Node.kind])) ih
    rw [hσ _ (lt_of_getElem? henv), hscope]

theorem Inside.isBlock (h : Inside σ nodes inner env envs blocks) :
    ∀ l ∈ blocks, ∃ env, nodes[l]? = some (.blockFrame env) := by
  induction h with
  | nil => simp
  | cons _ _ _ hframe _ ih => exact List.forall_mem_cons.mpr ⟨⟨_, hframe⟩, ih⟩

theorem Inside.lt (h : Inside σ nodes inner env envs blocks) : ∀ l ∈ envs, l < nodes.length := by
  induction h with
  | nil => simp
  | cons henv _ _ _ _ ih => exact List.forall_mem_cons.mpr ⟨lt_of_getElem? henv, ih⟩

/-! ### Assignments

To assign to a variable changes no account, whoever's environment it is in; nor does an assignment to an
environment that the activation has not entered. -/

variable {target v : Loc} {slots : List (Option Loc)} {outer : Option Loc} {k : Nat}

theorem Underway.Pending.set {u : Underway} (h : Underway.Pending u slots)
    (hvariable : ∀ b, u.scope[k]? = some b → b.constant = false) : Underway.Pending u (slots.set k (some v)) := by
  intro k' b hle hb hconstant
  have hne : k ≠ k' := by
    rintro rfl
    rw [hvariable b hb] at hconstant
    cases hconstant
  exact (List.getElem?_set_ne hne).trans (h hle hb hconstant)

/-- The next declaration is carried out. -/
theorem Underway.Pending.declare {scope : Scope} (h : Underway.Pending ⟨scope, k⟩ slots) :
    Underway.Pending ⟨scope, k + 1⟩ (slots.set k (some v)) := by
  intro k' b hle hb hconstant
  have hle : k + 1 ≤ k' := hle
  exact (List.getElem?_set_ne (by omega)).trans (h (Nat.le_of_succ_le hle) hb hconstant)

theorem Inside.assign (h : Inside σ nodes inner env envs blocks)
    (htarget : nodes[target]? = some (.environment slots outer))
    (hvariable : target ∈ envs → ∀ b, (σ target)[k]? = some b → b.constant = false) :
    Inside σ (nodes.set target (.environment (slots.set k (some v)) outer)) inner env envs blocks := by
  induction h with
  | nil => exact .nil
  | @cons u inner env outer' frame slots' envs blocks henv hscope hpending hframe _ ih =>
    have hframe' : (nodes.set target (.environment (slots.set k (some v)) outer))[frame]? =
        some (.blockFrame (some outer')) := by
      refine (List.getElem?_set_ne fun heq => ?_).trans hframe
      rw [heq, hframe] at htarget
      cases htarget
    have haround := ih fun hmem => hvariable (List.mem_cons_of_mem _ hmem)
    by_cases heq : target = env
    · subst heq
      cases htarget.symm.trans henv
      refine .cons (List.getElem?_set_self (lt_of_getElem? henv)) hscope ?_ hframe' haround
      exact hpending.set (hscope ▸ hvariable List.mem_cons_self)
    · exact .cons ((List.getElem?_set_ne heq).trans henv) hscope hpending hframe' haround

end

/-! ## Activations -/

section

variable (program : Program) (scopes : List Scope)

/-- The activations that wait, down to that of the main program. The environments are those they have entered. -/
inductive Paused (σ : Loc → Scope) (nodes : List Node) : (control envs : List Loc) → Prop
  | main : Paused σ nodes [] []
  | call {outer : Scopes} {inner : List Underway} {env stack frame : Loc} {address : Nat}
      {envs envs' blocks control : List Loc}
      (hframe : nodes[frame]? = some (.callFrame (some env) (some stack) address))
      (chain : Scoped σ nodes (inSight inner outer) (some env)) (inside : Inside σ nodes inner env envs blocks)
      (site : Site program scopes outer inner address) (rest : Paused σ nodes control envs') :
      Paused σ nodes (frame :: (blocks ++ control)) (envs ++ envs')

/-- The body of a closure fits the environment in which the closure was made. -/
def Node.Bound (σ : Loc → Scope) (nodes : List Node) : Node → Prop
  | .closure (some env) _ entry _ =>
    ∃ outer parameters, Scoped σ nodes outer (some env) ∧ Site program scopes (parameters :: outer) [] entry
  | _ => True

def AllBound (σ : Loc → Scope) (nodes : List Node) : Prop :=
  ∀ ⦃l : Loc⦄ ⦃n : Node⦄, nodes[l]? = some n → n.Bound program scopes σ nodes

/-- The account of the running activation, and of those that wait. -/
structure Account (σ : Loc → Scope) (c : Core) (outer : Scopes) (inner : List Underway)
    (envs blocks control others : List Loc) : Prop where
  bound : AllBound program scopes σ c.nodes
  chain : Scoped σ c.nodes (inSight inner outer) (some c.env)
  inside : Inside σ c.nodes inner c.env envs blocks
  frames : c.control = blocks ++ control
  paused : Paused program scopes σ c.nodes control others
  apart : (envs ++ others).Nodup
  site : Site program scopes outer inner c.pc

/-- There is an account of the state, in which `σ` says for which scope each environment was made. -/
def Accounted (σ : Loc → Scope) (c : Core) : Prop :=
  ∃ outer inner envs blocks control others, Account program scopes σ c outer inner envs blocks control others

end

section

variable {program : Program} {scopes : List Scope} {σ σ' : Loc → Scope} {nodes nodes' : List Node}
  {written : Prop} {used control envs : List Loc}

theorem Paused.later (h : Paused program scopes σ nodes control envs)
    (hσ : ∀ l < nodes.length, σ' l = σ l) (hl : Later False used nodes nodes') :
    Paused program scopes σ' nodes' control envs := by
  induction h with
  | main => exact .main
  | call hframe chain inside site _ ih =>
    exact .call (hl.keep_quiet hframe (by simp [Node.kind])) (chain.later hσ hl) (inside.later hσ hl) site ih

theorem Paused.lt (h : Paused program scopes σ nodes control envs) : ∀ l ∈ envs, l < nodes.length := by
  induction h with
  | main => simp
  | call _ _ inside _ _ ih => exact List.forall_mem_append.mpr ⟨inside.lt, ih⟩

theorem Paused.assign {target v : Loc} {slots : List (Option Loc)} {outer : Option Loc} {k : Nat}
    (h : Paused program scopes σ nodes control envs)
    (htarget : nodes[target]? = some (.environment slots outer))
    (hvariable : target ∈ envs → ∀ b, (σ target)[k]? = some b → b.constant = false) :
    Paused program scopes σ (nodes.set target (.environment (slots.set k (some v)) outer)) control envs := by
  have hl : Later True [] nodes (nodes.set target (.environment (slots.set k (some v)) outer)) :=
    .set htarget (.slots trivial (List.length_set ..))
  induction h with
  | main => exact .main
  | call hframe chain inside site _ ih =>
    refine .call (hl.keep hframe (by simp [Node.kind]) (by simp [Node.kind]))
      (chain.later (fun _ _ => rfl) hl) (inside.assign htarget ?_) site (ih ?_)
    · exact fun hmem => hvariable (List.mem_append_left _ hmem)
    · exact fun hmem => hvariable (List.mem_append_right _ hmem)

theorem Paused.isCall {frame : Loc} {rest : List Loc} (h : Paused program scopes σ nodes (frame :: rest) envs) :
    ∃ env stack address, nodes[frame]? = some (.callFrame env stack address) := by
  cases h with
  | call hframe => exact ⟨_, _, _, hframe⟩

/-- The frames of blocks end where the next activation begins. -/
theorem Paused.control_eq {blocks blocks' rest : List Loc} {frame : Loc} {n : Node}
    (h : Paused program scopes σ nodes control envs) (heq : blocks ++ control = blocks' ++ frame :: rest)
    (hb : ∀ l ∈ blocks, ∃ env, nodes[l]? = some (.blockFrame env))
    (hb' : ∀ l ∈ blocks', ∃ env, nodes[l]? = some (.blockFrame env))
    (hframe : nodes[frame]? = some n) (hk : n.kind = .callFrame) : control = frame :: rest := by
  induction blocks generalizing blocks' with
  | nil =>
    cases blocks' with
    | nil => exact heq
    | cons block blocks' =>
      obtain ⟨env, hblock⟩ := hb' block List.mem_cons_self
      rw [List.nil_append, List.cons_append] at heq
      rw [heq] at h
      obtain ⟨_, _, _, hcall⟩ := h.isCall
      cases hblock.symm.trans hcall
  | cons block blocks ih =>
    obtain ⟨env, hblock⟩ := hb block List.mem_cons_self
    cases blocks' with
    | nil =>
      obtain ⟨rfl, -⟩ := List.cons.inj heq
      cases hframe.symm.trans hblock
      cases hk
    | cons block' blocks' =>
      obtain ⟨-, heq⟩ := List.cons.inj heq
      exact ih heq (fun l hl => hb l (List.mem_cons_of_mem _ hl))
        fun l hl => hb' l (List.mem_cons_of_mem _ hl)

theorem AllBound.later (h : AllBound program scopes σ nodes) (hσ : ∀ l < nodes.length, σ' l = σ l)
    (hl : Later written used nodes nodes')
    (hnew : ∀ ⦃l : Loc⦄ ⦃n : Node⦄, nodes.length ≤ l → nodes'[l]? = some n →
      n.Bound program scopes σ' nodes') : AllBound program scopes σ' nodes' := by
  intro l n hn
  by_cases hlt : l < nodes.length
  · obtain ⟨n', hn', hb⟩ := hl (List.getElem?_eq_getElem hlt)
    obtain rfl : n' = n := Option.some.inj (hn'.symm.trans hn)
    have hold := h (List.getElem?_eq_getElem hlt)
    generalize nodes[l] = n₀ at hb hold
    cases hb with
    | operands => trivial
    | slots => trivial
    | same =>
      cases n' with
      | closure env arity entry capacity =>
        cases env with
        | none => trivial
        | some env =>
          obtain ⟨outer, parameters, hchain, hsite⟩ := hold
          exact ⟨outer, parameters, hchain.later hσ hl, hsite⟩
      | _ => trivial
  · exact hnew (Nat.le_of_not_lt hlt) hn

end

/-! ## What a move does -/

/-- Where nothing is assigned, a move leaves environments as they are. -/
theorem Move.later {program : Program} {c c' : Core} (h : Move program c c') {written : Prop}
    (hassign : ∀ a, program.code[c.pc]? = some (.assign a) → written) :
    ∃ used, Later written used c.nodes c'.nodes := by
  cases h with
  | loadConstant hi hs | loadFunction hi henv hs | callPrimitive hi hs =>
    exact ⟨[c.stack], (Later.append ..).trans (.use (append_old hs) List.mem_cons_self)⟩
  | load hi _ _ _ hs | pop hi hs | jumpIfFalse hi hs => exact ⟨[c.stack], .use hs List.mem_cons_self⟩
  | assign hi _ henv => exact ⟨[], .set henv (.slots (hassign _ hi) (List.length_set ..))⟩
  | jump | exitScope => exact ⟨[], .refl ..⟩
  | enterScope => exact ⟨[], .append ..⟩
  | callClosure hi hs | tailCallClosure hi hs =>
    exact ⟨[c.stack], (Later.use hs List.mem_cons_self).trans (.append ..)⟩
  | @ret _ _ stack _ _ _ _ _ _ _ _ hi hs _ _ _ hstack hne =>
    exact ⟨[c.stack, stack], (Later.use hs List.mem_cons_self).trans
      (.use ((List.getElem?_set_ne hne).trans hstack) (by simp))⟩
  | @tailCallPrimitive _ _ _ _ _ _ _ _ _ stack _ _ _ _ _ _ hi hs _ _ _ _ _ _ _ _ hstack hne =>
    exact ⟨[c.stack, stack], (Later.append ..).trans ((Later.use (append_old hs) List.mem_cons_self).trans
      (.use ((List.getElem?_set_ne hne).trans (append_old hstack)) (by simp)))⟩

/-- To build a function or to jump is not to change the environment. -/
theorem Move.env_eq {program : Program} {c c' : Core} (h : Move program c c') {i : Instruction}
    (hi : program.code[c.pc]? = some i) (hstays : (i.functionEntry <|> i.jumpTarget).isSome) : c'.env = c.env := by
  cases h with
  | enterScope hi' | exitScope hi' | tailCallPrimitive hi' | callClosure hi' | tailCallClosure hi' | ret hi' =>
    cases hi.symm.trans hi'
    cases hstays
  | _ => rfl

/-- An assignment fills one slot. -/
theorem Move.of_assign {program : Program} {c c' : Core} (h : Move program c c') {a : Address}
    (hi : program.code[c.pc]? = some (.assign a)) :
    ∃ env v slots outer, outward c.env a.frame c.nodes = .ok (some env) c.nodes ∧
      c.nodes[env]? = some (.environment slots outer) ∧ a.slot < slots.length ∧
      c'.nodes = c.nodes.set env (.environment (slots.set a.slot (some v)) outer) := by
  cases h with
  | assign hi' hwalk henv hlt hs =>
    cases hi.symm.trans hi'
    exact ⟨_, _, _, _, hwalk, henv, hlt, rfl⟩
  | loadConstant hi' | load hi' | pop hi' | jump hi' | jumpIfFalse hi' | enterScope hi' | exitScope hi'
  | loadFunction hi' | callPrimitive hi' | tailCallPrimitive hi' | callClosure hi' | tailCallClosure hi'
  | ret hi' => cases hi.symm.trans hi'

/-- Closures are made by one instruction only. -/
theorem Move.new_closure {program : Program} {c c' : Core} (h : Move program c c') {l env : Loc}
    {arity entry capacity : Nat} (hge : c.nodes.length ≤ l)
    (hn : c'.nodes[l]? = some (.closure (some env) arity entry capacity)) :
    program.code[c.pc]? = some (.loadFunction arity entry capacity) ∧ env = c.env := by
  have hmem : Node.closure (some env) arity entry capacity ∈ c'.nodes.drop c.nodes.length := by
    apply List.mem_of_getElem?
    rw [List.getElem?_drop, Nat.add_sub_cancel' hge, hn]
  cases h with
  | loadFunction hi henv hs =>
    rw [List.drop_set_of_lt (lt_of_getElem? hs), List.drop_left, List.mem_singleton] at hmem
    cases hmem
    exact ⟨hi, rfl⟩
  | loadConstant hi hs | callPrimitive hi hs =>
    rw [List.drop_set_of_lt (lt_of_getElem? hs), List.drop_left, List.mem_singleton] at hmem
    cases hmem
  | load hi _ _ _ hs | assign hi _ hs | pop hi hs | jumpIfFalse hi hs =>
    rw [List.drop_set_of_lt (lt_of_getElem? hs), List.drop_length] at hmem
    cases hmem
  | jump | exitScope =>
    rw [List.drop_length] at hmem
    cases hmem
  | enterScope => simp at hmem
  | callClosure hi hs | tailCallClosure hi hs =>
    rw [← List.length_set, List.drop_left] at hmem
    simp at hmem
  | ret hi hs _ _ _ hstack =>
    rw [List.drop_set_of_lt (lt_of_getElem? hstack), List.drop_set_of_lt (lt_of_getElem? hs),
      List.drop_length] at hmem
    cases hmem
  | tailCallPrimitive hi hs _ _ _ _ _ _ _ _ hstack =>
    rw [List.drop_set_of_lt (lt_of_getElem? hstack), List.drop_set_of_lt (lt_of_getElem? hs), List.drop_left,
      List.mem_singleton] at hmem
    cases hmem

section

variable {program : Program} {scopes : List Scope} {σ : Loc → Scope} {c c' : Core} {outer : Scopes}
  {inner : List Underway} {envs blocks control others : List Loc}

theorem Account.bound_next (h : Account program scopes σ c outer inner envs blocks control others)
    (hmove : Move program c c') {σ' : Loc → Scope} (hσ : ∀ l < c.nodes.length, σ' l = σ l) :
    AllBound program scopes σ' c'.nodes := by
  have hlater : ∃ used, Later True used c.nodes c'.nodes := hmove.later fun _ _ => trivial
  obtain ⟨used, hl⟩ := hlater
  refine h.bound.later hσ hl fun l n hge hn => ?_
  cases n with
  | closure env arity entry capacity =>
    cases env with
    | none => trivial
    | some env =>
      obtain ⟨hi, rfl⟩ := hmove.new_closure hge hn
      obtain ⟨⟨parameters, hbody⟩, -⟩ := h.site.of_loadFunction hi
      exact ⟨_, parameters, h.chain.later hσ hl, hbody⟩
  | _ => trivial

/-- The activation goes on in its environment. -/
theorem Account.proceed (h : Account program scopes σ c outer inner envs blocks control others)
    (hmove : Move program c c') (hi : ∀ a, program.code[c.pc]? ≠ some (.assign a)) (henv : c'.env = c.env)
    (hcontrol : c'.control = c.control) (hsite : Site program scopes outer inner c'.pc) :
    Accounted program scopes σ c' := by
  obtain ⟨used, hl⟩ := hmove.later hi
  refine ⟨outer, inner, envs, blocks, control, others, h.bound_next hmove fun _ _ => rfl, ?_, ?_, ?_,
    h.paused.later (fun _ _ => rfl) hl, h.apart, hsite⟩
  · rw [henv]
    exact h.chain.later (fun _ _ => rfl) hl
  · rw [henv]
    exact h.inside.later (fun _ _ => rfl) hl
  · rw [hcontrol, h.frames]

/-- An assignment to a constant finds no value there. -/
theorem Account.unassigned (h : Account program scopes σ c outer inner envs blocks control others) {a : Address}
    {env : Loc} {slots : List (Option Loc)} {around : Option Loc} {b : Binding}
    (hi : program.code[c.pc]? = some (.assign a))
    (hwalk : outward c.env a.frame c.nodes = .ok (some env) c.nodes)
    (henv : c.nodes[env]? = some (.environment slots around)) (hb : (σ env)[a.slot]? = some b)
    (hconstant : b.constant = true) : slots[a.slot]? = some none := by
  rcases h.site.of_assign hi with ⟨scope, b', hscope, hb', hvariable, -⟩ | ⟨u, rest, rfl, rfl, -⟩
  · cases hscope.symm.trans (h.chain.walk hwalk)
    cases hb.symm.trans hb'
    rw [hconstant] at hvariable
    cases hvariable
  · obtain rfl : c.env = env := by simpa [outward] using hwalk
    cases h.inside with
    | cons henv' hscope hpending _ _ =>
      cases henv.symm.trans henv'
      exact hpending (Nat.le_refl _) (hscope ▸ hb) hconstant

theorem Account.assign (h : Account program scopes σ c outer inner envs blocks control others) {a : Address}
    {env v : Loc} {slots : List (Option Loc)} {around : Option Loc}
    (hi : program.code[c.pc]? = some (.assign a))
    (hwalk : outward c.env a.frame c.nodes = .ok (some env) c.nodes)
    (henv : c.nodes[env]? = some (.environment slots around))
    (hmove : Move program c { c with
      nodes := c.nodes.set env (.environment (slots.set a.slot (some v)) around), pc := c.pc + 1 }) :
    Accounted program scopes σ { c with
      nodes := c.nodes.set env (.environment (slots.set a.slot (some v)) around), pc := c.pc + 1 } := by
  have hbound := h.bound_next hmove fun _ _ => rfl
  have hl : Later True [] c.nodes (c.nodes.set env (.environment (slots.set a.slot (some v)) around)) :=
    .set henv (.slots trivial (List.length_set ..))
  rcases h.site.of_assign hi with ⟨scope, b, hscope, hb, hvariable, hsite⟩ | ⟨u, rest, rfl, rfl, hsite⟩
  · -- the walk leads where the compiler looked, and it found a variable there
    cases hscope.symm.trans (h.chain.walk hwalk)
    have hvariable : ∀ b', (σ env)[a.slot]? = some b' → b'.constant = false := by
      intro b' hb'
      cases hb.symm.trans hb'
      exact hvariable
    exact ⟨outer, inner, envs, blocks, control, others, hbound, h.chain.later (fun _ _ => rfl) hl,
      h.inside.assign henv fun _ => hvariable, h.frames, h.paused.assign henv fun _ => hvariable, h.apart,
      hsite⟩
  · obtain rfl : c.env = env := by simpa [outward] using hwalk
    obtain ⟨-, hchain, hinside, hframes, hpaused, hapart, -⟩ := h
    cases hinside with
    | @cons _ _ _ outer' frame _ envs' blocks' henv' hscope hpending hframe hrest =>
      cases henv.symm.trans henv'
      -- no one else has entered this environment
      have hout := (List.nodup_cons.mp hapart).1
      have hout : c.env ∉ envs' ∧ c.env ∉ others := by simpa using hout
      refine ⟨outer, carryOut 1 (u :: rest), c.env :: envs', frame :: blocks', control, others, hbound,
        ?_, .cons (List.getElem?_set_self (lt_of_getElem? henv)) hscope hpending.declare ?_
          (hrest.assign henv fun hmem => absurd hmem hout.1), hframes,
        hpaused.assign henv fun hmem => absurd hmem hout.2, hapart, hsite⟩
      · rw [inSight_carryOut]
        exact hchain.later (fun _ _ => rfl) hl
      · exact hl.keep hframe (by simp [Node.kind]) (by simp [Node.kind])

/-- A scope is entered. The new environment is for that scope. -/
theorem Account.enter (h : Account program scopes σ c outer inner envs blocks control others) {slots : Nat}
    (hi : program.code[c.pc]? = some (.enterScope slots))
    (hmove : Move program c { c with
      nodes := c.nodes ++ [.blockFrame (some c.env), .environment (List.replicate slots none) (some c.env)]
      pc := c.pc + 1, env := c.nodes.length + 1, control := c.nodes.length :: c.control }) :
    ∃ σ', (∀ l < c.nodes.length, σ' l = σ l) ∧
      program.scopeAt scopes c.pc = some (σ' (c.nodes.length + 1)) ∧
      Accounted program scopes σ' { c with
        nodes := c.nodes ++ [.blockFrame (some c.env), .environment (List.replicate slots none) (some c.env)]
        pc := c.pc + 1, env := c.nodes.length + 1, control := c.nodes.length :: c.control } := by
  obtain ⟨scope, rfl, hscope, hsite⟩ := h.site.of_enterScope hi
  have hσ : ∀ l < c.nodes.length, Function.update σ (c.nodes.length + 1) scope l = σ l :=
    fun l hlt => Function.update_of_ne (Nat.ne_of_lt (Nat.lt_succ_of_lt hlt)) _ _
  have hnew : Function.update σ (c.nodes.length + 1) scope (c.nodes.length + 1) = scope :=
    Function.update_self ..
  refine ⟨Function.update σ (c.nodes.length + 1) scope, hσ, hscope.trans (congrArg some hnew.symm), ?_⟩
  have hl : Later False [] c.nodes (c.nodes ++
      [.blockFrame (some c.env), .environment (List.replicate scope.length none) (some c.env)]) := .append ..
  have henv : (c.nodes ++ [.blockFrame (some c.env),
      .environment (List.replicate scope.length none) (some c.env)])[c.nodes.length + 1]? =
        some (.environment (List.replicate scope.length none) (some c.env)) := by simp
  have hpending : Underway.Pending ⟨scope, 0⟩ (List.replicate scope.length none) := by
    intro k b _ hb _
    have hlt : k < scope.length := (List.getElem?_eq_some_iff.mp hb).1
    simp [hlt]
  have hchain := Scoped.cons henv (h.chain.later hσ hl)
  rw [hnew] at hchain
  refine ⟨outer, ⟨scope, 0⟩ :: inner, (c.nodes.length + 1) :: envs, c.nodes.length :: blocks, control, others,
    h.bound_next hmove hσ, hchain, .cons henv hnew hpending (by simp) (h.inside.later hσ hl), ?_,
    h.paused.later hσ hl, ?_, hsite⟩
  · rw [List.cons_append, ← h.frames]
  · refine List.nodup_cons.mpr ⟨fun hmem => ?_, h.apart⟩
    have hlt := (List.forall_mem_append.mpr ⟨h.inside.lt, h.paused.lt⟩) _ hmem
    exact absurd hlt (Nat.not_lt.mpr (Nat.le_succ _))

theorem Account.leave (h : Account program scopes σ c outer inner envs blocks control others) {frame env : Loc}
    {rest : List Loc} (hi : program.code[c.pc]? = some .exitScope) (hc : c.control = frame :: rest)
    (hframe : c.nodes[frame]? = some (.blockFrame (some env))) :
    Accounted program scopes σ { c with pc := c.pc + 1, env := env, control := rest } := by
  obtain ⟨u, inner', rfl, hsite⟩ := h.site.of_exitScope hi
  obtain ⟨hbound, hchain, hinside, hframes, hpaused, hapart, -⟩ := h
  cases hinside with
  | @cons _ _ _ outer' frame' slots envs' blocks' henv hscope hpending hframe' hrest =>
    obtain ⟨rfl, rfl⟩ := List.cons.inj (hc.symm.trans hframes)
    cases hframe.symm.trans hframe'
    exact ⟨outer, inner', envs', blocks', control, others, hbound, hchain.around henv, hrest, rfl, hpaused,
      (List.nodup_cons.mp hapart).2, hsite⟩

/-! ### Calls and returns -/

/-- A function begins in an environment for its parameters, and has entered no scope yet. -/
theorem Account.call (h : Account program scopes σ c outer inner envs blocks control others)
    (hmove : Move program c c') (hi : ∀ a, program.code[c.pc]? ≠ some (.assign a))
    (hi' : ∀ slots, program.code[c.pc]? ≠ some (.enterScope slots)) {callee env : Loc}
    {arity entry capacity : Nat} (hcallee : c.nodes[callee]? = some (.closure (some env) arity entry capacity))
    {operands : Node} {slots : List (Option Loc)} {more : List Node}
    (hnodes : c'.nodes = c.nodes.set c.stack operands ++ .environment slots (some env) :: more)
    (henv : c'.env = c.nodes.length) (hpc : c'.pc = entry) {others' : List Loc}
    (hpaused : ∀ σ', (∀ l < c.nodes.length, σ' l = σ l) →
      Paused program scopes σ' c'.nodes c'.control others') (hapart : others'.Nodup) :
    ∃ σ', (∀ l < c.nodes.length, σ' l = σ l) ∧ Accounted program scopes σ' c' ∧
      ∀ slots, program.code[c.pc]? = some (.enterScope slots) →
        program.scopeAt scopes c.pc = some (σ' c'.env) := by
  obtain ⟨used, hl⟩ := hmove.later hi
  obtain ⟨outer', parameters, hchain, hsite⟩ := h.bound hcallee
  have hσ : ∀ l < c.nodes.length, Function.update σ c.nodes.length parameters l = σ l :=
    fun l hlt => Function.update_of_ne (Nat.ne_of_lt hlt) _ _
  have hnew : c'.nodes[c.nodes.length]? = some (.environment slots (some env)) := by simp [hnodes]
  have hchain' := Scoped.cons hnew (hchain.later hσ hl)
  rw [Function.update_self] at hchain'
  refine ⟨_, hσ, ⟨parameters :: outer', [], [], [], c'.control, others', h.bound_next hmove hσ, ?_, .nil, rfl,
    hpaused _ hσ, hapart, hpc ▸ hsite⟩, fun slots henter => absurd henter (hi' slots)⟩
  rw [henv]
  exact hchain'

/-- The caller goes on where it was. -/
theorem Account.back (h : Account program scopes σ c outer inner envs blocks control others)
    (hmove : Move program c c') (hi : ∀ a, program.code[c.pc]? ≠ some (.assign a)) {frame env stack : Loc}
    {address : Nat} {blocks' rest : List Loc} (hc : c.control = blocks' ++ frame :: rest)
    (hb : ∀ l ∈ blocks', ∃ env, c.nodes[l]? = some (.blockFrame env))
    (hframe : c.nodes[frame]? = some (.callFrame (some env) (some stack) address)) (henv : c'.env = env)
    (hpc : c'.pc = address) (hcontrol : c'.control = rest) : Accounted program scopes σ c' := by
  obtain ⟨used, hl⟩ := hmove.later hi
  have hsame : ∀ l < c.nodes.length, σ l = σ l := fun _ _ => rfl
  have hpaused := h.paused
  rw [h.paused.control_eq (h.frames.symm.trans hc) h.inside.isBlock hb hframe rfl] at hpaused
  have hapart := (List.nodup_append.mp h.apart).2.1
  cases hpaused with
  | @call outer' inner' _ _ _ _ envs' others' blocks'' control'' hframe' chain inside site rest =>
    cases hframe.symm.trans hframe'
    subst henv hpc
    exact ⟨outer', inner', envs', blocks'', control'', others', h.bound_next hmove hsame,
      chain.later hsame hl, inside.later hsame hl, hcontrol, rest.later hsame hl, hapart, site⟩

end

/-! ### Every move -/

/-- **Whatever a move does, there is an account of it.** Environments that there were are still for the same
scopes, and a scope that is entered gets an environment of its own. -/
theorem Accounted.move {program : Program} {scopes : List Scope} {σ : Loc → Scope} {c c' : Core}
    (h : Accounted program scopes σ c) (hmove : Move program c c') :
    ∃ σ', (∀ l < c.nodes.length, σ' l = σ l) ∧ Accounted program scopes σ' c' ∧
      ∀ slots, program.code[c.pc]? = some (.enterScope slots) →
        program.scopeAt scopes c.pc = some (σ' c'.env) := by
  obtain ⟨outer, inner, envs, blocks, control, others, h⟩ := h
  have hmove' := hmove
  cases hmove with
  | loadConstant hi | load hi | pop hi | callPrimitive hi =>
    refine ⟨σ, fun _ _ => rfl, ?_, by simp [hi]⟩
    exact h.proceed hmove' (by simp [hi]) rfl rfl (h.site.of_plain hi trivial)
  | assign hi hwalk henv =>
    exact ⟨σ, fun _ _ => rfl, h.assign hi hwalk henv hmove', by simp [hi]⟩
  | jump hi =>
    refine ⟨σ, fun _ _ => rfl, ?_, by simp [hi]⟩
    exact h.proceed hmove' (by simp [hi]) rfl rfl (h.site.of_jump hi)
  | @jumpIfFalse _ _ b _ _ hi =>
    refine ⟨σ, fun _ _ => rfl, ?_, by simp [hi]⟩
    exact h.proceed hmove' (by simp [hi]) rfl rfl (h.site.of_jumpIfFalse hi b)
  | enterScope hi =>
    obtain ⟨σ', hσ, hscope, hnext⟩ := h.enter hi hmove'
    exact ⟨σ', hσ, hnext, fun _ _ => hscope⟩
  | exitScope hi hc hframe => exact ⟨σ, fun _ _ => rfl, h.leave hi hc hframe, by simp [hi]⟩
  | loadFunction hi =>
    refine ⟨σ, fun _ _ => rfl, ?_, by simp [hi]⟩
    exact h.proceed hmove' (by simp [hi]) rfl rfl (h.site.of_loadFunction hi).2
  | ret hi hs hc hb hframe =>
    exact ⟨σ, fun _ _ => rfl, h.back hmove' (by simp [hi]) hc hb hframe rfl rfl rfl, by simp [hi]⟩
  | tailCallPrimitive hi hs hcallee hid harity hargs hm hc hb hframe =>
    exact ⟨σ, fun _ _ => rfl, h.back hmove' (by simp [hi]) hc hb hframe rfl rfl rfl, by simp [hi]⟩
  | callClosure hi hs hcallee =>
    -- the caller waits in front of its next instruction
    have hquiet : ∀ a, program.code[c.pc]? ≠ some (.assign a) := by simp [hi]
    obtain ⟨used, hl⟩ := hmove'.later hquiet
    refine h.call hmove' hquiet (by simp [hi]) hcallee rfl rfl rfl (fun σ' hσ => ?_) h.apart
    rw [h.frames]
    refine .call (?_ : _ = some (Node.callFrame (some c.env) (some c.stack) (c.pc + 1))) (h.chain.later hσ hl)
      (h.inside.later hσ hl) (h.site.of_plain hi trivial) (h.paused.later hσ hl)
    simp
  | tailCallClosure hi hs hcallee _ _ hc hb hframe hk =>
    -- the caller is gone, and only those wait that have waited before
    have hquiet : ∀ a, program.code[c.pc]? ≠ some (.assign a) := by simp [hi]
    obtain ⟨used, hl⟩ := hmove'.later hquiet
    have hapart := (List.nodup_append.mp h.apart).2.1
    refine h.call hmove' hquiet (by simp [hi]) hcallee rfl rfl rfl (fun σ' hσ => ?_) hapart
    rw [← h.paused.control_eq (h.frames.symm.trans hc) h.inside.isBlock hb hframe hk]
    exact h.paused.later hσ hl

/-! ## Constants keep their values -/

section

variable {program : Program} {scopes : List Scope} {σ : Loc → Scope} {c c' : Core}

/-- Only the scopes of nodes that there are matter. -/
theorem Accounted.congr (h : Accounted program scopes σ c) {σ' : Loc → Scope}
    (hσ : ∀ l < c.nodes.length, σ' l = σ l) : Accounted program scopes σ' c := by
  obtain ⟨outer, inner, envs, blocks, control, others, h⟩ := h
  have hl : Later False [] c.nodes c.nodes := .refl ..
  refine ⟨outer, inner, envs, blocks, control, others, h.bound.later hσ hl fun l n hge hn => ?_,
    h.chain.later hσ hl, h.inside.later hσ hl, h.frames, h.paused.later hσ hl, h.apart, h.site⟩
  exact absurd (lt_of_getElem? hn) (Nat.not_lt.mpr hge)

/-- **An assignment finds no value in the slot of a constant.** -/
theorem Accounted.unassigned (h : Accounted program scopes σ c) {a : Address} {env : Loc}
    {slots : List (Option Loc)} {outer : Option Loc} {b : Binding}
    (hi : program.code[c.pc]? = some (.assign a))
    (hwalk : outward c.env a.frame c.nodes = .ok (some env) c.nodes)
    (henv : c.nodes[env]? = some (.environment slots outer)) (hb : (σ env)[a.slot]? = some b)
    (hconstant : b.constant = true) : slots[a.slot]? = some none := by
  obtain ⟨outer', inner, envs, blocks, control, others, h⟩ := h
  exact h.unassigned hi hwalk henv hb hconstant

/-- So the value of a constant stays. -/
theorem Accounted.keeps (h : Accounted program scopes σ c) (hmove : Move program c c') {l v : Loc}
    {slots : List (Option Loc)} {outer : Option Loc} {k : Nat} {b : Binding}
    (hl : c.nodes[l]? = some (.environment slots outer)) (hb : (σ l)[k]? = some b)
    (hconstant : b.constant = true) (hv : slots[k]? = some (some v)) :
    ∃ slots', c'.nodes[l]? = some (.environment slots' outer) ∧ slots'[k]? = some (some v) := by
  by_cases hi : ∃ a, program.code[c.pc]? = some (.assign a)
  · obtain ⟨a, hi⟩ := hi
    obtain ⟨env, v', slots', outer', hwalk, henv, -, hnodes⟩ := hmove.of_assign hi
    rw [hnodes]
    by_cases heq : env = l
    · subst heq
      cases hl.symm.trans henv
      by_cases hk : a.slot = k
      · subst hk
        cases hv.symm.trans (h.unassigned hi hwalk henv hb hconstant)
      · exact ⟨_, List.getElem?_set_self (lt_of_getElem? henv), (List.getElem?_set_ne hk).trans hv⟩
    · exact ⟨slots, (List.getElem?_set_ne heq).trans hl, hv⟩
  · obtain ⟨used, hlater⟩ := hmove.later fun a ha => hi ⟨a, ha⟩
    exact ⟨slots, hlater.keep_quiet hl (by simp [Node.kind]), hv⟩

end

/-- At the start there are the globals, and nothing has been declared. -/
theorem accounted_boot {program : Program} {tree : Tree} (h : tree.toProgram Primitive.globals = .ok program) :
    Accounted program tree.scopes (fun _ => Primitive.all.map fun p => ⟨p.name, true⟩) (bootState program).core := by
  refine ⟨Primitive.globals, [], [], [], [], [], ?_, .cons (bootState_globals program) .nil, .nil, rfl, .main,
    List.nodup_nil, site_program h⟩
  intro l n hn
  have hmem := List.mem_of_getElem? hn
  simp only [State.core, bootState, globalNodes, List.cons_append, List.mem_cons, List.mem_append, List.mem_map,
    List.not_mem_nil, or_false] at hmem
  rcases hmem with rfl | ⟨id, _, rfl⟩ | rfl <;> trivial

end ClosureMachine.Ideal
