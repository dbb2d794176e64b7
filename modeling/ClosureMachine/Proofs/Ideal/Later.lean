import ClosureMachine.Proofs.Ideal.Node

/-!
# Nodes that change

Nodes change while a program runs, but not in every way. `Later` says how: an environment keeps its size and
its place in the chain, some operand stacks may be used, and all else stays what it is.
-/

set_option autoImplicit false

namespace ClosureMachine.Ideal

/-- Old nodes are where they were. -/
theorem append_old {nodes more : List Node} {l : Loc} {n : Node} (hn : nodes[l]? = some n) :
    (nodes ++ more)[l]? = some n := by
  rw [List.getElem?_append_left (List.getElem?_eq_some_iff.mp hn).1, hn]

/-- What may become of a node. -/
inductive Becomes (used written : Prop) : Node → Node → Prop
  | same (n : Node) : Becomes used written n n
  | operands {ops ops' : List Loc} {free free' : Nat} : used →
      Becomes used written (.operandStack ops free) (.operandStack ops' free')
  | slots {slots slots' : List (Option Loc)} {outer : Option Loc} : written →
      slots'.length = slots.length →
      Becomes used written (.environment slots outer) (.environment slots' outer)

/-- The second list of nodes is what the first one has become. Operand stacks other than those given were
not used; whether slots of environments were assigned to is a matter of `written`. -/
def Later (written : Prop) (used : List Loc) (nodes nodes' : List Node) : Prop :=
  ∀ ⦃l : Loc⦄ ⦃n : Node⦄, nodes[l]? = some n →
    ∃ n', nodes'[l]? = some n' ∧ Becomes (l ∈ used) written n n'

namespace Later

variable {written written' : Prop} {used used' : List Loc} {nodes nodes' nodes'' : List Node}
  {l stack : Loc} {n : Node}

theorem refl (written : Prop) (used : List Loc) (nodes : List Node) :
    Later written used nodes nodes :=
  fun _ n hn => ⟨n, hn, .same n⟩

theorem trans (h : Later written used nodes nodes') (h' : Later written used nodes' nodes'') :
    Later written used nodes nodes'' := by
  intro l n hn
  obtain ⟨n', hn', hb⟩ := h hn
  obtain ⟨n'', hn'', hb'⟩ := h' hn'
  refine ⟨n'', hn'', ?_⟩
  cases hb with
  | same => exact hb'
  | operands hu => cases hb' <;> exact .operands hu
  | slots hw hlen =>
    cases hb' with
    | same => exact .slots hw hlen
    | slots _ hlen' => exact .slots hw (hlen'.trans hlen)

theorem mono (hw : written → written') (hs : ∀ l ∈ used, l ∈ used')
    (h : Later written used nodes nodes') : Later written' used' nodes nodes' := by
  intro l n hn
  obtain ⟨n', hn', hb⟩ := h hn
  refine ⟨n', hn', ?_⟩
  cases hb with
  | same => exact .same n
  | operands hu => exact .operands (hs l hu)
  | slots h hlen => exact .slots (hw h) hlen

/-- A stack that was not there need not be mentioned. -/
theorem drop (h : Later written (stack :: used) nodes nodes') (hstack : nodes.length ≤ stack) :
    Later written used nodes nodes' := by
  intro l n hn
  obtain ⟨n', hn', hb⟩ := h hn
  refine ⟨n', hn', ?_⟩
  cases hb with
  | same => exact .same n
  | slots h hlen => exact .slots h hlen
  | operands hu =>
    have hlt : l < nodes.length := (List.getElem?_eq_some_iff.mp hn).1
    have hne : l ≠ stack := Nat.ne_of_lt (Nat.lt_of_lt_of_le hlt hstack)
    exact .operands ((List.mem_cons.mp hu).resolve_left hne)

theorem length_le (h : Later written used nodes nodes') : nodes.length ≤ nodes'.length := by
  by_contra hlt
  rw [Nat.not_le] at hlt
  obtain ⟨n', hn', -⟩ := h (List.getElem?_eq_getElem hlt)
  rw [List.getElem?_eq_none (Nat.le_refl _)] at hn'
  cases hn'

theorem append (written : Prop) (used : List Loc) (nodes more : List Node) :
    Later written used nodes (nodes ++ more) := by
  intro l n hn
  exact ⟨n, append_old hn, .same n⟩

/-- One node is replaced. -/
theorem set {m m' : Node} (hl : nodes[l]? = some m) (hb : Becomes (l ∈ used) written m m') :
    Later written used nodes (nodes.set l m') := by
  intro k n hn
  by_cases hk : l = k
  · subst hk
    obtain rfl : m = n := Option.some.inj (hl.symm.trans hn)
    exact ⟨m', List.getElem?_set_self (List.getElem?_eq_some_iff.mp hn).1, hb⟩
  · exact ⟨n, (List.getElem?_set_ne hk).trans hn, .same n⟩

/-- An operand stack is used. -/
theorem use {ops ops' : List Loc} {free free' : Nat} (hs : nodes[stack]? = some (.operandStack ops free))
    (hmem : stack ∈ used) : Later written used nodes (nodes.set stack (.operandStack ops' free')) :=
  set hs (.operands hmem)

/-- Nodes that can change in neither way are the same. -/
theorem keep (h : Later written used nodes nodes') (hn : nodes[l]? = some n)
    (hs : n.kind ≠ .operandStack) (he : n.kind ≠ .environment) : nodes'[l]? = some n := by
  obtain ⟨n', hn', hb⟩ := h hn
  cases hb with
  | same => exact hn'
  | operands => exact absurd rfl hs
  | slots => exact absurd rfl he

theorem keep_callFrame {env stack : Option Loc} {address : Nat} (h : Later written used nodes nodes')
    (hn : nodes[l]? = some (.callFrame env stack address)) : nodes'[l]? = some (.callFrame env stack address) :=
  h.keep hn nofun nofun

theorem keep_stack {ops : List Loc} {free : Nat} (h : Later written used nodes nodes')
    (hn : nodes[l]? = some (.operandStack ops free)) (hl : l ∉ used) :
    nodes'[l]? = some (.operandStack ops free) := by
  obtain ⟨n', hn', hb⟩ := h hn
  cases hb with
  | same => exact hn'
  | operands hu => exact absurd hu hl

theorem keep_environment {slots : List (Option Loc)} {outer : Option Loc}
    (h : Later written used nodes nodes') (hn : nodes[l]? = some (.environment slots outer)) :
    ∃ slots', slots'.length = slots.length ∧ nodes'[l]? = some (.environment slots' outer) := by
  obtain ⟨n', hn', hb⟩ := h hn
  cases hb with
  | same => exact ⟨slots, rfl, hn'⟩
  | slots _ hlen => exact ⟨_, hlen, hn'⟩

/-- If nothing was assigned, environments are the same too. -/
theorem keep_quiet (h : Later False used nodes nodes') (hn : nodes[l]? = some n)
    (hs : n.kind ≠ .operandStack) : nodes'[l]? = some n := by
  obtain ⟨n', hn', hb⟩ := h hn
  cases hb with
  | same => exact hn'
  | operands => exact absurd rfl hs
  | slots hw => exact hw.elim

end Later

end ClosureMachine.Ideal
