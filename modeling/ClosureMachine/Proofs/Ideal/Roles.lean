import ClosureMachine.Proofs.Ideal.Effects

/-!
# Every node where its kind belongs

A node plays a role: it is a value, an environment, an operand stack, a frame. Every place that can
hold a reference asks for a role, and `State.Sorted` says that every reference is to a node that plays
it. It is an invariant of the ideal machine for any code, and it holds of the states that failed
instructions leave behind, too.

Roles are kept: a closure that has its environment does not lose it, and no node changes its kind. So what
an action has learnt about a node stays true (`Grows`).

`Safe` is what one can say of an action in a state: that it keeps the invariant, what it ends with, how it can
fail, and what is pinned when it does.
-/

set_option autoImplicit false

namespace ClosureMachine.Ideal

/-! ## Roles -/

/-- What a node is for. -/
inductive Role where
  | value
  | environment
  | stack
  | frame
  /-- A frame of a call. -/
  | call
  /-- A closure with its environment. -/
  | closure
  /-- An environment of so many slots. -/
  | slots (n : Nat)
  /-- An environment that has a value in the slot. -/
  | assigned (slot : Nat)
  /-- The box of a value. -/
  | box (value : Literal)
  /-- A node of a kind, whether its links have been set or not. -/
  | kind (k : Kind)

def Node.Plays : Role → Node → Prop
  | .value, .boxed _ | .value, .closure (some _) .. | .value, .primitive _ => True
  | .environment, .environment .. => True
  | .stack, .operandStack .. => True
  | .frame, .callFrame (some _) (some _) _ | .frame, .blockFrame (some _) => True
  | .call, .callFrame (some _) (some _) _ => True
  | .closure, .closure (some _) .. => True
  | .slots n, .environment slots _ => slots.length = n
  | .assigned slot, .environment slots _ => ∃ v, slots[slot]? = some (some v)
  | .box value, .boxed value' => value' = value
  | .kind k, n => n.kind = k
  | _, _ => False

/-- The node of this name plays the role. -/
def InRole (nodes : List Node) (role : Role) (l : Loc) : Prop :=
  ∃ n, nodes[l]? = some n ∧ n.Plays role

/-- Nodes keep their roles. -/
def Grows (nodes nodes' : List Node) : Prop :=
  ∀ ⦃role : Role⦄ ⦃l : Loc⦄, InRole nodes role l → InRole nodes' role l

theorem Grows.refl (nodes : List Node) : Grows nodes nodes := fun _ _ h => h

theorem Grows.trans {nodes nodes' nodes'' : List Node} (h : Grows nodes nodes')
    (h' : Grows nodes' nodes'') : Grows nodes nodes'' := fun _ _ hp => h' (h hp)

theorem Grows.append (nodes : List Node) (n : Node) : Grows nodes (nodes ++ [n]) := by
  rintro role l ⟨n', hn', hp⟩
  refine ⟨n', ?_, hp⟩
  rw [List.getElem?_append_left (List.getElem?_eq_some_iff.mp hn').1]
  exact hn'

theorem Grows.set {nodes : List Node} {l : Loc} {n n' : Node} (hn : nodes[l]? = some n)
    (hkeep : ∀ role, n.Plays role → n'.Plays role) : Grows nodes (nodes.set l n') := by
  rintro role l' ⟨n₁, hn₁, hp⟩
  by_cases heq : l = l'
  · subst heq
    obtain rfl : n = n₁ := by simpa [hn] using hn₁
    have hlt := (List.getElem?_eq_some_iff.mp hn).1
    exact ⟨n', by simp [hlt], hkeep role hp⟩
  · exact ⟨n₁, by rw [List.getElem?_set_ne heq]; exact hn₁, hp⟩

/-! ## The invariant -/

/-- What the node refers to plays the roles that it should. -/
def Node.Sorted (nodes : List Node) : Node → Prop
  | .environment slots outer =>
    (∀ v, some v ∈ slots → InRole nodes .value v) ∧ ∀ o, outer = some o → InRole nodes .environment o
  | .closure env .. => ∀ e, env = some e → InRole nodes .environment e
  | .primitive _ => True
  | .callFrame env stack _ =>
    (∀ e, env = some e → InRole nodes .environment e) ∧ ∀ o, stack = some o → InRole nodes .stack o
  | .blockFrame env => ∀ e, env = some e → InRole nodes .environment e
  | .operandStack operands _ => ∀ v ∈ operands, InRole nodes .value v
  | .boxed _ => True

theorem Node.Sorted.mono {nodes nodes' : List Node} (hg : Grows nodes nodes') {n : Node}
    (h : n.Sorted nodes) : n.Sorted nodes' := by
  cases n with
  | environment slots outer => exact ⟨fun v hv => hg (h.1 v hv), fun o ho => hg (h.2 o ho)⟩
  | closure env arity entry stack => exact fun e he => hg (h e he)
  | primitive id => trivial
  | callFrame env stack returnAddress => exact ⟨fun e he => hg (h.1 e he), fun o ho => hg (h.2 o ho)⟩
  | blockFrame env => exact fun e he => hg (h e he)
  | operandStack operands room => exact fun v hv => hg (h v hv)
  | boxed value => trivial

/-- Every reference is to a node of the right role. -/
structure State.Sorted (s : State) : Prop where
  nodes : ∀ {l : Loc} {n : Node}, s.nodes[l]? = some n → n.Sorted s.nodes
  env : InRole s.nodes .environment s.env
  stack : InRole s.nodes .stack s.stack
  control : ∀ l ∈ s.control, InRole s.nodes .frame l
  pinned : ∀ l ∈ s.pinned, InRole s.nodes .environment l ∨ InRole s.nodes .stack l

theorem State.Sorted.withNodes {s : State} (hs : s.Sorted) {nodes : List Node}
    (hg : Grows s.nodes nodes) (hn : ∀ {l : Loc} {n : Node}, nodes[l]? = some n → n.Sorted nodes) :
    State.Sorted { s with nodes := nodes } where
  nodes := hn
  env := hg hs.env
  stack := hg hs.stack
  control l hl := hg (hs.control l hl)
  pinned l hl := (hs.pinned l hl).imp (fun h => hg h) fun h => hg h

/-- A node is replaced by one of the same roles. -/
theorem State.Sorted.put {s : State} (hs : s.Sorted) {l : Loc} {n₀ n : Node}
    (hn : s.nodes[l]? = some n₀) (hsorted : n.Sorted s.nodes)
    (hkeep : ∀ role, n₀.Plays role → n.Plays role) :
    (s.put l n).Sorted ∧ Grows s.nodes (s.put l n).nodes := by
  have hgrow := Grows.set hn hkeep
  refine ⟨hs.withNodes hgrow ?_, hgrow⟩
  intro l' n₁ hn₁
  by_cases heq : l = l'
  · subst heq
    have hlt := (List.getElem?_eq_some_iff.mp hn).1
    obtain rfl : n = n₁ := by simpa [hlt] using hn₁
    exact hsorted.mono hgrow
  · rw [List.getElem?_set_ne heq] at hn₁
    exact (hs.nodes hn₁).mono hgrow

theorem State.Sorted.add {s : State} (hs : s.Sorted) {n : Node} (hn : ∀ nodes, n.Sorted nodes) :
    (s.add n).Sorted ∧ Grows s.nodes (s.add n).nodes := by
  have hgrow := Grows.append s.nodes n
  refine ⟨hs.withNodes hgrow ?_, hgrow⟩
  intro l n₁ hn₁
  rcases Nat.lt_or_ge l s.nodes.length with hlt | hge
  · rw [List.getElem?_append_left hlt] at hn₁
    exact (hs.nodes hn₁).mono hgrow
  · have hle := (List.getElem?_eq_some_iff.mp hn₁).1
    rw [List.length_append] at hle
    obtain rfl : l = s.nodes.length := Nat.le_antisymm (Nat.lt_succ_iff.mp hle) hge
    obtain rfl : n = n₁ := by simpa using hn₁
    exact hn _

/-! ### What keeps its roles -/

theorem plays_operandStack {operands operands' : List Loc} {free free' : Nat} (role : Role)
    (h : (Node.operandStack operands free).Plays role) :
    (Node.operandStack operands' free').Plays role := by
  cases role <;> exact h

theorem plays_environment {slots slots' : List (Option Loc)} {outer outer' : Option Loc}
    (hlen : slots'.length = slots.length)
    (hkeep : ∀ (k : Nat) (v : Loc), slots[k]? = some (some v) → ∃ v', slots'[k]? = some (some v'))
    (role : Role)
    (h : (Node.environment slots outer).Plays role) : (Node.environment slots' outer').Plays role := by
  cases role with
  | slots n => exact hlen.trans h
  | assigned slot =>
    obtain ⟨v, hv⟩ := h
    exact hkeep slot v hv
  | _ => exact h

theorem plays_closure {env : Option Loc} {env' : Loc} {arity entry stack : Nat} (role : Role)
    (h : (Node.closure env arity entry stack).Plays role) :
    (Node.closure (some env') arity entry stack).Plays role := by
  cases role with
  | value | closure => trivial
  | _ => exact h

theorem plays_blockFrame {env : Option Loc} {env' : Loc} (role : Role)
    (h : (Node.blockFrame env).Plays role) : (Node.blockFrame (some env')).Plays role := by
  cases role with
  | frame => trivial
  | _ => exact h

theorem plays_callFrame {env env' stack stack' : Option Loc} {address : Nat}
    (he : env.isSome → env'.isSome) (ho : stack.isSome → stack'.isSome) (role : Role)
    (h : (Node.callFrame env stack address).Plays role) :
    (Node.callFrame env' stack' address).Plays role := by
  -- only two roles look at the links, and both ask for the two of them
  cases role with
  | frame | call =>
    cases env with
    | none => exact h.elim
    | some _ =>
      cases stack with
      | none => exact h.elim
      | some _ =>
        obtain ⟨_, rfl⟩ := Option.isSome_iff_exists.mp (he rfl)
        obtain ⟨_, rfl⟩ := Option.isSome_iff_exists.mp (ho rfl)
        trivial
  | _ => exact h

/-! ## Actions -/

/-- Carried out in `s`, the action keeps the invariant and ends as `Q` says. It fails with faults in
`E` only, and then `pins` is pinned, unless it is one that `leaks` when memory is short. -/
def Safe {β : Type} (E : Fault → Prop) (leaks : Prop) (pins : List Loc) (x : Act β) (s : State)
    (Q : β → State → Prop) : Prop :=
  match x s with
  | .ok b s' => s'.Sorted ∧ Grows s.nodes s'.nodes ∧ Q b s'
  | .error e s' => s'.Sorted ∧ Grows s.nodes s'.nodes ∧ E e ∧
      (s'.pinned = pins ∨ leaks ∧ e.kind = .outOfMemory)

namespace Safe

variable {β γ : Type} {E : Fault → Prop} {leaks : Prop} {pins : List Loc} {s : State} {Q : β → State → Prop}

theorem pure {b : β} (hs : s.Sorted) (hq : Q b s) : Safe E leaks pins (pure b) s Q :=
  ⟨hs, Grows.refl _, hq⟩

/-- Actions of which one knows what they do. -/
theorem of_eq {x : Act β} {b : β} {s' : State} (hx : x s = .ok b s')
    (hs' : s'.Sorted ∧ Grows s.nodes s'.nodes) (hq : Q b s') : Safe E leaks pins x s Q := by
  unfold Safe
  rw [hx]
  exact ⟨hs'.1, hs'.2, hq⟩

theorem throw {e : Fault} (hs : s.Sorted) (he : E e) (hp : s.pinned = pins) :
    Safe E leaks pins (throw e) s Q :=
  ⟨hs, Grows.refl _, he, .inl hp⟩

theorem throw_bind {e : Fault} {f : γ → Act β} (hs : s.Sorted) (he : E e) (hp : s.pinned = pins) :
    Safe E leaks pins ((MonadExcept.throw e : Act γ) >>= f) s Q :=
  ⟨hs, Grows.refl _, he, .inl hp⟩

theorem bind {x : Act β} {f : β → Act γ} {Q' : γ → State → Prop} (hx : Safe E leaks pins x s Q)
    (hf : ∀ {b s'}, s'.Sorted → Grows s.nodes s'.nodes → Q b s' → Safe E leaks pins (f b) s' Q') :
    Safe E leaks pins (x >>= f) s Q' := by
  unfold Safe at hx ⊢
  rw [Actions.bind_apply]
  cases hr : x s with
  | error e s' =>
    rw [hr] at hx
    exact hx
  | ok b s' =>
    rw [hr] at hx
    obtain ⟨hs', hg, hq⟩ := hx
    have hrest := hf hs' hg hq
    unfold Safe at hrest
    dsimp only
    cases hr' : f b s' with
    | error e s'' =>
      rw [hr'] at hrest
      exact ⟨hrest.1, hg.trans hrest.2.1, hrest.2.2⟩
    | ok c s'' =>
      rw [hr'] at hrest
      exact ⟨hrest.1, hg.trans hrest.2.1, hrest.2.2⟩

theorem mono {x : Act β} {E' : Fault → Prop} {Q' : β → State → Prop} (hx : Safe E leaks pins x s Q)
    (he : ∀ {e}, E e → E' e) (hq : ∀ {b s'}, Q b s' → Q' b s') : Safe E' leaks pins x s Q' := by
  unfold Safe at hx ⊢
  cases hr : x s with
  | error e s' =>
    rw [hr] at hx
    exact ⟨hx.1, hx.2.1, he hx.2.2.1, hx.2.2.2⟩
  | ok b s' =>
    rw [hr] at hx
    exact ⟨hx.1, hx.2.1, hq hx.2.2⟩

theorem ite {c : Prop} [Decidable c] {x y : Act β} (hx : c → Safe E leaks pins x s Q)
    (hy : ¬ c → Safe E leaks pins y s Q) : Safe E leaks pins (if c then x else y) s Q := by
  by_cases hc : c
  · rw [if_pos hc]
    exact hx hc
  · rw [if_neg hc]
    exact hy hc

theorem get_bind {f : State → Act β} (hf : Safe E leaks pins (f s) s Q) : Safe E leaks pins (get >>= f) s Q := hf

/-- Actions on the registers. -/
theorem modify {f : State → State} {Q : Unit → State → Prop} (hs : (f s).Sorted)
    (hn : (f s).nodes = s.nodes) (hq : Q () (f s)) : Safe E leaks pins (modify f) s Q :=
  ⟨hs, hn ▸ Grows.refl _, hq⟩

/-- Questions to a node. -/
theorem look {l : Loc} {n : Node} {ask : Node → Except HeapError β} (hs : s.Sorted)
    (hn : s.nodes[l]? = some n) (hp : s.pinned = pins)
    (hask : match ask n with
      | .ok b => Q b s
      | .error e => E (.heap e)) :
    Safe E leaks pins (liftM (Ideal.look l ask) : Act β) s Q := by
  simp only [Safe, liftM, monadLift, MonadLift.monadLift, Ideal.look, hn]
  cases ha : ask n with
  | ok b =>
    rw [ha] at hask
    exact ⟨hs, Grows.refl _, hask⟩
  | error e =>
    rw [ha] at hask
    exact ⟨hs, Grows.refl _, hask, .inl hp⟩

/-- Changes of a node. -/
theorem alter {l : Loc} {n : Node} {change : Node → Except HeapError (β × Node)} (hs : s.Sorted)
    (hn : s.nodes[l]? = some n) (hp : s.pinned = pins)
    (hchange : match change n with
      | .ok (b, n') => n'.Sorted s.nodes ∧ (∀ role, n.Plays role → n'.Plays role) ∧
          Q b (s.put l n')
      | .error e => E (.heap e)) :
    Safe E leaks pins (liftM (Ideal.alter l change) : Act β) s Q := by
  simp only [Safe, liftM, monadLift, MonadLift.monadLift, Ideal.alter, hn]
  cases ha : change n with
  | error e =>
    rw [ha] at hchange
    exact ⟨hs, Grows.refl _, hchange, .inl hp⟩
  | ok out =>
    obtain ⟨b, n'⟩ := out
    rw [ha] at hchange
    obtain ⟨hsorted, hkeep, hq⟩ := hchange
    obtain ⟨hs', hgrow⟩ := hs.put hn hsorted hkeep
    exact ⟨hs', hgrow, hq⟩

/-- New nodes. Only memory can be short, or the node too large for any memory. -/
theorem fresh {room : Option Nat} {n : Node} {Q : Loc → State → Prop} (hs : s.Sorted)
    (hp : s.pinned = pins ∨ leaks) (hn : ∀ nodes, n.Sorted nodes)
    (hmem : ∀ size available, E (.heap (.outOfMemory size available)))
    (hlarge : wordLimit ≤ n.size → E (.heap (.overflow .nodeSize))) (hq : Q s.nodes.length (s.add n)) :
    Safe E leaks pins (Ideal.fresh room n) s Q := by
  unfold Safe Ideal.fresh
  cases halloc : allocate room s.roots n s.nodes with
  | error e =>
    obtain ⟨limit, rfl⟩ := allocate_error halloc
    refine ⟨hs, Grows.refl _, ?_, hp.imp_right fun h => ⟨h, kind_shortage ..⟩⟩
    rcases shortage_cases limit (live s.nodes s.roots) n.size with heq | ⟨heq, hsize⟩
    · exact heq ▸ hmem _ _
    · exact heq ▸ hlarge hsize
  | ok nodes' =>
    obtain rfl := allocate_ok halloc
    obtain ⟨hs', hgrow⟩ := hs.add hn
    exact ⟨hs', hgrow, hq⟩

/-- New nodes of a kind with a fixed number of words. -/
theorem fresh_small {room : Option Nat} {n : Node} {Q : Loc → State → Prop} (hs : s.Sorted)
    (hp : s.pinned = pins ∨ leaks) (hn : ∀ nodes, n.Sorted nodes)
    (hmem : ∀ size available, E (.heap (.outOfMemory size available)))
    (hcells : n.cells.length ≤ 4) (hq : Q s.nodes.length (s.add n)) :
    Safe E leaks pins (Ideal.fresh room n) s Q :=
  fresh hs hp hn hmem (fun hlarge => absurd hlarge (Node.small_of_cells hcells)) hq

end Safe

end ClosureMachine.Ideal
