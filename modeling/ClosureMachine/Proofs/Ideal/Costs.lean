import ClosureMachine.Proofs.Ideal.Moves
import ClosureMachine.Proofs.Ideal.Room

/-!
# What a move costs

Moves need room where they make nodes, and how much can be said exactly. `Needs program c k` says that a turn
from the core `c` finds memory short in less than `k` words, and only there. What is within reach has
to have its place, and beside it the nodes that the instruction makes.
-/

set_option autoImplicit false

namespace ClosureMachine.Ideal

/-! ## What is within reach -/

section

variable {nodes : List Node} {roots roots' : List Loc} {n : Node}

/-- A new node that refers to nothing new is the only one to come within reach. -/
theorem reaches_append (hroots : ∀ l, l ∈ roots' ↔ l = nodes.length ∨ l ∈ roots)
    (hrefs : ∀ l ∈ n.refs, Reaches nodes roots l) (l : Loc) :
    Reaches (nodes ++ [n]) roots' l ↔ l = nodes.length ∨ Reaches nodes roots l := by
  constructor
  · intro h
    induction h with
    | root hl => exact ((hroots _).mp hl).imp_right .root
    | @child k l m _ hm hc ih =>
      right
      by_cases hlt : k < nodes.length
      · rw [List.getElem?_append_left hlt] at hm
        exact .child (ih.resolve_left (Nat.ne_of_lt hlt)) hm hc
      · have hle := (List.getElem?_eq_some_iff.mp hm).1
        rw [List.length_append, List.length_singleton] at hle
        obtain rfl : k = nodes.length := Nat.le_antisymm (Nat.lt_succ_iff.mp hle) (Nat.not_lt.mp hlt)
        rw [List.getElem?_concat_length] at hm
        cases hm
        exact hrefs l hc
  · rintro (rfl | h)
    · exact .root ((hroots _).mpr (.inl rfl))
    · induction h with
      | root hl => exact .root ((hroots _).mpr (.inr hl))
      | child _ hm hc ih =>
        exact .child ih ((List.getElem?_append_left (List.getElem?_eq_some_iff.mp hm).1).trans hm) hc

/-- It takes its own size. -/
theorem live_append (hroots : ∀ l, l ∈ roots' ↔ l = nodes.length ∨ l ∈ roots)
    (hrefs : ∀ l ∈ n.refs, Reaches nodes roots l) :
    live (nodes ++ [n]) roots' = live nodes roots + n.size := by
  classical
  have hnew : Reaches (nodes ++ [n]) roots' nodes.length :=
    (reaches_append hroots hrefs _).mpr (.inl rfl)
  have hold : (Finset.range nodes.length).filter (Reaches (nodes ++ [n]) roots') =
      (Finset.range nodes.length).filter (Reaches nodes roots) := by
    refine Finset.filter_congr fun l hl => ?_
    rw [reaches_append hroots hrefs, or_iff_right (Nat.ne_of_lt (Finset.mem_range.mp hl))]
  have hwords : ∀ l ∈ (Finset.range nodes.length).filter (Reaches nodes roots),
      wordsOf (nodes ++ [n]) l = wordsOf nodes l := by
    intro l hl
    have hlt : l < nodes.length := Finset.mem_range.mp (Finset.mem_filter.mp hl).1
    rw [wordsOf, wordsOf, List.getElem?_append_left hlt]
  rw [live, live, List.length_append, List.length_singleton, Finset.range_add_one, Finset.filter_insert,
    if_pos hnew, Finset.sum_insert (by simp), hold, Finset.sum_congr rfl hwords,
    wordsOf_eq (List.getElem?_concat_length ..), Nat.add_comm]

end

/-! ## Costs of actions -/

/-- In less than `k` words the action finds memory short, and only there. -/
def Costs {α : Type} (x : Option Nat → Act α) (s : State) (k : Nat) : Prop :=
  ∀ r, Starved Fault.kind (x (some r) s) ↔ r < k

section

variable {α β : Type} {s s' : State} {k k' : Nat} {n : Node}

theorem fresh_enough {r : Nat} (h : live s.nodes s.roots + n.size ≤ r) :
    fresh (some r) n s = .ok s.nodes.length (s.add n) := by
  rw [fresh, allocate, if_neg (Nat.not_lt.mpr h)]
  rfl

theorem fresh_starved {r : Nat} (h : r < live s.nodes s.roots + n.size) :
    fresh (some r) n s = .error (.heap (shortage r (live s.nodes s.roots) n.size)) s := by
  rw [fresh, allocate, if_pos h]

namespace Costs

theorem congr {x y : Option Nat → Act α} (h : ∀ room, x room s = y room s') (hy : Costs y s' k) :
    Costs x s k := by
  intro r
  rw [h]
  exact hy r

/-- What comes first may be known. -/
theorem after {x : Act α} {f : Option Nat → α → Act β} {a : α} (hx : x s = .ok a s')
    (hf : Costs (fun room => f room a) s' k) : Costs (fun room => x >>= f room) s k :=
  congr (fun _ => Actions.bind_ok hx) hf

/-- A node is made, and more may follow. -/
theorem fresh_bind {f : Option Nat → Loc → Act β}
    (hf : Costs (fun room => f room s.nodes.length) (s.add n) k) :
    Costs (fun room => fresh room n >>= f room) s (max (live s.nodes s.roots + n.size) k) := by
  intro r
  show Starved Fault.kind ((fresh (some r) n >>= f (some r)) s) ↔ _
  rw [lt_max_iff]
  by_cases h : r < live s.nodes s.roots + n.size
  · rw [Actions.bind_error (fresh_starved h)]
    exact iff_of_true (kind_shortage ..) (.inl h)
  · rw [Actions.bind_ok (fresh_enough (Nat.not_lt.mp h)), hf r, or_iff_right h]

/-- A node is made, and it is the last one. -/
theorem fresh_last {f : Loc → Act β} {b : β} (hok : (fresh none n >>= f) s = .ok b s') :
    Costs (fun room => fresh room n >>= f) s (live s.nodes s.roots + n.size) := by
  have hrest : f s.nodes.length (s.add n) = .ok b s' := hok
  intro r
  show Starved Fault.kind ((fresh (some r) n >>= f) s) ↔ _
  by_cases h : r < live s.nodes s.roots + n.size
  · rw [Actions.bind_error (fresh_starved h)]
    exact iff_of_true (kind_shortage ..) h
  · rw [Actions.bind_ok (fresh_enough (Nat.not_lt.mp h)), hrest]
    exact iff_of_false id h

/-- The instruction as a whole. -/
theorem execute {x : Option Nat → Act Unit} (hx : Costs x s k) :
    Costs (fun room => do x room; return (none : Option Answer)) s k := by
  intro r
  show Starved Fault.kind ((x (some r) >>= fun _ => pure none) s) ↔ _
  rw [← hx r, Actions.bind_apply]
  cases x (some r) s <;> rfl

end Costs

end

/-! ## Costs of turns -/

/-- From where everything in use can be reached, as long as nothing is pinned. -/
def Core.roots (c : Core) : List Loc := c.env :: c.stack :: c.control.reverse

theorem roots_eq {s : State} (h : s.pinned = []) : s.roots = s.core.roots := by
  simp [State.roots, Core.roots, State.core, h]

/-- A turn finds memory short in less than `k` words, and only there. -/
def Needs (program : Program) (c : Core) (k : Nat) : Prop :=
  ∀ s : State, s.core = c → s.pinned = [] → ∀ r,
    OutOfMemory (turn (some r) none program s).1 ↔ r < k

section

variable {program : Program} {c c' : Core} {i : Instruction} {k : Nat}

theorem Needs.of_costs (hi : program.code[c.pc]? = some i) (hstep : Step program c c')
    (h : ∀ s : State, s.core = c → s.pinned = [] → ∀ s', execute none i s = .ok none s' →
      Costs (fun room => execute room i) s k) : Needs program c k := by
  intro s hs hpinned r
  subst hs
  obtain ⟨s', hturn, -⟩ := hstep s rfl
  rw [turn_eq none hi] at hturn
  rw [turn_eq (some r) hi]
  cases hx : execute none i { s with steps := s.steps + 1 } with
  | error e s'' =>
    rw [hx] at hturn
    cases hturn
  | ok outcome s'' =>
    rw [hx] at hturn
    cases hturn
    have hcost : Starved Fault.kind (execute (some r) i { s with steps := s.steps + 1 }) ↔ r < k :=
      h { s with steps := s.steps + 1 } rfl hpinned _ hx r
    rw [← hcost]
    cases execute (some r) i { s with steps := s.steps + 1 } with
    | ok outcome s' => exact Iff.rfl
    | error e s' => simp [OutOfMemory, Starved, Failure.ofFault]

/-- What an instruction does before it returns. -/
theorem ok_of_return {x : Act Unit} {s s' : State} {o : Option Answer}
    (h : (do x; return o : Act (Option Answer)) s = .ok o s') : ∃ s'', x s = .ok () s'' := by
  rw [Actions.bind_apply] at h
  cases hx : x s with
  | ok u s'' => exact ⟨s'', rfl⟩
  | error e s'' =>
    rw [hx] at h
    cases h

/-! ### Instructions that make no nodes -/

theorem needs_nothing (hi : program.code[c.pc]? = some i) (hfrugal : ∀ room, execute room i = execute none i)
    (hstep : Step program c c') : Needs program c 0 := by
  refine Needs.of_costs hi hstep fun s _ _ s' hx r => ?_
  show Starved Fault.kind (execute (some r) i s) ↔ _
  rw [hfrugal, hx]
  exact iff_of_false id (Nat.not_lt_zero r)

/-! ### Constants, functions and scopes -/

section

variable {operands : List Loc} {free : Nat}

theorem needs_loadConstant {value : Literal} (hi : program.code[c.pc]? = some (.loadConstant value))
    (hs : c.nodes[c.stack]? = some (.operandStack operands (free + 1))) :
    Needs program c (live c.nodes c.roots + (Node.boxed value).size) := by
  refine Needs.of_costs hi (step_loadConstant hi hs) ?_
  rintro s rfl hpinned s' hx
  obtain ⟨s'', hok⟩ := ok_of_return hx
  rw [← roots_eq hpinned]
  exact Costs.execute (Costs.fresh_last hok)

theorem needs_loadFunction {arity entry capacity : Nat} {names : List (Option Loc)} {outer : Option Loc}
    (hi : program.code[c.pc]? = some (.loadFunction arity entry capacity))
    (henv : c.nodes[c.env]? = some (.environment names outer))
    (hs : c.nodes[c.stack]? = some (.operandStack operands (free + 1))) :
    Needs program c (live c.nodes c.roots + (Node.closure none arity entry capacity).size) := by
  refine Needs.of_costs hi (step_loadFunction hi henv hs) ?_
  rintro s rfl hpinned s' hx
  obtain ⟨s'', hok⟩ := ok_of_return hx
  rw [← roots_eq hpinned]
  exact Costs.execute (Costs.fresh_last hok)

/-- The frame of a scope is within reach, and keeps nothing there that was not. -/
theorem live_withBlock {s : State} (hpinned : s.pinned = []) :
    live s.withBlock.nodes s.withBlock.roots =
      live s.nodes s.roots + (Node.blockFrame (some s.env)).size := by
  refine live_append (fun l => ?_) fun l hl => ?_
  · simp only [State.withBlock, State.roots, State.add, hpinned, List.reverse_cons, List.reverse_nil,
      List.append_nil, List.mem_cons, List.mem_append, List.not_mem_nil, or_false]
    tauto
  · simp [Node.refs, Node.cells, Node.linkCell] at hl
    exact .root (hl ▸ List.mem_cons_self)

theorem needs_enterScope {slots : Nat} {names : List (Option Loc)} {outer : Option Loc}
    (hi : program.code[c.pc]? = some (.enterScope slots))
    (henv : c.nodes[c.env]? = some (.environment names outer)) :
    Needs program c (live c.nodes c.roots + (Node.blockFrame none).size +
      (Node.environment (List.replicate slots none) none).size) := by
  refine Needs.of_costs hi (step_enterScope hi henv) ?_
  rintro s rfl hpinned s' hx
  obtain ⟨s'', hok⟩ := ok_of_return hx
  rw [← roots_eq hpinned]
  refine Costs.execute fun r => ?_
  by_cases h : r < live s.nodes s.roots + (Node.blockFrame none).size
  · have hstarved : enterScope (some r) slots s = .error _ s := Actions.bind_error (fresh_starved h)
    rw [hstarved]
    exact iff_of_true (kind_shortage ..) (Nat.lt_add_right _ h)
  · rw [enterScope_eq (some r) henv (fresh_enough (Nat.not_lt.mp h))]
    rw [enterScope_eq none henv rfl] at hok
    have hlast := Costs.fresh_last hok r
    rw [live_withBlock hpinned] at hlast
    exact hlast

/-! ### Calls -/

variable {callee : Loc} {locs : List Loc} {tail : Bool}

/-- The operands are gone before the result is there. -/
theorem needs_callPrimitive {args : List Argument} {p : Primitive} {id : Nat} {value : Literal}
    (hi : program.code[c.pc]? = some (callInstruction tail locs.length))
    (hs : c.nodes[c.stack]? = some (.operandStack (locs ++ callee :: operands) free))
    (hcallee : c.nodes[callee]? = some (.primitive id)) (hid : Primitive.ofId? id = some p)
    (harity : p.arity = locs.length) (hargs : List.Forall₂ (HasArgument c.nodes) locs args)
    (hm : p.meaning args.reverse = .ok value) (hstep : Step program c c') :
    Needs program c
      (live (c.nodes.set c.stack (.operandStack operands (free + locs.length + 1))) c.roots +
        (Node.boxed value).size) := by
  refine Needs.of_costs hi hstep ?_
  rintro s rfl hpinned s' hx
  have hcall : ∀ room, call room locs.length tail s =
      (do push (← fresh room (.boxed value)); if tail then returnFromCall else advance : Act Unit)
        { s.put s.stack (.operandStack operands (free + locs.length + 1)) with
          output := s.output ++ p.shows args.reverse } := fun room =>
    (call_primitive room hs hcallee).trans (callPrimitive_result room hs hcallee hid harity hargs hm)
  rw [execute_callInstruction] at hx
  obtain ⟨s'', hok⟩ := ok_of_return hx
  rw [hcall] at hok
  have hcost := Costs.congr hcall (Costs.fresh_last hok)
  simp only [execute_callInstruction]
  rw [← roots_eq hpinned]
  exact Costs.execute hcost

/-- The state with a new node that is pinned. -/
def State.pinNew (s : State) (n : Node) : State :=
  { s.add n with pinned := s.nodes.length :: s.pinned }

theorem live_pinNew {s : State} {n : Node} (hrefs : n.refs = []) :
    live (s.pinNew n).nodes (s.pinNew n).roots = live s.nodes s.roots + n.size := by
  refine live_append (fun l => ?_) (by simp [hrefs])
  simp only [State.pinNew, State.roots, State.add, List.reverse_cons, List.mem_cons, List.mem_append,
    List.not_mem_nil, or_false]
  tauto

/-- A frame, or none, and nothing after it. -/
theorem costs_newFrame {s s' : State} {f : Option Loc → Act Unit}
    (hok : (newFrame none tail >>= f) s = .ok () s') :
    ∃ k, Costs (fun room => newFrame room tail >>= f) s k ∧
      max (live s.nodes s.roots) k = live s.nodes s.roots +
        if tail then 0 else (Node.callFrame none none 0).size := by
  cases tail with
  | true =>
    refine ⟨0, fun r => ?_, Nat.max_zero _⟩
    show Starved Fault.kind ((newFrame none true >>= f) s) ↔ _
    rw [hok]
    exact iff_of_false id (Nat.not_lt_zero r)
  | false =>
    have hframe : ∀ room, (newFrame room false >>= f) s =
        (fresh room (.callFrame none none (s.pc + 1)) >>= fun l => f (some l)) s := by
      intro room
      simp only [newFrame, Actions.bind_apply, Actions.get_apply, Bool.false_eq_true, if_false]
      cases fresh room (.callFrame none none (s.pc + 1)) s <;> rfl
    rw [hframe] at hok
    exact ⟨_, Costs.congr hframe (Costs.fresh_last hok), Nat.max_eq_right (Nat.le_add_right _ _)⟩

theorem needs_callClosure {env : Loc} {entry capacity : Nat}
    (hi : program.code[c.pc]? = some (callInstruction tail locs.length))
    (hs : c.nodes[c.stack]? = some (.operandStack (locs ++ callee :: operands) free))
    (hcallee : c.nodes[callee]? = some (.closure (some env) locs.length entry capacity))
    (hstep : Step program c c') :
    Needs program c (live c.nodes c.roots +
      (Node.environment (List.replicate locs.length none) none).size +
      (Node.operandStack [] capacity).size + if tail then 0 else (Node.callFrame none none 0).size) := by
  refine Needs.of_costs hi hstep ?_
  rintro s rfl hpinned s' hx
  have hcall : ∀ room, call room locs.length tail s = _ := fun room =>
    (call_closure room hs hcallee).trans (callClosure_takes room hcallee)
  rw [execute_callInstruction] at hx
  obtain ⟨s'', hok⟩ := ok_of_return hx
  rw [hcall] at hok
  -- the states after the first node and after the second
  let s₁ := s.pinNew (.environment (List.replicate locs.length none) none)
  let s₂ := s₁.pinNew (.operandStack [] capacity)
  have hlive₁ : live s₁.nodes s₁.roots = _ := live_pinNew (by simp [Node.refs, Node.cells, Node.slotCell,
    Node.linkCell])
  have hlive₂ : live s₂.nodes s₂.roots = _ := live_pinNew (by simp [Node.refs, Node.cells])
  have hrest : (newFrame none tail >>= fun frame => do
      let stack ← unpin
      let env ← unpin
      enterClosure locs.length entry frame stack env) s₂ = .ok () s'' := hok
  obtain ⟨k, hframe, hmax⟩ := costs_newFrame hrest
  have hcost := Costs.congr hcall
    (Costs.fresh_bind (Costs.after rfl (Costs.fresh_bind (Costs.after rfl hframe))))
  have htotal : max (live s.nodes s.roots + (Node.environment (List.replicate locs.length none) none).size)
      (max (live s₁.nodes s₁.roots + (Node.operandStack [] capacity).size) k) =
        live s.nodes s.roots + (Node.environment (List.replicate locs.length none) none).size +
          (Node.operandStack [] capacity).size + if tail then 0 else (Node.callFrame none none 0).size := by
    rw [hlive₂] at hmax
    rw [hmax, hlive₁, Nat.add_assoc _ (Node.size _) (ite _ _ _)]
    exact Nat.max_eq_right (Nat.le_add_right _ _)
  simp only [execute_callInstruction]
  rw [← roots_eq hpinned]
  exact Costs.execute (htotal ▸ hcost)

end

end

end ClosureMachine.Ideal
