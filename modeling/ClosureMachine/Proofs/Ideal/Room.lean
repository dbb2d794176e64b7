import ClosureMachine.Proofs.Ideal.Machine

/-!
# More room

The room that the ideal machine is given matters in one place only, where a node is made; and there it
decides between one more node and the end of the run. So a run in little room is, step by step, the run in
more room, or it ends for want of memory (`Steady.mono`). And because a run that has come to its end has
made finitely many nodes, there is a room that is enough for it (`Steady.enough`).

Both are properties of actions that every handler inherits from its parts.
-/

set_option autoImplicit false

namespace ClosureMachine.Ideal

/-- The second room has space for everything that the first one has space for. -/
def Wider (room room' : Option Nat) : Prop :=
  ∀ ⦃n : Nat⦄, room' = some n → ∃ m, room = some m ∧ m ≤ n

theorem Wider.of_le {m n : Nat} (h : m ≤ n) : Wider (some m) (some n) := by
  rintro _ ⟨⟩
  exact ⟨m, rfl, h⟩

theorem Wider.unlimited (room : Option Nat) : Wider room none := by
  rintro n ⟨⟩

/-- The action ended for want of memory. -/
def Starved {ε σ α : Type} (kind : ε → FaultKind) : EStateM.Result ε σ α → Prop
  | .error e _ => kind e = .outOfMemory
  | .ok _ _ => False

/-- An action of which room decides only whether memory is enough. -/
structure Steady {ε σ α : Type} (kind : ε → FaultKind) (x : Option Nat → EStateM ε σ α) : Prop where
  mono : ∀ {room room'}, Wider room room' → ∀ s, Starved kind (x room s) ∨ x room s = x room' s
  enough : ∀ s, ∃ least, ∀ n, least ≤ n → x (some n) s = x none s

namespace Steady

section

variable {ε σ α β : Type} {kind : ε → FaultKind}

/-- An action that makes no nodes. -/
theorem const (x : EStateM ε σ α) : Steady kind fun _ => x where
  mono _ _ := .inr rfl
  enough _ := ⟨0, fun _ _ => rfl⟩

/-- Behind a throw no nodes are made. -/
theorem throw_bind (e : ε) (f : Option Nat → α → EStateM ε σ β) :
    Steady kind fun room => (throw e : EStateM ε σ α) >>= f room where
  mono _ _ := .inr rfl
  enough _ := ⟨0, fun _ _ => rfl⟩

theorem bind {x : Option Nat → EStateM ε σ α} {f : Option Nat → α → EStateM ε σ β}
    (hx : Steady kind x) (hf : ∀ a, Steady kind fun room => f room a) :
    Steady kind fun room => x room >>= f room where
  mono {room room'} hw s := by
    simp only [Actions.bind_apply]
    rcases hx.mono hw s with hstarved | heq
    · left
      cases hr : x room s <;> rw [hr] at hstarved
      · exact hstarved.elim
      · exact hstarved
    · rw [← heq]
      cases x room s with
      | ok a s' => exact (hf a).mono hw s'
      | error e s' => exact .inr rfl
  enough s := by
    obtain ⟨least, hleast⟩ := hx.enough s
    cases hr : x none s with
    | error e s' =>
      refine ⟨least, fun n hn => ?_⟩
      simp only [Actions.bind_apply, hleast n hn, hr]
    | ok a s' =>
      obtain ⟨least', hleast'⟩ := (hf a).enough s'
      refine ⟨max least least', fun n hn => ?_⟩
      simp only [Actions.bind_apply, hleast n (by omega), hr]
      exact hleast' n (by omega)

theorem ite {c : Prop} [Decidable c] {x y : Option Nat → EStateM ε σ α} (hx : Steady kind x)
    (hy : Steady kind y) : Steady kind fun room => if c then x room else y room := by
  by_cases hc : c
  · simpa only [hc, if_true] using hx
  · simpa only [hc, if_false] using hy

end

/-- Making a node is the one place where room matters. -/
theorem allocate_mono {room room' : Option Nat} (hw : Wider room room') (roots : List Loc) (n : Node)
    (nodes : List Node) :
    (∃ limit, Ideal.allocate room roots n nodes =
        .error (shortage limit (live nodes roots) n.size)) ∨
      Ideal.allocate room roots n nodes = Ideal.allocate room' roots n nodes := by
  cases hr : Ideal.allocate room roots n nodes with
  | error e =>
    obtain ⟨limit, rfl⟩ := allocate_error hr
    exact .inl ⟨limit, rfl⟩
  | ok nodes' =>
    right
    cases room' with
    | none =>
      cases room with
      | none => exact hr.symm
      | some r =>
        simp only [Ideal.allocate] at hr ⊢
        split at hr
        · simp at hr
        · exact hr.symm
    | some r' =>
      obtain ⟨r, rfl, hle⟩ := hw rfl
      simp only [Ideal.allocate] at hr ⊢
      split at hr
      · simp at hr
      · rw [if_neg (by omega)]
        exact hr.symm

theorem allocate_enough (roots : List Loc) (n : Node) (nodes : List Node) :
    ∃ least, ∀ r, least ≤ r →
      Ideal.allocate (some r) roots n nodes = Ideal.allocate none roots n nodes := by
  refine ⟨live nodes roots + n.size, fun r hr => ?_⟩
  simp only [Ideal.allocate]
  rw [if_neg (by omega)]

theorem fresh (n : Node) : Steady Fault.kind fun room => Ideal.fresh room n where
  mono {room room'} hw s := by
    unfold Ideal.fresh
    rcases allocate_mono hw s.roots n s.nodes with ⟨limit, herr⟩ | heq
    · left
      rw [herr]
      exact kind_shortage ..
    · right
      rw [heq]
  enough s := by
    obtain ⟨least, hleast⟩ := allocate_enough s.roots n s.nodes
    refine ⟨least, fun r hr => ?_⟩
    unfold Ideal.fresh
    rw [hleast r hr]

theorem make (roots : List Loc) (n : Node) :
    Steady Fault.kindOfHeapError fun room => Ideal.make room roots n where
  mono {room room'} hw s := by
    unfold Ideal.make
    rcases allocate_mono hw roots n s with ⟨limit, herr⟩ | heq
    · left
      rw [herr]
      exact kind_shortage ..
    · right
      rw [heq]
  enough s := by
    obtain ⟨least, hleast⟩ := allocate_enough roots n s
    refine ⟨least, fun r hr => ?_⟩
    unfold Ideal.make
    rw [hleast r hr]

/-! ## Instructions -/

theorem callPrimitive (callee : Loc) (n : Nat) (tail : Bool) :
    Steady Fault.kind fun room => Ideal.callPrimitive room callee n tail := by
  refine bind (const _) fun id => ?_
  cases Primitive.ofId? id with
  | none => exact const _
  | some p =>
    refine ite (throw_bind _ _) ?_
    refine bind (const _) fun operands => ?_
    refine bind (const _) fun _ => ?_
    refine bind (const _) fun result => ?_
    exact bind (fresh _) fun _ => const _

theorem newFrame (tail : Bool) : Steady Fault.kind fun room => Ideal.newFrame room tail := by
  cases tail with
  | true => exact const _
  | false =>
    refine bind (const get) fun s => ?_
    exact bind (fresh _) fun _ => const _

theorem callClosure (callee : Loc) (n : Nat) (tail : Bool) :
    Steady Fault.kind fun room => Ideal.callClosure room callee n tail := by
  refine bind (const _) fun arity => bind (const _) fun entry => bind (const _) fun capacity => ?_
  refine ite (throw_bind _ _) ?_
  refine bind (fresh _) fun env => bind (const _) fun _ => ?_
  refine bind (fresh _) fun stack => bind (const _) fun _ => ?_
  exact bind (newFrame tail) fun frame => const _

theorem call (n : Nat) (tail : Bool) : Steady Fault.kind fun room => Ideal.call room n tail := by
  refine bind (const get) fun s => bind (const _) fun callee => bind (const _) fun kind => ?_
  cases kind with
  | primitive => exact callPrimitive callee n tail
  | closure => exact callClosure callee n tail
  | _ => exact const _

theorem enterScope (slots : Nat) : Steady Fault.kind fun room => Ideal.enterScope room slots := by
  refine bind (fresh _) fun frame => ?_
  refine bind (const get) fun s => bind (const _) fun _ => bind (const _) fun _ => ?_
  exact bind (fresh _) fun env => const _

theorem execute (i : Instruction) : Steady Fault.kind fun room => Ideal.execute room i := by
  cases i with
  | loadConstant value => exact bind (bind (fresh _) fun _ => const _) fun _ => const _
  | enterScope slots => exact bind (enterScope slots) fun _ => const _
  | loadFunction arity entry stack => exact bind (bind (fresh _) fun _ => const _) fun _ => const _
  | call n => exact bind (call n false) fun _ => const _
  | tailCall n => exact bind (call n true) fun _ => const _
  | _ => exact const _

/-! ## Booting -/

theorem loadPrimitives (globals : Loc) (id n : Nat) :
    Steady Fault.kindOfHeapError fun room => Ideal.loadPrimitives room globals id n := by
  induction n generalizing id with
  | zero => exact const _
  | succ n ih => exact bind (make _ _) fun node => bind (const _) fun _ => ih (id + 1)

theorem loadGlobals (mainStack : Nat) :
    Steady Fault.kindOfHeapError fun room => Ideal.loadGlobals room mainStack := by
  refine bind (make _ _) fun globals => bind (loadPrimitives globals 0 _) fun _ => ?_
  exact bind (make _ _) fun stack => const _

end Steady

/-! ## Turns and runs -/

/-- The failure is that memory was not enough. -/
def OutOfMemory {α : Type} : Except Failure α → Prop
  | .error f => f.fault.kind = .outOfMemory
  | .ok _ => False

theorem turn_mono {room room' : Option Nat} (hw : Wider room room') (limit : Option Nat)
    (program : Program) (s : State) :
    OutOfMemory (turn room limit program s).1 ∨
      turn room limit program s = turn room' limit program s := by
  unfold turn
  cases program.code[s.pc]? with
  | none => exact .inr rfl
  | some i =>
    have hsteady := Steady.bind (Steady.const (countStep limit)) fun _ => Steady.execute i
    dsimp only
    rcases hsteady.mono hw s with hstarved | heq
    · left
      cases hr : (countStep limit >>= fun _ => execute room i) s <;> rw [hr] at hstarved
      · exact hstarved.elim
      · simpa [OutOfMemory, Failure.ofFault, Starved] using hstarved
    · right
      rw [show (do countStep limit; execute room i : Act _) s = _ from heq]

theorem turn_enough (limit : Option Nat) (program : Program) (s : State) :
    ∃ least, ∀ n, least ≤ n → turn (some n) limit program s = turn none limit program s := by
  unfold turn
  cases program.code[s.pc]? with
  | none => exact ⟨0, fun _ _ => rfl⟩
  | some i =>
    have hsteady := Steady.bind (Steady.const (countStep limit)) fun _ => Steady.execute i
    obtain ⟨least, hleast⟩ := hsteady.enough s
    refine ⟨least, fun n hn => ?_⟩
    dsimp only
    rw [show (do countStep limit; execute (some n) i : Act _) s = _ from hleast n hn]

/-- A run in little room ends for want of memory, or goes as in more room. -/
theorem follow_mono {room room' : Option Nat} (hw : Wider room room') (limit : Option Nat)
    (program : Program) (fuel : Nat) (s : State) :
    (∃ out s', follow (turn room limit program) fuel s = some (out, s') ∧ OutOfMemory out) ∨
      follow (turn room limit program) fuel s = follow (turn room' limit program) fuel s := by
  induction fuel generalizing s with
  | zero => exact .inr rfl
  | succ fuel ih =>
    simp only [follow]
    rcases turn_mono hw limit program s with hout | heq
    · left
      rcases hr : turn room limit program s with ⟨out, s'⟩
      rw [hr] at hout
      cases out with
      | ok outcome => exact hout.elim
      | error f => exact ⟨_, _, rfl, hout⟩
    · rw [← heq]
      rcases turn room limit program s with ⟨out, s'⟩
      cases out with
      | error f => exact .inr rfl
      | ok outcome =>
        cases outcome with
        | none => exact ih s'
        | some answer => exact .inr rfl

/-- For as many turns as one likes there is a room that is enough. -/
theorem follow_enough (limit : Option Nat) (program : Program) (fuel : Nat) (s : State) :
    ∃ least, ∀ n, least ≤ n →
      follow (turn (some n) limit program) fuel s = follow (turn none limit program) fuel s := by
  induction fuel generalizing s with
  | zero => exact ⟨0, fun _ _ => rfl⟩
  | succ fuel ih =>
    obtain ⟨least, hleast⟩ := turn_enough limit program s
    obtain ⟨least', hleast'⟩ := ih (turn none limit program s).2
    refine ⟨max least least', fun n hn => ?_⟩
    simp only [follow, hleast n (by omega)]
    rcases hr : turn none limit program s with ⟨out, s'⟩
    rw [hr] at hleast'
    cases out with
    | error f => rfl
    | ok outcome =>
      cases outcome with
      | none => exact hleast' n (by omega)
      | some answer => rfl

theorem boot_mono {room room' : Option Nat} (hw : Wider room room') (program : Program) :
    (∃ e, boot room program = .error e ∧ Fault.kindOfHeapError e = .outOfMemory) ∨
      boot room program = boot room' program := by
  unfold boot
  rcases (Steady.loadGlobals program.mainStack).mono hw [] with hstarved | heq
  · left
    cases hr : loadGlobals room program.mainStack [] <;> rw [hr] at hstarved
    · exact hstarved.elim
    · exact ⟨_, rfl, hstarved⟩
  · rw [heq]
    exact .inr rfl

theorem boot_enough (program : Program) :
    ∃ least, ∀ n, least ≤ n → boot (some n) program = boot none program := by
  obtain ⟨least, hleast⟩ := (Steady.loadGlobals program.mainStack).enough []
  refine ⟨least, fun n hn => ?_⟩
  unfold boot
  rw [hleast n hn]

end ClosureMachine.Ideal
