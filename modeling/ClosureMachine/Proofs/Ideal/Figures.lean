import ClosureMachine.Proofs.Ideal.Effects

/-!
# Figures of a run

A machine counts its steps and remembers how many frames have waited at once, at most. Hardly any action has to do with
these figures. Which of them an action keeps is said here for one figure that can be either, for all actions that keep
both.
-/

set_option autoImplicit false

namespace ClosureMachine.Ideal

variable {α β : Type}

/-- The state at the end of an action, whether it succeeded or not. -/
def stateOf : EStateM.Result Fault State α → State
  | .ok _ s => s
  | .error _ s => s

structure Figures where
  steps : Nat
  peakDepth : Nat

def State.figures (s : State) : Figures := ⟨s.steps, s.peakDepth⟩

/-- The figure stays, however the action ends. -/
def Keeps (figure : Figures → Nat) (x : Act α) : Prop := ∀ s, figure (stateOf (x s)).figures = figure s.figures

namespace Keeps

variable {figure : Figures → Nat} {x : Act α} {f : α → Act β}

theorem pure (a : α) : Keeps figure (pure a) := fun _ => rfl

theorem throw (e : Fault) : Keeps figure (throw e : Act α) := fun _ => rfl

theorem get : Keeps figure (get : Act State) := fun _ => rfl

theorem modify {g : State → State} (hg : ∀ s, figure (g s).figures = figure s.figures) : Keeps figure (modify g) := hg

theorem bind (hx : Keeps figure x) (hf : ∀ a, Keeps figure (f a)) : Keeps figure (x >>= f) := by
  intro s
  have hs := hx s
  rw [Actions.bind_apply]
  cases hxs : x s with
  | ok a s' =>
    rw [hxs] at hs
    exact (hf a s').trans hs
  | error e s' =>
    rw [hxs] at hs
    exact hs

theorem ite {c : Prop} [Decidable c] {y : Act α} (hx : Keeps figure x) (hy : Keeps figure y) :
    Keeps figure (if c then x else y) := by
  split
  · exact hx
  · exact hy

/-- A check in front of an action. -/
theorem checked {c : Prop} [Decidable c] {e : Fault} (hx : Keeps figure x) :
    Keeps figure (if c then (MonadExcept.throw e : Act Unit) >>= fun _ => x else x) :=
  .ite (.bind (.throw e) fun _ => hx) hx

/-- What is done to nodes has nothing to do with figures. -/
theorem lift (y : NodeM α) : Keeps figure (liftM y : Act α) := by
  intro s
  rw [lift_apply]
  cases y s.nodes <;> rfl

theorem fresh (room : Option Nat) (n : Node) : Keeps figure (fresh room n) := by
  intro s
  unfold Ideal.fresh
  cases allocate room s.roots n s.nodes <;> rfl

theorem push (value : Loc) : Keeps figure (push value) := .bind .get fun _ => .lift _

theorem pop : Keeps figure pop := .bind .get fun _ => .lift _

theorem popOperands (rest : List Argument) (n : Nat) : Keeps figure (popOperands rest n) := by
  induction n generalizing rest with
  | zero => exact .pure _
  | succ n ih => exact .bind .pop fun _ => .bind (.lift _) fun _ => ih _

theorem popFrame : Keeps figure popFrame := by
  refine .bind .get fun s => ?_
  cases s.control with
  | nil => exact .throw _
  | cons frame rest => exact .bind (.modify fun _ => rfl) fun _ => .pure _

theorem unwindBlocks (frames : List Loc) : Keeps figure (unwindBlocks frames) := by
  induction frames with
  | nil => exact .throw _
  | cons frame rest ih =>
    refine .bind (.lift _) fun kind => ?_
    cases kind with
    | callFrame => exact .pure _
    | blockFrame => exact .bind (.modify fun _ => rfl) fun _ => ih
    | _ => exact .throw _

theorem leaveBlocks : Keeps figure leaveBlocks := .bind .get fun _ => .unwindBlocks _

theorem returnFromCall : Keeps figure returnFromCall :=
  .bind .pop fun _ => .bind .leaveBlocks fun _ => .bind .popFrame fun _ =>
    .bind (.lift _) fun _ => .bind (.modify fun _ => rfl) fun _ =>
    .bind (.lift _) fun _ => .bind (.modify fun _ => rfl) fun _ =>
    .bind (.lift _) fun _ => .bind (.modify fun _ => rfl) fun _ => .push _

theorem applyPrimitive (p : Primitive) (args : List Argument) : Keeps figure (applyPrimitive p args) := by
  intro s
  unfold Ideal.applyPrimitive
  cases p.meaning args <;> rfl

theorem callPrimitive (room : Option Nat) (callee : Loc) (n : Nat) (tail : Bool) :
    Keeps figure (callPrimitive room callee n tail) := by
  refine .bind (.lift _) fun id => ?_
  cases Primitive.ofId? id with
  | none => exact .throw _
  | some p =>
    exact .checked <| .bind (.popOperands _ _) fun _ => .bind .pop fun _ => .bind (.applyPrimitive _ _) fun _ =>
      .bind (.fresh _ _) fun _ => .bind (.push _) fun _ => .ite .returnFromCall (.modify fun _ => rfl)

theorem moveArguments (env : Loc) (n : Nat) : Keeps figure (moveArguments env n) := by
  induction n with
  | zero => exact .pure _
  | succ n ih => exact .bind .pop fun _ => .bind (.lift _) fun _ => ih

theorem pin (node : Loc) : Keeps figure (pin node) := .bind .get fun _ => .modify fun _ => rfl

theorem unpin : Keeps figure unpin := by
  refine .bind .get fun s => ?_
  cases s.pinned with
  | nil => exact .throw _
  | cons node rest => exact .bind (.modify fun _ => rfl) fun _ => .pure _

theorem environmentAt (frames : Nat) : Keeps figure (environmentAt frames) := by
  refine .bind .get fun s => .bind (.lift _) fun env => ?_
  cases env with
  | none => exact .throw _
  | some env => exact .pure _

theorem load (source : Address) : Keeps figure (load source) := by
  refine .bind (.environmentAt _) fun _ => .bind (.lift _) fun value => ?_
  cases value with
  | none => exact .throw _
  | some value => exact .bind (.push _) fun _ => .modify fun _ => rfl

theorem jumpIfFalse (target : Nat) : Keeps figure (jumpIfFalse target) := by
  refine .bind .pop fun _ => .bind (.lift _) fun value => ?_
  split
  · exact .modify fun _ => rfl
  · exact .modify fun _ => rfl
  · exact .throw _

theorem finish : Keeps figure finish := by
  refine .bind .get fun _ => .bind (.lift _) fun _ => .checked <| .bind .pop fun _ => .bind (.lift _) fun argument => ?_
  cases argument <;> exact .pure _

theorem newFrame (room : Option Nat) (tail : Bool) : Keeps figure (newFrame room tail) := by
  unfold Ideal.newFrame
  cases tail with
  | true => exact .pure _
  | false => exact .bind .get fun _ => .bind (.fresh _ _) fun _ => .pure _

theorem typeNameOf (node : Loc) : Keeps figure (typeNameOf node) := by
  refine .bind .get fun s => ?_
  split <;> exact .pure _

/-- Instructions that put no frame on the control stack. -/
theorem execute (room : Option Nat) {i : Instruction} (hscope : ∀ slots, i ≠ .enterScope slots)
    (hcall : ∀ n, i ≠ .call n) (htail : ∀ n, i ≠ .tailCall n) : Keeps figure (execute room i) := by
  cases i with
  | loadConstant value =>
    exact .bind (.bind (.fresh _ _) fun _ => .bind (.push _) fun _ => .modify fun _ => rfl) fun _ => .pure _
  | load source => exact .bind (.load source) fun _ => .pure _
  | assign target =>
    exact .bind (.bind .get fun _ => .bind (.lift _) fun _ => .bind (.environmentAt _) fun _ =>
      .bind (.lift _) fun _ => .modify fun _ => rfl) fun _ => .pure _
  | jumpIfFalse target => exact .bind (.jumpIfFalse target) fun _ => .pure _
  | jump target => exact .bind (.modify fun _ => rfl) fun _ => .pure _
  | pop => exact .bind .pop fun _ => .bind (.modify fun _ => rfl) fun _ => .pure _
  | enterScope slots => exact absurd rfl (hscope slots)
  | exitScope =>
    exact .bind (.bind .popFrame fun _ => .bind (.lift _) fun _ => .bind (.lift _) fun _ =>
      .bind (.modify fun _ => rfl) fun _ => .modify fun _ => rfl) fun _ => .pure _
  | loadFunction arity entry stack =>
    exact .bind (.bind (.fresh _ _) fun _ => .bind .get fun _ => .bind (.lift _) fun _ =>
      .bind (.push _) fun _ => .modify fun _ => rfl) fun _ => .pure _
  | call n => exact absurd rfl (hcall n)
  | tailCall n => exact absurd rfl (htail n)
  | ret => exact .bind .returnFromCall fun _ => .pure _
  | done => exact .bind .finish fun _ => .pure _

end Keeps

/-! ## Steps

Frames that are put on the stack do not count as steps. -/

theorem keepsSteps_enterClosure (n entry : Nat) (frame : Option Loc) (stack env : Loc) :
    Keeps Figures.steps (enterClosure n entry frame stack env) := by
  have hsuspend : Keeps Figures.steps (suspend frame) := by
    cases frame with
    | none => exact .leaveBlocks
    | some frame =>
      exact .bind .get fun _ => .bind (.lift _) fun _ => .bind .get fun _ => .bind (.lift _) fun _ =>
        .bind (.modify fun _ => rfl) fun _ => .modify fun _ => rfl
  exact .bind (.moveArguments _ _) fun _ => .bind .pop fun _ => .bind (.lift _) fun _ => .bind (.lift _) fun _ =>
    .bind hsuspend fun _ => .bind (.modify fun _ => rfl) fun _ => .bind (.modify fun _ => rfl) fun _ =>
    .modify fun _ => rfl

theorem keepsSteps_call (room : Option Nat) (n : Nat) (tail : Bool) : Keeps Figures.steps (call room n tail) := by
  refine .bind .get fun _ => .bind (.lift _) fun callee => .bind (.lift _) fun kind => ?_
  cases kind with
  | primitive => exact .callPrimitive _ _ _ _
  | closure =>
    exact .bind (.lift _) fun _ => .bind (.lift _) fun _ => .bind (.lift _) fun _ => .checked <|
      .bind (.fresh _ _) fun _ => .bind (.pin _) fun _ => .bind (.fresh _ _) fun _ => .bind (.pin _) fun _ =>
      .bind (.newFrame _ _) fun _ => .bind .unpin fun _ => .bind .unpin fun _ => keepsSteps_enterClosure _ _ _ _ _
  | _ => exact .bind (.typeNameOf _) fun _ => .throw _

/-- No instruction changes the number of steps. -/
theorem keepsSteps_execute (room : Option Nat) (i : Instruction) : Keeps Figures.steps (execute room i) := by
  cases i with
  | enterScope slots =>
    exact .bind (.bind (.fresh _ _) fun _ => .bind .get fun _ => .bind (.lift _) fun _ =>
      .bind (.bind (.modify fun _ => rfl) fun _ => .modify fun _ => rfl) fun _ =>
      .bind (.fresh _ _) fun _ => .bind .get fun _ => .bind (.lift _) fun _ =>
      .bind (.modify fun _ => rfl) fun _ => .modify fun _ => rfl) fun _ => .pure _
  | call n => exact .bind (keepsSteps_call _ _ _) fun _ => .pure _
  | tailCall n => exact .bind (keepsSteps_call _ _ _) fun _ => .pure _
  | _ => exact .execute room nofun nofun nofun

/-- A step is counted, also if it is one too many. -/
theorem countStep_steps (limit : Option Nat) (s : State) : (stateOf (countStep limit s)).steps = s.steps + 1 := by
  cases limit with
  | none => rfl
  | some limit =>
    simp only [countStep, Actions.bind_apply, Actions.modify_apply, Actions.get_apply]
    split <;> rfl

/-- Every turn in which there is an instruction is one step, whatever comes of it. -/
theorem turn_steps (room limit : Option Nat) {program : Program} {s : State} {i : Instruction}
    (hi : program.code[s.pc]? = some i) : (turn room limit program s).2.steps = s.steps + 1 := by
  have hcount := countStep_steps limit s
  simp only [turn, hi, Actions.bind_apply]
  cases hc : countStep limit s with
  | error fault s₁ =>
    rw [hc] at hcount
    exact hcount
  | ok _ s₁ =>
    rw [hc] at hcount
    have hcount : s₁.steps = s.steps + 1 := hcount
    have hkeeps := keepsSteps_execute room i s₁
    dsimp only
    cases hx : execute room i s₁ with
    | error fault s₂ =>
      rw [hx] at hkeeps
      exact hkeeps.trans hcount
    | ok outcome s₂ =>
      rw [hx] at hkeeps
      exact hkeeps.trans hcount

end ClosureMachine.Ideal
