import ClosureMachine.Compile.Emit
import ClosureMachine.Proofs.Compile.Code

/-!
# Patches hit their own jumps

The compiler that writes code in one pass gives the programs that `Tree.compile` computes. The reason is that it only
ever adds code at the end: whatever is written between a jump and its patch, the jump still stands at the address that
was kept for it, still without a target. `Compiler.Writes` says this of an action, and is kept when actions are put
together.
-/

set_option autoImplicit false

namespace ClosureMachine

namespace Compiler

variable {c : Compiler} {written code : Code} {i : Instruction}

/-! ## Code behind code -/

/-- The compiler after it has written some more code. -/
def extend (c : Compiler) (code : Code) : Compiler := { c with code := c.code ++ code.toArray }

@[simp] theorem extend_nil (c : Compiler) : c.extend [] = c := by
  simp [extend]

@[simp] theorem extend_extend (c : Compiler) (code code' : Code) :
    (c.extend code).extend code' = c.extend (code ++ code') := by
  simp [extend]

@[simp] theorem functionDepth_extend (c : Compiler) (code : Code) :
    (c.extend code).functionDepth = c.functionDepth := rfl

@[simp] theorem size_extend (c : Compiler) (code : Code) :
    (c.extend code).code.size = c.code.size + code.length := by
  simp [extend]

/-- What stands behind so much code, and what becomes of the code if it is replaced. -/
theorem extend_at (c : Compiler) (front back : Code) (i i' : Instruction) :
    (c.extend (front ++ i :: back)).code[c.code.size + front.length]? = some i ∧
      { c.extend (front ++ i :: back) with code :=
        (c.extend (front ++ i :: back)).code.setIfInBounds (c.code.size + front.length) i' } =
      c.extend (front ++ i' :: back) := by
  constructor
  · simp [extend]
  · simp only [extend, mk.injEq, and_true]
    apply Array.toList_inj.mp
    simp

/-! ## Actions that write -/

/-- An action that starts when some code has been written behind what was there ends when the outcome is written
there, or it ends with the objection that the outcome is. -/
def Writes (c : Compiler) (written : Code) (act : CompileM Unit) : Except CompileError Code → Prop
  | .ok code => act (c.extend written) = .ok () (c.extend code)
  | .error e => ∃ c', act (c.extend written) = .error e c'

/-- The action writes so, wherever it starts at this address and inside so many functions. -/
def WritesAt (depth start : Nat) (act : CompileM Unit) (x : Except CompileError Code) : Prop :=
  ∀ c : Compiler, c.functionDepth = depth → c.code.size = start → c.Writes [] act x

/-! ## Single instructions -/

theorem emit_extend (i : Instruction) :
    Compiler.emit i (c.extend written) = .ok (c.code.size + written.length) (c.extend (written ++ [i])) := by
  simp [Compiler.emit, extend]

/-- **A patch hits its own jump**: the one that stands where it was written, with whatever was written behind it. -/
theorem patchJump_extend (front back : Code) {i' : Instruction}
    (hpatch : retarget (c.code.size + (front ++ i :: back).length) i = some i') :
    patchJump (c.code.size + front.length) (c.extend (front ++ i :: back)) =
      .ok () (c.extend (front ++ i' :: back)) := by
  obtain ⟨hfound, hset⟩ := extend_at c front back i i'
  simp only [patchJump, hfound, size_extend, hpatch, hset]

theorem patchEntry_extend (front back : Code) (arity entry stack : Nat) :
    patchEntry (c.code.size + front.length) (c.extend (front ++ .loadFunction arity entry stack :: back)) =
      .ok () (c.extend (front ++ .loadFunction arity
        (c.code.size + (front ++ .loadFunction arity entry stack :: back).length) stack :: back)) := by
  obtain ⟨hfound, hset⟩ := extend_at c front back (.loadFunction arity entry stack)
    (.loadFunction arity (c.code.size + (front ++ .loadFunction arity entry stack :: back).length) stack)
  simp only [patchEntry, Actions.modify_apply, hfound, size_extend, hset]

/-! ## Actions one after the other -/

namespace Writes

variable {x : Except CompileError Code}

theorem throw (e : CompileError) : c.Writes written (throw e) (.error e) := ⟨_, rfl⟩

/-- After an action that is known to succeed, what follows decides. -/
theorem after {α : Type} {act : CompileM α} {a : α} {f : α → CompileM Unit}
    (hact : act (c.extend written) = .ok a (c.extend code)) (h : c.Writes code (f a) x) :
    c.Writes written (act >>= f) x := by
  cases x with
  | ok _ =>
    show (act >>= f) _ = _
    rw [Actions.bind_ok hact]
    exact h
  | error e =>
    obtain ⟨c', h⟩ := h
    exact ⟨c', by rw [Actions.bind_ok hact, h]⟩

/-- First one action, and then another one behind what the first has written. -/
theorem bind {first rest : CompileM Unit} {f : Code → Except CompileError Code} {start : Nat}
    (hfirst : WritesAt c.functionDepth start first x) (heq : c.code.size + written.length = start)
    (hrest : ∀ code, x = .ok code → c.Writes (written ++ code) rest (f code)) :
    c.Writes written (first >>= fun _ => rest) (x >>= f) := by
  have hstart := hfirst (c.extend written) rfl ((size_extend c written).trans heq)
  cases x with
  | error e =>
    obtain ⟨c', hstart⟩ := hstart
    rw [extend_nil] at hstart
    exact ⟨c', Actions.bind_error hstart⟩
  | ok code =>
    have hok : first (c.extend written) = .ok () (c.extend (written ++ code)) := by
      simpa [Writes] using hstart
    exact after hok (hrest code rfl)

theorem last {act : CompileM Unit} {f : Code → Code} {start : Nat}
    (hact : WritesAt c.functionDepth start act x) (heq : c.code.size + written.length = start)
    (hf : ∀ code, x = .ok code → written ++ code = f code) :
    c.Writes written act (x >>= fun code => .ok (f code)) := by
  rw [← bind_pure_unit (x := act)]
  refine bind hact heq fun code hx => ?_
  rw [hf code hx]
  rfl

theorem emit_bind {f : Nat → CompileM Unit}
    (h : c.Writes (written ++ [i]) (f (c.code.size + written.length)) x) :
    c.Writes written (Compiler.emit i >>= f) x :=
  after (emit_extend i) h

theorem emit (i : Instruction) : c.Writes written (discard (Compiler.emit i)) (.ok (written ++ [i])) :=
  after (f := fun _ => pure ()) (emit_extend i) rfl

theorem finish (pos : Position) : c.Writes written (Compiler.finish pos) (.ok (Code.finish pos written)) := by
  cases pos with
  | tail => exact emit .ret
  | operand | statement => exact rfl

/-- What can be computed beforehand may object first. -/
theorem ofExcept_bind {α : Type} {y : Except CompileError α} {f : α → CompileM Unit}
    {g : α → Except CompileError Code} (h : ∀ a, y = .ok a → c.Writes written (f a) (g a)) :
    c.Writes written (MonadExcept.ofExcept y >>= f) (y >>= g) := by
  cases y with
  | error e => exact throw e
  | ok a => exact h a rfl

end Writes

/-! ## Names, choices, scopes and functions -/

section

variable {ctx : Context} {depth start : Nat} {name : String}

theorem writesAt_load : WritesAt depth start (load ctx.scopes name) (ctx.load name) := by
  intro c _ _
  unfold load Context.load
  cases ctx.scopes.resolve name with
  | none => exact .throw _
  | some address => exact .emit _

theorem writesAt_initialise : WritesAt depth start (initialise ctx.scopes name) (ctx.initialise name) := by
  intro c _ _
  unfold initialise Context.initialise
  rcases ctx.scopes.resolve name with _ | ⟨_ | frame, slot⟩
  · exact .throw _
  · exact .emit _
  · exact .throw _

theorem WritesAt.finish {act : CompileM Unit} {x : Except CompileError Code} (h : WritesAt depth start act x)
    (pos : Position) :
    WritesAt depth start (do act; Compiler.finish pos) (x >>= fun code => pure (Code.finish pos code)) := by
  rintro c rfl rfl
  exact .bind h rfl fun code _ => .finish pos

theorem writesAt_conditional {predicate consequent alternative : CompileM Unit} {x : Except CompileError Code}
    {f : Code → Except CompileError Code} {g : Code → Code → Except CompileError Code}
    (hp : WritesAt depth start predicate x)
    (hc : ∀ p, x = .ok p → WritesAt depth (start + p.length + 1) consequent (f p))
    (ha : ∀ p q, x = .ok p → f p = .ok q →
      WritesAt depth (start + p.length + 1 + q.length + 1) alternative (g p q)) :
    WritesAt depth start (conditional predicate consequent alternative) do
      let p ← x
      let q ← f p
      let r ← g p q
      return Code.branch start p q r := by
  rintro c rfl rfl
  refine .bind hp (by simp) fun p hx => ?_
  rw [List.nil_append]
  refine .emit_bind (.bind (hc p hx) (by simp; omega) fun q hf => .emit_bind ?_)
  -- the jump behind the predicate stands where it was written
  rw [List.append_assoc, List.append_assoc, List.singleton_append]
  refine .after (patchJump_extend _ _ rfl) (.bind (ha p q hx hf) (by simp; omega) fun r hg => ?_)
  -- and so does the one behind the consequent
  have hskip := patchJump_extend (c := c) (i := .jump unpatched)
    (p ++ .jumpIfFalse (c.code.size + p.length + 1 + q.length + 1) :: q) r rfl
  show patchJump _ _ = .ok () (c.extend (Code.branch c.code.size p q r))
  simpa [Code.branch, Nat.add_assoc, Nat.add_comm, Nat.add_left_comm] using hskip

theorem writesAt_tailConditional {predicate consequent alternative : CompileM Unit} {x : Except CompileError Code}
    {f : Code → Except CompileError Code} {g : Code → Code → Except CompileError Code}
    (hp : WritesAt depth start predicate x)
    (hc : ∀ p, x = .ok p → WritesAt depth (start + p.length + 1) consequent (f p))
    (ha : ∀ p q, x = .ok p → f p = .ok q →
      WritesAt depth (start + p.length + 1 + q.length) alternative (g p q)) :
    WritesAt depth start (tailConditional predicate consequent alternative) do
      let p ← x
      let q ← f p
      let r ← g p q
      return Code.tailBranch start p q r := by
  rintro c rfl rfl
  refine .bind hp (by simp) fun p hx => ?_
  rw [List.nil_append]
  refine .emit_bind (.bind (hc p hx) (by simp; omega) fun q hf => ?_)
  rw [List.append_assoc, List.singleton_append]
  refine .after (patchJump_extend _ _ rfl) (.last (ha p q hx hf) (by simp; omega) fun r hg => ?_)
  simp [Code.tailBranch, Nat.add_assoc, Nat.add_comm, Nat.add_left_comm]

theorem writesAt_scope {body : Tree}
    (hbody : ∀ scope, WritesAt depth (start + 1) (body.emit (ctx.enter scope).scopes .statement)
      (body.compile (ctx.enter scope) .statement (start + 1))) :
    WritesAt depth start (scope ctx.scopes body fun inner => body.emit inner .statement)
      (ctx.scope start body fun inner start => body.compile inner .statement start) := by
  rintro c rfl rfl
  refine .ofExcept_bind fun scope _ => .emit_bind (.bind (hbody scope) (by simp) fun code _ => ?_)
  exact .emit _

theorem WritesAt.inFunction {act : CompileM Unit} {x : Except CompileError Code}
    (h : WritesAt (depth + 1) start act x) : WritesAt depth start (Compiler.inFunction act) x := by
  rintro c rfl rfl
  have hinner := h { c with functionDepth := c.functionDepth + 1 } rfl rfl
  unfold Writes at hinner ⊢
  rw [extend_nil] at hinner ⊢
  cases x with
  | ok code => simp [Compiler.inFunction, show act _ = _ from hinner, extend]
  | error e =>
    obtain ⟨c', hinner⟩ := hinner
    exact ⟨c', by simp [Compiler.inFunction, hinner]⟩

theorem writesAt_function {parameters : List String} {body : Tree}
    (hbody : ∀ (inner : Context) (start : Nat), inner.inFunction = true →
      WritesAt (depth + 1) start (body.emit inner.scopes .statement) (body.compile inner .statement start)) :
    WritesAt depth start (function ctx.scopes parameters body fun inner => body.emit inner .statement)
      (ctx.function start parameters body fun inner start => body.compile inner .statement start) := by
  rintro c rfl rfl
  cases hnone : Tree.firstRepeated [] parameters with
  | some name =>
    rw [function, Context.function, hnone]
    exact .throw _
  | none =>
    rw [function, function_eq hnone, hnone]
    refine .emit_bind (.emit_bind (.after (patchEntry_extend [] _ _ _ _) (.bind (.inFunction ?_) rfl ?_)))
    · intro c' hdepth hsize
      refine .ofExcept_bind fun declared _ => ?_
      split
      · exact hbody _ _ rfl c' hdepth hsize
      · exact writesAt_scope (fun scope => hbody _ _ rfl) c' hdepth hsize
    · intro code _
      refine .emit_bind (.emit_bind (.emit_bind ?_))
      -- all of the body stands between the jump over it and its target
      have hskip := patchJump_extend (c := c) (i := .jump unpatched)
        [.loadFunction parameters.length (c.code.size + 2) body.bodyDemand]
        (code ++ [.pop, .loadConstant .undefined, .ret]) rfl
      show patchJump _ _ = .ok () (c.extend (Code.function c.code.size parameters.length body.bodyDemand code))
      simpa [Code.function, Nat.add_assoc, Nat.add_comm, Nat.add_left_comm] using hskip

end

end Compiler

/-! ## Trees -/

namespace Tree

open Compiler

mutual

/-- The code that is written for a tree is the one that is computed. -/
theorem writes {ctx : Context} {pos : Position} {depth start : Nat} (hdepth : depth = 0 ↔ ctx.inFunction = false) :
    (t : Tree) → WritesAt depth start (t.emit ctx.scopes pos) (t.compile ctx pos start)
  | .literal value => by
    rintro c rfl rfl
    rw [emit, compile]
    exact .emit_bind (.finish pos)
  | .identifier name => by
    rw [emit, compile]
    exact writesAt_load.finish pos
  | .binary operator left right => by
    rintro c rfl rfl
    rw [emit, compile]
    refine .bind writesAt_load rfl fun callee hload => ?_
    obtain ⟨a, b, -, rfl⟩ := Context.load_ok hload
    exact .bind (left.writes hdepth) rfl fun l _ =>
      .bind (right.writes hdepth) (by simp; omega) fun r _ => .emit_bind (.finish pos)
  | .unary operator operand => by
    rintro c rfl rfl
    rw [emit, compile]
    refine .bind writesAt_load rfl fun callee hload => ?_
    obtain ⟨a, b, -, rfl⟩ := Context.load_ok hload
    exact .bind (operand.writes hdepth) rfl fun code _ => .emit_bind (.finish pos)
  | .logical operator left right => by
    have hleft : WritesAt depth start (left.emit ctx.scopes .operand) (left.compile ctx .operand start) :=
      left.writes hdepth
    have hright (start : Nat) :
        WritesAt depth start (right.emit ctx.scopes .operand) (right.compile ctx .operand start) :=
      right.writes hdepth
    rw [emit, compile]
    split
    · have hcode := (writesAt_conditional (g := fun _ _ => .ok [.loadConstant (.boolean false)]) hleft
        (fun _ _ => hright _) fun _ _ _ _ _ _ _ => .emit _).finish pos
      simp only [bind_assoc, pure_bind] at hcode
      exact hcode
    split
    · have hcode := (writesAt_conditional (f := fun _ => .ok [.loadConstant (.boolean true)])
        (g := fun l _ => right.compile ctx .operand (start + l.length + 3)) hleft (fun _ _ _ _ _ => .emit _)
        fun _ _ _ hone => by
          cases hone
          exact hright _).finish pos
      simp only [bind_assoc, pure_bind] at hcode
      exact hcode
    · rintro c rfl rfl
      exact .throw _
  | .conditional predicate consequent alternative => by
    cases pos with
    | tail =>
      rw [emit, compile]
      exact writesAt_tailConditional (predicate.writes hdepth) (fun _ _ => consequent.writes hdepth)
        fun _ _ _ _ => alternative.writes hdepth
    | operand | statement =>
      rw [emit, compile]
      · exact writesAt_conditional (predicate.writes hdepth) (fun _ _ => consequent.writes hdepth)
          fun _ _ _ _ => alternative.writes hdepth
      · simp
  | .lambda parameters body => by
    rw [emit, compile]
    exact (writesAt_function fun inner start hin => body.writes (by simp [hin])).finish pos
  | .application function arguments => by
    rintro c rfl rfl
    rw [emit, compile]
    exact .bind (function.writes hdepth) rfl fun callee _ =>
      .bind (writesOperands hdepth arguments) rfl fun operands _ => .emit _
  | .sequence statements => by
    rw [emit, compile]
    exact (writesSequence hdepth statements).finish pos
  | .block body => by
    rw [emit, compile]
    exact (writesAt_scope fun scope => body.writes (by exact hdepth)).finish pos
  | .declaration name value constant => by
    rintro c rfl rfl
    cases pos with
    | statement =>
      rw [emit, compile]
      exact .bind (value.writes hdepth) rfl fun code _ => .last writesAt_initialise rfl fun _ _ => rfl
    | operand | tail =>
      rw [emit, compile]
      · exact .throw _
      all_goals simp
  | .assignment name value => by
    rintro c rfl rfl
    rw [emit, compile]
    unfold Context.assignable
    rcases ctx.scopes.lookup name with _ | ⟨address, ⟨_, _ | _⟩⟩
    · exact .throw _
    · exact .bind (value.writes hdepth) rfl fun code _ => .emit_bind (.finish pos)
    · exact .throw _
  | .functionDeclaration name parameters body => by
    rintro c rfl rfl
    cases pos with
    | statement =>
      rw [emit, compile]
      exact .bind (writesAt_function fun inner start hin => body.writes (by simp [hin])) rfl fun code _ =>
        .last writesAt_initialise rfl fun _ _ => rfl
    | operand | tail =>
      rw [emit, compile]
      · exact .throw _
      all_goals simp
  | .ret expression => by
    rintro c rfl rfl
    rw [emit, compile]
    refine .after (show (get : CompileM Compiler) (c.extend []) = .ok (c.extend []) (c.extend []) from rfl) ?_
    rw [functionDepth_extend]
    by_cases hzero : c.functionDepth = 0
    · rw [if_pos hzero, hdepth.mp hzero]
      exact .throw _
    · rw [if_neg hzero, if_pos (Bool.of_not_eq_false (mt hdepth.mpr hzero))]
      exact (expression.writes hdepth).finish pos c rfl rfl

theorem writesOperands {ctx : Context} {depth start : Nat} (hdepth : depth = 0 ↔ ctx.inFunction = false) :
    (ts : List Tree) → WritesAt depth start (emitOperands ctx.scopes ts) (compileOperands ctx start ts)
  | [] => by
    rintro c rfl rfl
    rw [emitOperands, compileOperands]
    exact rfl
  | t :: rest => by
    rintro c rfl rfl
    rw [emitOperands, compileOperands]
    exact .bind (t.writes hdepth) rfl fun code _ =>
      .last (writesOperands hdepth rest) rfl fun _ _ => rfl

theorem writesSequence {ctx : Context} {pos : Position} {depth start : Nat}
    (hdepth : depth = 0 ↔ ctx.inFunction = false) :
    (ts : List Tree) → WritesAt depth start (emitSequence ctx.scopes pos ts) (compileSequence ctx pos start ts)
  | [] => by
    rintro c rfl rfl
    rw [emitSequence, compileSequence]
    exact .emit _
  | [t] => by
    rw [emitSequence, compileSequence]
    exact t.writes hdepth
  | t :: next :: rest => by
    rintro c rfl rfl
    rw [emitSequence, compileSequence]
    · exact .bind (t.writes hdepth) rfl fun code _ => .emit_bind
        (.last (writesSequence hdepth (next :: rest)) (by simp [Nat.add_assoc]) fun _ _ => by simp)
    all_goals simp

end

/-- **Both compilers give the same programs**, and object to the same trees for the same reasons. -/
theorem assemble_eq_toProgram (globals : Scopes) (tree : Tree) : tree.assemble globals = tree.toProgram globals := by
  have hscope : WritesAt 0 0 (Compiler.scope globals tree fun inner => tree.emit inner .statement)
      (Context.scope ⟨globals, false⟩ 0 tree fun inner start => tree.compile inner .statement start) :=
    writesAt_scope fun scope => tree.writes (by simp [Context.enter])
  have hwhole : Writes ⟨#[], 0⟩ []
      (do
        Compiler.scope globals tree fun inner => tree.emit inner .statement
        discard (Compiler.emit .done))
      (Context.scope ⟨globals, false⟩ 0 tree (fun inner start => tree.compile inner .statement start) >>=
        fun code => .ok (code ++ [.done])) :=
    .bind hscope rfl fun code _ => .emit .done
  unfold assemble toProgram
  dsimp only
  generalize Context.scope ⟨globals, false⟩ 0 tree (fun inner start => tree.compile inner .statement start) = x
    at hwhole ⊢
  cases x with
  | error e =>
    obtain ⟨c, hwhole⟩ := hwhole
    rw [extend_nil] at hwhole
    rw [hwhole]
    rfl
  | ok code =>
    have hrun : _ = EStateM.Result.ok () _ := hwhole
    rw [extend_nil] at hrun
    rw [hrun]
    simp only [extend, Array.empty_append]
    rfl

end Tree

end ClosureMachine
