import ClosureMachine.Proofs.Compile.Code

/-!
# Code without tail calls

`Tree.compilePlain` is the compiler as it would be without positions that are special to it: a return is the code of
its expression and the instruction to return, whatever the expression is. There are no tail calls, and
the branches of a conditional come together before the return.

The two compilers accept the same trees, and the codes that they produce agree address by address (`Agree`). Where
one of them returns, the other one does too, perhaps after a jump; and where one of them makes a tail
call, the other one makes a call behind which nothing is left to do but return.
-/

set_option autoImplicit false

namespace ClosureMachine

namespace Tree

mutual

/-- The code of a tree in a context and a position, to stand at address `start`. -/
def compilePlain (ctx : Context) (pos : Position) (start : Nat) : Tree → Except CompileError Code
  | .literal value => return [.loadConstant value]
  | .identifier name => ctx.load name
  | .binary operator left right => do
    let callee ← ctx.load operator
    let left ← left.compilePlain ctx .operand (start + 1)
    let right ← right.compilePlain ctx .operand (start + 1 + left.length)
    return callee ++ left ++ right ++ [.call 2]
  | .unary operator operand => do
    let callee ← ctx.load (unaryName operator)
    let operand ← operand.compilePlain ctx .operand (start + 1)
    return callee ++ operand ++ [.call 1]
  | .logical operator left right =>
    if operator = "&&" then do
      let left ← left.compilePlain ctx .operand start
      let right ← right.compilePlain ctx .operand (start + left.length + 1)
      return Code.branch start left right [.loadConstant (.boolean false)]
    else if operator = "||" then do
      let left ← left.compilePlain ctx .operand start
      let right ← right.compilePlain ctx .operand (start + left.length + 3)
      return Code.branch start left [.loadConstant (.boolean true)] right
    else
      throw (.unhandledNode (.logical operator left right)
        (some s!"unknown logical operator '{operator}'"))
  | .conditional predicate consequent alternative => do
    let predicate ← predicate.compilePlain ctx .operand start
    let consequent ← consequent.compilePlain ctx .operand (start + predicate.length + 1)
    let alternative ←
      alternative.compilePlain ctx .operand (start + predicate.length + 1 + consequent.length + 1)
    return Code.branch start predicate consequent alternative
  | .lambda parameters body =>
    ctx.function start parameters body fun inner start => body.compilePlain inner .statement start
  | .application function arguments => do
    let callee ← function.compilePlain ctx .operand start
    let operands ← compilePlainOperands ctx (start + callee.length) arguments
    return callee ++ operands ++ [.call arguments.length]
  | .sequence statements =>
    compilePlainSequence ctx (if pos = .statement then .statement else .operand) start statements
  | .block body =>
    ctx.scope start body fun inner start => body.compilePlain inner .statement start
  | .declaration name value constant => do
    match pos with
    | .statement =>
      let value ← value.compilePlain ctx .operand start
      return value ++ (← ctx.initialise name)
    | _ => throw (.misplacedDeclaration (typeName (.declaration name value constant)) name)
  | .assignment name value => do
    let address ← ctx.assignable name
    let value ← value.compilePlain ctx .operand start
    return value ++ [.assign address]
  | .functionDeclaration name parameters body => do
    match pos with
    | .statement =>
      let code ← ctx.function start parameters body
        fun inner start => body.compilePlain inner .statement start
      return code ++ (← ctx.initialise name)
    | _ =>
      throw (.misplacedDeclaration (typeName (.functionDeclaration name parameters body)) name)
  | .ret expression => do
    if ctx.inFunction then
      return (← expression.compilePlain ctx .operand start) ++ [.ret]
    else
      throw .returnOutsideFunction

/-- The code of operands, all of which stay on the stack. -/
def compilePlainOperands (ctx : Context) (start : Nat) : List Tree → Except CompileError Code
  | [] => return []
  | t :: rest => do
    let code ← t.compilePlain ctx .operand start
    return code ++ (← compilePlainOperands ctx (start + code.length) rest)

/-- The code of statements, of which only the last one's value stays. -/
def compilePlainSequence (ctx : Context) (pos : Position) (start : Nat) :
    List Tree → Except CompileError Code
  | [] => return [.loadConstant .undefined]
  | [t] => t.compilePlain ctx pos start
  | t :: rest => do
    let code ← t.compilePlain ctx pos start
    return code ++ .pop :: (← compilePlainSequence ctx pos (start + code.length + 1) rest)

end

/-- The program of a tree, without tail calls. -/
def toPlainProgram (globals : Scopes) (tree : Tree) : Except CompileError Program := do
  let ctx : Context := ⟨globals, false⟩
  let code ← ctx.scope 0 tree fun inner start => tree.compilePlain inner .statement start
  let whole : Code := code ++ [.done]
  return ⟨whole.toArray, tree.stackDemand⟩

end Tree

/-! ## Addresses that agree -/

/-- From the address on, there is nothing but a return, perhaps behind jumps. -/
inductive Returns (program : Program) : Nat → Prop
  | ret {a : Nat} (hi : program.code[a]? = some .ret) : Returns program a
  | jump {a target : Nat} (hi : program.code[a]? = some (.jump target)) (next : Returns program target) :
      Returns program a

/-- Instructions behind which the next one follows, and that hold no address. -/
def Instruction.Straight : Instruction → Prop
  | .loadConstant _ | .load _ | .assign _ | .pop | .enterScope _ | .exitScope | .call _ => True
  | _ => False

/-- The plain program from `a` on and the other one from `b` on do the same. -/
inductive Agree (plain program : Program) : (a b : Nat) → Prop
  | straight {a b : Nat} {i : Instruction} (hi : plain.code[a]? = some i)
      (hi' : program.code[b]? = some i) (straight : i.Straight) (next : Agree plain program (a + 1) (b + 1)) :
      Agree plain program a b
  | jumpIfFalse {a b target target' : Nat} (hi : plain.code[a]? = some (.jumpIfFalse target))
      (hi' : program.code[b]? = some (.jumpIfFalse target')) (next : Agree plain program (a + 1) (b + 1))
      (other : Agree plain program target target') : Agree plain program a b
  | jump {a b target target' : Nat} (hi : plain.code[a]? = some (.jump target))
      (hi' : program.code[b]? = some (.jump target')) (next : Agree plain program target target') :
      Agree plain program a b
  | loadFunction {a b arity stack entry entry' : Nat}
      (hi : plain.code[a]? = some (.loadFunction arity entry stack))
      (hi' : program.code[b]? = some (.loadFunction arity entry' stack))
      (body : Agree plain program entry entry') (next : Agree plain program (a + 1) (b + 1)) :
      Agree plain program a b
  | ret {a b : Nat} (hi : Returns plain a) (hi' : program.code[b]? = some .ret) : Agree plain program a b
  | tailCall {a b n : Nat} (hi : plain.code[a]? = some (.call n)) (behind : Returns plain (a + 1))
      (hi' : program.code[b]? = some (.tailCall n)) : Agree plain program a b
  | done {a b : Nat} (hi : plain.code[a]? = some .done) (hi' : program.code[b]? = some .done) :
      Agree plain program a b

/-! ## Codes that agree -/

/-- What has to hold behind two codes. In tail position, the plain code is followed by a return, and the other
one by nothing that is ever reached. -/
def AgreeBehind (plain program : Program) (a b : Nat) : Position → Prop
  | .tail => Returns plain a
  | _ => Agree plain program a b

/-- The codes agree, wherever they stand, if what is behind them does. -/
def Paired (pos : Position) (a b : Nat) (code code' : Code) : Prop :=
  ∀ ⦃plain program : Program⦄, CodeAt plain a code → CodeAt program b code' →
    AgreeBehind plain program (a + code.length) (b + code'.length) pos → Agree plain program a b

section

variable {a b : Nat} {pos : Position} {code code' rest rest' : Code}

theorem paired_nil (a b : Nat) : Paired .operand a b [] [] := fun _ _ _ _ h => h

theorem Paired.straight {i : Instruction} (hi : i.Straight) (h : Paired pos (a + 1) (b + 1) rest rest') :
    Paired pos a b (i :: rest) (i :: rest') := by
  intro plain program hat hat' hbehind
  obtain ⟨hat, hrest⟩ := codeAt_cons.mp hat
  obtain ⟨hat', hrest'⟩ := codeAt_cons.mp hat'
  rw [List.length_cons, List.length_cons, Nat.add_comm rest.length, Nat.add_comm rest'.length,
    ← Nat.add_assoc, ← Nat.add_assoc] at hbehind
  exact .straight hat hat' hi (h hrest hrest' hbehind)

theorem paired_instruction (i : Instruction) (hi : i.Straight) (a b : Nat) :
    Paired .operand a b [i] [i] :=
  .straight hi (paired_nil _ _)

theorem Paired.append (h : Paired .operand a b code code')
    (h' : Paired pos (a + code.length) (b + code'.length) rest rest') :
    Paired pos a b (code ++ rest) (code' ++ rest') := by
  intro plain program hat hat' hbehind
  obtain ⟨hat, hrest⟩ := codeAt_append.mp hat
  obtain ⟨hat', hrest'⟩ := codeAt_append.mp hat'
  rw [List.length_append, List.length_append, ← Nat.add_assoc, ← Nat.add_assoc] at hbehind
  exact h hat hat' (h' hrest hrest' hbehind)

theorem Paired.statement (h : Paired .operand a b code code') : Paired .statement a b code code' := h

theorem Paired.operand (h : Paired pos a b code code') (hpos : pos ≠ .tail) :
    Paired .operand a b code code' := by
  cases pos with
  | tail => exact absurd rfl hpos
  | operand => exact h
  | statement => exact h

/-- Code that leaves a value, with what its position asks for in one of the programs. -/
theorem Paired.finish (h : Paired .operand a b code code') (pos : Position) :
    Paired pos a b code (Code.finish pos code') := by
  cases pos with
  | operand => exact h
  | statement => exact h
  | tail =>
    intro plain program hat hat' hbehind
    obtain ⟨hat', hret⟩ := codeAt_snoc.mp hat'
    exact h hat hat' (.ret hbehind hret)

/-- The codes of a call, with operands and callee in front of them. -/
theorem paired_call (pos : Position) (n a b : Nat) :
    Paired pos a b [.call n] [if pos = .tail then .tailCall n else .call n] := by
  cases pos with
  | operand => exact paired_instruction (.call n) trivial a b
  | statement => exact paired_instruction (.call n) trivial a b
  | tail =>
    intro plain program hat hat' hbehind
    exact .tailCall (codeAt_cons.mp hat).1 hbehind (codeAt_cons.mp hat').1

/-! ### Conditionals -/

variable {predicate consequent alternative predicate' consequent' alternative' : Code}

theorem Paired.branch (hp : Paired .operand a b predicate predicate')
    (hx : Paired .operand (a + predicate.length + 1) (b + predicate'.length + 1) consequent consequent')
    (hy : Paired .operand (a + predicate.length + 1 + consequent.length + 1)
      (b + predicate'.length + 1 + consequent'.length + 1) alternative alternative') :
    Paired .operand a b (Code.branch a predicate consequent alternative)
      (Code.branch b predicate' consequent' alternative') := by
  intro plain program hat hat' hbehind
  obtain ⟨hpat, hcondition, hxat, hjump, hyat⟩ := codeAt_branch hat
  obtain ⟨hpat', hcondition', hxat', hjump', hyat'⟩ := codeAt_branch hat'
  rw [length_branch, length_branch] at hbehind
  apply hp hpat hpat'
  apply Agree.jumpIfFalse hcondition hcondition'
  · exact hx hxat hxat' (.jump hjump hjump' hbehind)
  · exact hy hyat hyat' hbehind

/-- Branches that return, each for itself or together. -/
theorem Paired.tailBranch (hp : Paired .operand a b predicate predicate')
    (hx : Paired .tail (a + predicate.length + 1) (b + predicate'.length + 1) consequent consequent')
    (hy : Paired .tail (a + predicate.length + 1 + consequent.length + 1)
      (b + predicate'.length + 1 + consequent'.length) alternative alternative') :
    Paired .tail a b (Code.branch a predicate consequent alternative)
      (Code.tailBranch b predicate' consequent' alternative') := by
  intro plain program hat hat' hbehind
  obtain ⟨hpat, hcondition, hxat, hjump, hyat⟩ := codeAt_branch hat
  obtain ⟨hpat', hcondition', hxat', hyat'⟩ := codeAt_tailBranch hat'
  rw [length_branch] at hbehind
  have hreturns : Returns plain (a + predicate.length + 1 + consequent.length) := .jump hjump hbehind
  apply hp hpat hpat'
  apply Agree.jumpIfFalse hcondition hcondition'
  · exact hx hxat hxat' hreturns
  · exact hy hyat hyat' hbehind

/-! ### Scopes and functions -/

theorem Paired.inScope (scope : Scope) (h : Paired .operand (a + 1) (b + 1) code code') :
    Paired .operand a b (Code.inScope scope code) (Code.inScope scope code') := by
  have hbody : Paired .operand (a + 1) (b + 1) (code ++ [.exitScope]) (code' ++ [.exitScope]) :=
    h.append (paired_instruction .exitScope trivial _ _)
  exact Paired.straight trivial hbody

theorem Paired.function (arity stack : Nat) (h : Paired .operand (a + 2) (b + 2) code code') :
    Paired .operand a b (Code.function a arity stack code) (Code.function b arity stack code') := by
  intro plain program hat hat' hbehind
  obtain ⟨hload, hjump, hbody⟩ := codeAt_function hat
  obtain ⟨hload', hjump', hbody'⟩ := codeAt_function hat'
  rw [length_function, length_function] at hbehind
  refine .loadFunction hload hload' ?_ (.jump hjump hjump' hbehind)
  obtain ⟨hbody, hend⟩ := codeAt_append.mp hbody
  obtain ⟨hbody', hend'⟩ := codeAt_append.mp hbody'
  obtain ⟨hpop, hend⟩ := codeAt_cons.mp hend
  obtain ⟨hpop', hend'⟩ := codeAt_cons.mp hend'
  obtain ⟨hundefined, hret⟩ := codeAt_cons.mp hend
  obtain ⟨hundefined', hret'⟩ := codeAt_cons.mp hend'
  apply h hbody hbody'
  apply Agree.straight hpop hpop' trivial
  apply Agree.straight hundefined hundefined' trivial
  exact .ret (.ret (codeAt_cons.mp hret).1) (codeAt_cons.mp hret').1

end

/-! ## The code of a tree -/

theorem ok_bind {ε α β : Type} {x : Except ε α} {f : α → Except ε β} {a : α} {r : Except ε β}
    (hx : x = .ok a) (hf : f a = r) : x >>= f = r := by
  rw [hx]
  exact hf

/-- The position of a tree for the plain compiler. -/
def Position.plain : Position → Position
  | .tail => .operand
  | pos => pos

/-- Whatever the code of a tree is, at any address there is a plain code that is paired with it. -/
def TreeAgrees (t : Tree) : Prop :=
  ∀ ⦃ctx : Context⦄ ⦃pos : Position⦄ ⦃b : Nat⦄ ⦃code' : Code⦄, t.compile ctx pos b = .ok code' →
    ∀ a, ∃ code, t.compilePlain ctx pos.plain a = .ok code ∧ Paired pos a b code code'

def OperandsAgree (ts : List Tree) : Prop :=
  ∀ ⦃ctx : Context⦄ ⦃b : Nat⦄ ⦃code' : Code⦄, Tree.compileOperands ctx b ts = .ok code' →
    ∀ a, ∃ code, Tree.compilePlainOperands ctx a ts = .ok code ∧ Paired .operand a b code code'

def SequenceAgrees (ts : List Tree) : Prop :=
  ∀ ⦃ctx : Context⦄ ⦃pos : Position⦄ ⦃b : Nat⦄ ⦃code' : Code⦄, pos ≠ .tail →
    Tree.compileSequence ctx pos b ts = .ok code' →
    ∀ a, ∃ code, Tree.compilePlainSequence ctx pos a ts = .ok code ∧ Paired .operand a b code code'

/-- The same for two ways to compile a body. -/
def BodiesAgree (plainBody compileBody : Context → Nat → Except CompileError Code) : Prop :=
  ∀ ⦃ctx : Context⦄ ⦃b : Nat⦄ ⦃code' : Code⦄, compileBody ctx b = .ok code' →
    ∀ a, ∃ code, plainBody ctx a = .ok code ∧ Paired .operand a b code code'

theorem TreeAgrees.body {t : Tree} (h : TreeAgrees t) :
    BodiesAgree (fun inner start => t.compilePlain inner .statement start)
      (fun inner start => t.compile inner .statement start) := by
  intro ctx b code' hcode' a
  exact h hcode' a

section

variable {ctx : Context} {body : Tree} {plainBody compileBody : Context → Nat → Except CompileError Code}
  {b : Nat} {code' : Code}

theorem BodiesAgree.scope (h : BodiesAgree plainBody compileBody)
    (hcode' : ctx.scope b body compileBody = .ok code') (a : Nat) :
    ∃ code, ctx.scope a body plainBody = .ok code ∧ Paired .operand a b code code' := by
  obtain ⟨scope, hscope, hcode'⟩ := Actions.of_bind_ok hcode'
  obtain ⟨inner', hinner', hcode'⟩ := Actions.of_bind_ok hcode'
  cases hcode'
  obtain ⟨inner, hinner, hpaired⟩ := h hinner' (a + 1)
  exact ⟨_, ok_bind hscope (ok_bind hinner rfl), hpaired.inScope scope⟩

theorem BodiesAgree.function (h : BodiesAgree plainBody compileBody) {parameters : List String}
    (hcode' : ctx.function b parameters body compileBody = .ok code') (a : Nat) :
    ∃ code, ctx.function a parameters body plainBody = .ok code ∧ Paired .operand a b code code' := by
  unfold Context.function at hcode' ⊢
  split at hcode'
  · cases hcode'
  · obtain ⟨scope, hscope, hcode'⟩ := Actions.of_bind_ok hcode'
    split at hcode'
    · obtain ⟨inner', hinner', hcode'⟩ := Actions.of_bind_ok hcode'
      cases hcode'
      obtain ⟨inner, hinner, hpaired⟩ := h hinner' (a + 2)
      refine ⟨_, ok_bind hscope ?_, hpaired.function _ _⟩
      rw [if_pos ‹_›]
      exact ok_bind hinner rfl
    · obtain ⟨inner', hinner', hcode'⟩ := Actions.of_bind_ok hcode'
      cases hcode'
      obtain ⟨inner, hinner, hpaired⟩ := h.scope hinner' (a + 2)
      refine ⟨_, ok_bind hscope ?_, hpaired.function _ _⟩
      rw [if_neg ‹_›]
      exact ok_bind hinner rfl

end

/-! ### One lemma for each kind of tree -/

theorem treeAgrees_literal (value : Literal) : TreeAgrees (.literal value) := by
  intro ctx pos b code' h a
  rw [Tree.compile] at h
  cases h
  refine ⟨[.loadConstant value], ?_, (paired_instruction (.loadConstant value) trivial a b).finish pos⟩
  rfl

theorem treeAgrees_identifier (name : String) : TreeAgrees (.identifier name) := by
  intro ctx pos b code' h a
  rw [Tree.compile] at h
  obtain ⟨load, hload, h⟩ := Actions.of_bind_ok h
  cases h
  obtain ⟨address, _, -, rfl⟩ := Context.load_ok hload
  refine ⟨[.load address], ?_, (paired_instruction (.load address) trivial a b).finish pos⟩
  exact hload

theorem treeAgrees_binary {operator : String} {left right : Tree} (hl : TreeAgrees left)
    (hr : TreeAgrees right) : TreeAgrees (.binary operator left right) := by
  intro ctx pos b code' h a
  rw [Tree.compile] at h
  obtain ⟨load, hload, h⟩ := Actions.of_bind_ok h
  obtain ⟨first', hfirst', h⟩ := Actions.of_bind_ok h
  obtain ⟨second', hsecond', h⟩ := Actions.of_bind_ok h
  cases h
  obtain ⟨address, _, -, rfl⟩ := Context.load_ok hload
  obtain ⟨first, hfirst, hpaired⟩ := hl hfirst' (a + 1)
  obtain ⟨second, hsecond, hpaired'⟩ := hr hsecond' (a + 1 + first.length)
  refine ⟨[Instruction.load address] ++ first ++ second ++ [Instruction.call 2], ?_, Paired.finish ?_ pos⟩
  · exact ok_bind hload (ok_bind hfirst (ok_bind hsecond rfl))
  · rw [List.append_assoc, List.append_assoc, List.append_assoc, List.append_assoc]
    apply (paired_instruction (.load address) trivial a b).append
    apply hpaired.append
    exact hpaired'.append (paired_instruction (.call 2) trivial _ _)

theorem treeAgrees_unary {operator : String} {operand : Tree} (ht : TreeAgrees operand) :
    TreeAgrees (.unary operator operand) := by
  intro ctx pos b code' h a
  rw [Tree.compile] at h
  obtain ⟨load, hload, h⟩ := Actions.of_bind_ok h
  obtain ⟨first', hfirst', h⟩ := Actions.of_bind_ok h
  cases h
  obtain ⟨address, _, -, rfl⟩ := Context.load_ok hload
  obtain ⟨first, hfirst, hpaired⟩ := ht hfirst' (a + 1)
  refine ⟨[Instruction.load address] ++ first ++ [Instruction.call 1], ?_, Paired.finish ?_ pos⟩
  · exact ok_bind hload (ok_bind hfirst rfl)
  · rw [List.append_assoc, List.append_assoc]
    apply (paired_instruction (.load address) trivial a b).append
    exact hpaired.append (paired_instruction (.call 1) trivial _ _)

theorem treeAgrees_logical {operator : String} {left right : Tree} (hl : TreeAgrees left)
    (hr : TreeAgrees right) : TreeAgrees (.logical operator left right) := by
  intro ctx pos b code' h a
  rw [Tree.compile] at h
  split at h
  · obtain ⟨first', hfirst', h⟩ := Actions.of_bind_ok h
    obtain ⟨second', hsecond', h⟩ := Actions.of_bind_ok h
    cases h
    obtain ⟨first, hfirst, hpaired⟩ := hl hfirst' a
    obtain ⟨second, hsecond, hpaired'⟩ := hr hsecond' (a + first.length + 1)
    refine ⟨Code.branch a first second [.loadConstant (.boolean false)], ?_, Paired.finish ?_ pos⟩
    · exact (if_pos ‹_›).trans (ok_bind hfirst (ok_bind hsecond rfl))
    · exact hpaired.branch hpaired' (paired_instruction (.loadConstant _) trivial _ _)
  · split at h
    · obtain ⟨first', hfirst', h⟩ := Actions.of_bind_ok h
      obtain ⟨second', hsecond', h⟩ := Actions.of_bind_ok h
      cases h
      obtain ⟨first, hfirst, hpaired⟩ := hl hfirst' a
      obtain ⟨second, hsecond, hpaired'⟩ := hr hsecond' (a + first.length + 3)
      refine ⟨Code.branch a first [.loadConstant (.boolean true)] second, ?_, Paired.finish ?_ pos⟩
      · exact (if_neg ‹_›).trans ((if_pos ‹_›).trans (ok_bind hfirst (ok_bind hsecond rfl)))
      · exact hpaired.branch (paired_instruction (.loadConstant _) trivial _ _) hpaired'
    · cases h

theorem treeAgrees_conditional {predicate consequent alternative : Tree} (hp : TreeAgrees predicate)
    (hx : TreeAgrees consequent) (hy : TreeAgrees alternative) :
    TreeAgrees (.conditional predicate consequent alternative) := by
  intro ctx pos b code' h a
  rw [Tree.compile] at h
  obtain ⟨pcode', hpcode', h⟩ := Actions.of_bind_ok h
  obtain ⟨pcode, hpcode, hpaired⟩ := hp hpcode' a
  cases pos with
  | tail =>
    obtain ⟨xcode', hxcode', h⟩ := Actions.of_bind_ok h
    obtain ⟨ycode', hycode', h⟩ := Actions.of_bind_ok h
    cases h
    obtain ⟨xcode, hxcode, hxpaired⟩ := hx hxcode' (a + pcode.length + 1)
    obtain ⟨ycode, hycode, hypaired⟩ :=
      hy hycode' (a + pcode.length + 1 + xcode.length + 1)
    refine ⟨Code.branch a pcode xcode ycode, ?_, hpaired.tailBranch hxpaired hypaired⟩
    exact ok_bind hpcode (ok_bind hxcode (ok_bind hycode rfl))
  | operand =>
    obtain ⟨xcode', hxcode', h⟩ := Actions.of_bind_ok h
    obtain ⟨ycode', hycode', h⟩ := Actions.of_bind_ok h
    cases h
    obtain ⟨xcode, hxcode, hxpaired⟩ := hx hxcode' (a + pcode.length + 1)
    obtain ⟨ycode, hycode, hypaired⟩ :=
      hy hycode' (a + pcode.length + 1 + xcode.length + 1)
    refine ⟨Code.branch a pcode xcode ycode, ?_, hpaired.branch hxpaired hypaired⟩
    exact ok_bind hpcode (ok_bind hxcode (ok_bind hycode rfl))
  | statement =>
    obtain ⟨xcode', hxcode', h⟩ := Actions.of_bind_ok h
    obtain ⟨ycode', hycode', h⟩ := Actions.of_bind_ok h
    cases h
    obtain ⟨xcode, hxcode, hxpaired⟩ := hx hxcode' (a + pcode.length + 1)
    obtain ⟨ycode, hycode, hypaired⟩ :=
      hy hycode' (a + pcode.length + 1 + xcode.length + 1)
    refine ⟨Code.branch a pcode xcode ycode, ?_, hpaired.branch hxpaired hypaired⟩
    exact ok_bind hpcode (ok_bind hxcode (ok_bind hycode rfl))

theorem treeAgrees_lambda {parameters : List String} {body : Tree} (hb : TreeAgrees body) :
    TreeAgrees (.lambda parameters body) := by
  intro ctx pos b code' h a
  rw [Tree.compile] at h
  obtain ⟨fcode', hfcode', h⟩ := Actions.of_bind_ok h
  cases h
  obtain ⟨fcode, hfcode, hpaired⟩ := hb.body.function hfcode' a
  refine ⟨fcode, ?_, hpaired.finish pos⟩
  exact hfcode

theorem operandsAgree_nil : OperandsAgree [] := by
  intro ctx b code' h a
  rw [Tree.compileOperands] at h
  cases h
  refine ⟨[], ?_, paired_nil a b⟩
  rfl

theorem operandsAgree_cons {t : Tree} {ts : List Tree} (ht : TreeAgrees t) (hts : OperandsAgree ts) :
    OperandsAgree (t :: ts) := by
  intro ctx b code' h a
  rw [Tree.compileOperands] at h
  obtain ⟨first', hfirst', h⟩ := Actions.of_bind_ok h
  obtain ⟨rest', hrest', h⟩ := Actions.of_bind_ok h
  cases h
  obtain ⟨first, hfirst, hpaired⟩ := ht hfirst' a
  obtain ⟨rest, hrest, hpaired'⟩ := hts hrest' (a + first.length)
  refine ⟨first ++ rest, ?_, hpaired.append hpaired'⟩
  exact ok_bind hfirst (ok_bind hrest rfl)

theorem treeAgrees_application {function : Tree} {arguments : List Tree} (hf : TreeAgrees function)
    (hargs : OperandsAgree arguments) : TreeAgrees (.application function arguments) := by
  intro ctx pos b code' h a
  rw [Tree.compile] at h
  obtain ⟨callee', hcallee', h⟩ := Actions.of_bind_ok h
  obtain ⟨operands', hoperands', h⟩ := Actions.of_bind_ok h
  cases h
  obtain ⟨callee, hcallee, hpaired⟩ := hf hcallee' a
  obtain ⟨operands, hoperands, hpaired'⟩ := hargs hoperands' (a + callee.length)
  refine ⟨callee ++ operands ++ [Instruction.call arguments.length], ?_,
    (hpaired.append hpaired').append (paired_call pos arguments.length _ _)⟩
  exact ok_bind hcallee (ok_bind hoperands rfl)

theorem treeAgrees_block {body : Tree} (hb : TreeAgrees body) : TreeAgrees (.block body) := by
  intro ctx pos b code' h a
  rw [Tree.compile] at h
  obtain ⟨bcode', hbcode', h⟩ := Actions.of_bind_ok h
  cases h
  obtain ⟨bcode, hbcode, hpaired⟩ := hb.body.scope hbcode' a
  refine ⟨bcode, ?_, hpaired.finish pos⟩
  exact hbcode

theorem treeAgrees_declaration {name : String} {value : Tree} {constant : Bool} (hv : TreeAgrees value) :
    TreeAgrees (.declaration name value constant) := by
  intro ctx pos b code' h a
  unfold Tree.compile at h
  cases pos with
  | operand => cases h
  | tail => cases h
  | statement =>
    obtain ⟨vcode', hvcode', h⟩ := Actions.of_bind_ok h
    obtain ⟨icode, hicode, h⟩ := Actions.of_bind_ok h
    cases h
    obtain ⟨vcode, hvcode, hpaired⟩ := hv hvcode' a
    obtain ⟨address, _, -, rfl⟩ := Context.initialise_ok hicode
    refine ⟨vcode ++ [Instruction.assign address], ?_,
      (hpaired.append (paired_instruction (.assign address) trivial _ _)).statement⟩
    exact ok_bind hvcode (ok_bind hicode rfl)

theorem treeAgrees_functionDeclaration {name : String} {parameters : List String} {body : Tree}
    (hb : TreeAgrees body) : TreeAgrees (.functionDeclaration name parameters body) := by
  intro ctx pos b code' h a
  unfold Tree.compile at h
  cases pos with
  | operand => cases h
  | tail => cases h
  | statement =>
    obtain ⟨fcode', hfcode', h⟩ := Actions.of_bind_ok h
    obtain ⟨icode, hicode, h⟩ := Actions.of_bind_ok h
    cases h
    obtain ⟨fcode, hfcode, hpaired⟩ :=
      hb.body.function hfcode' a
    obtain ⟨address, _, -, rfl⟩ := Context.initialise_ok hicode
    refine ⟨fcode ++ [Instruction.assign address], ?_,
      (hpaired.append (paired_instruction (.assign address) trivial _ _)).statement⟩
    exact ok_bind hfcode (ok_bind hicode rfl)

theorem treeAgrees_assignment {name : String} {value : Tree} (hv : TreeAgrees value) :
    TreeAgrees (.assignment name value) := by
  intro ctx pos b code' h a
  rw [Tree.compile] at h
  obtain ⟨address, haddress, h⟩ := Actions.of_bind_ok h
  obtain ⟨vcode', hvcode', h⟩ := Actions.of_bind_ok h
  cases h
  obtain ⟨vcode, hvcode, hpaired⟩ := hv hvcode' a
  refine ⟨vcode ++ [Instruction.assign address], ?_,
    (hpaired.append (paired_instruction (.assign address) trivial _ _)).finish pos⟩
  exact ok_bind haddress (ok_bind hvcode rfl)

theorem treeAgrees_ret {expression : Tree} (he : TreeAgrees expression) :
    TreeAgrees (.ret expression) := by
  intro ctx pos b code' h a
  rw [Tree.compile] at h
  split at h
  · obtain ⟨ecode', hecode', h⟩ := Actions.of_bind_ok h
    cases h
    obtain ⟨ecode, hecode, hpaired⟩ := he hecode' a
    refine ⟨ecode ++ [Instruction.ret], ?_, ?_⟩
    · exact (if_pos ‹_›).trans (ok_bind hecode rfl)
    · -- both return at the end of the expression, so what is behind it does not matter
      intro plain program hat hat' _
      obtain ⟨hat, hret⟩ := codeAt_snoc.mp hat
      have hat'' : CodeAt program b ecode' := by
        cases pos with
        | operand => exact hat'
        | statement => exact hat'
        | tail => exact (codeAt_snoc.mp hat').1
      exact hpaired hat hat'' (.ret hret)
  · cases h

theorem sequenceAgrees_nil : SequenceAgrees [] := by
  intro ctx pos b code' _ h a
  rw [Tree.compileSequence] at h
  cases h
  refine ⟨[.loadConstant .undefined], ?_, paired_instruction (.loadConstant .undefined) trivial a b⟩
  rfl

theorem Position.plain_eq {pos : Position} (h : pos ≠ .tail) : pos.plain = pos := by
  cases pos with
  | tail => exact absurd rfl h
  | operand => rfl
  | statement => rfl

theorem sequenceAgrees_last {t : Tree} (ht : TreeAgrees t) : SequenceAgrees [t] := by
  intro ctx pos b code' hpos h a
  rw [Tree.compileSequence] at h
  obtain ⟨code, hcode, hpaired⟩ := ht h a
  rw [Position.plain_eq hpos] at hcode
  refine ⟨code, ?_, hpaired.operand hpos⟩
  exact hcode

theorem sequenceAgrees_cons {t t' : Tree} {ts : List Tree} (ht : TreeAgrees t)
    (hts : SequenceAgrees (t' :: ts)) : SequenceAgrees (t :: t' :: ts) := by
  intro ctx pos b code' hpos h a
  rw [compileSequence_cons] at h
  obtain ⟨first', hfirst', h⟩ := Actions.of_bind_ok h
  obtain ⟨rest', hrest', h⟩ := Actions.of_bind_ok h
  cases h
  obtain ⟨first, hfirst, hpaired⟩ := ht hfirst' a
  rw [Position.plain_eq hpos] at hfirst
  obtain ⟨rest, hrest, hpaired'⟩ := hts hpos hrest' (a + first.length + 1)
  refine ⟨first ++ .pop :: rest, ?_, (hpaired.operand hpos).append (.straight trivial hpaired')⟩
  exact ok_bind hfirst (ok_bind hrest rfl)

theorem treeAgrees_sequence {statements : List Tree} (hs : SequenceAgrees statements) :
    TreeAgrees (.sequence statements) := by
  intro ctx pos b code' h a
  rw [Tree.compile] at h
  obtain ⟨scode', hscode', h⟩ := Actions.of_bind_ok h
  cases h
  have hne : (if pos = .statement then .statement else .operand : Position) ≠ .tail := by split <;> simp
  obtain ⟨scode, hscode, hpaired⟩ := hs hne hscode' a
  refine ⟨scode, ?_, hpaired.finish pos⟩
  have hpos : (if pos.plain = .statement then .statement else .operand : Position) =
      if pos = .statement then .statement else .operand := by cases pos <;> rfl
  rw [← hpos] at hscode
  exact hscode

mutual

/-- **The codes of every tree agree.** -/
theorem treeAgrees : (t : Tree) → TreeAgrees t
  | .literal value => treeAgrees_literal value
  | .identifier name => treeAgrees_identifier name
  | .binary _ left right => treeAgrees_binary (treeAgrees left) (treeAgrees right)
  | .unary _ operand => treeAgrees_unary (treeAgrees operand)
  | .logical _ left right => treeAgrees_logical (treeAgrees left) (treeAgrees right)
  | .conditional predicate consequent alternative =>
    treeAgrees_conditional (treeAgrees predicate) (treeAgrees consequent) (treeAgrees alternative)
  | .lambda _ body => treeAgrees_lambda (treeAgrees body)
  | .application function arguments =>
    treeAgrees_application (treeAgrees function) (operandsAgree arguments)
  | .sequence statements => treeAgrees_sequence (sequenceAgrees statements)
  | .block body => treeAgrees_block (treeAgrees body)
  | .declaration _ value _ => treeAgrees_declaration (treeAgrees value)
  | .assignment _ value => treeAgrees_assignment (treeAgrees value)
  | .functionDeclaration _ _ body => treeAgrees_functionDeclaration (treeAgrees body)
  | .ret expression => treeAgrees_ret (treeAgrees expression)

theorem operandsAgree : (ts : List Tree) → OperandsAgree ts
  | [] => operandsAgree_nil
  | t :: ts => operandsAgree_cons (treeAgrees t) (operandsAgree ts)

theorem sequenceAgrees : (ts : List Tree) → SequenceAgrees ts
  | [] => sequenceAgrees_nil
  | [t] => sequenceAgrees_last (treeAgrees t)
  | t :: t' :: ts => sequenceAgrees_cons (treeAgrees t) (sequenceAgrees (t' :: ts))

end

/-- A tree that is accepted has a plain program too. Both start at the same address and need the same
stack. -/
theorem plain_program {globals : Scopes} {tree : Tree} {program : Program}
    (h : tree.toProgram globals = .ok program) :
    ∃ plain, tree.toPlainProgram globals = .ok plain ∧ Agree plain program 0 0 ∧
      plain.mainStack = program.mainStack := by
  obtain ⟨code', hcode', hat', hdone', hstack⟩ := toProgram_ok h
  obtain ⟨code, hcode, hpaired⟩ := (treeAgrees tree).body.scope hcode' 0
  refine ⟨_, ok_bind hcode rfl, ?_, hstack.symm⟩
  have hwhole : CodeAt ⟨(code ++ [Instruction.done]).toArray, tree.stackDemand⟩ 0 (code ++ [.done]) := by
    intro k i hi
    simpa using hi
  obtain ⟨hat, hdone⟩ := codeAt_snoc.mp hwhole
  exact hpaired hat hat' (.done hdone (by rwa [Nat.zero_add]))

end ClosureMachine
