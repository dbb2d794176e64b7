import ClosureMachine.Proofs.Compile.Code

/-!
# What holds at each address of compiled code

Wherever compiled code is about to go on, three things are known without running it: how many operands there
are, which scopes have been entered since the code of the body began, and how large the environments around it
are. `Point` says so of an address, and that the code from there on respects it: it pushes no more than there is
room for, reads only slots that exist, leaves only scopes that it has entered, and returns only if there is a
caller. All jumps go forward, so a derivation comes to an end where the code does.

That the compiler's code is like this is shown by induction over trees. The code of a tree is followed by something,
and what is known there decides what is known at its start; so the statement is about the code of a tree
together with all that comes after it.
-/

set_option autoImplicit false

namespace ClosureMachine

/-- What stays the same while the code of one body runs. -/
structure Activation where
  /-- The capacity of its operand stack. -/
  capacity : Nat
  /-- The sizes of the environments in sight at its beginning, the innermost first. -/
  outer : List Nat
  /-- Whether there is a caller to return to. -/
  inFunction : Bool

/-- The address leads to a slot of one of the environments. -/
def Named (sizes : List Nat) (a : Address) : Prop := ∃ n, sizes[a.frame]? = some n ∧ a.slot < n

/-- At the address `pc` there are `depth` operands, and scopes of the sizes `inner` have been entered. -/
inductive Point (program : Program) : Activation → (inner : List Nat) → (depth pc : Nat) → Prop
  | loadConstant {act : Activation} {inner : List Nat} {depth pc : Nat} {value : Literal}
      (hi : program.code[pc]? = some (.loadConstant value)) (hroom : depth < act.capacity)
      (next : Point program act inner (depth + 1) (pc + 1)) : Point program act inner depth pc
  | load {act : Activation} {inner : List Nat} {depth pc : Nat} {a : Address}
      (hi : program.code[pc]? = some (.load a)) (hname : Named (inner ++ act.outer) a)
      (hroom : depth < act.capacity) (next : Point program act inner (depth + 1) (pc + 1)) :
      Point program act inner depth pc
  | assign {act : Activation} {inner : List Nat} {depth pc : Nat} {a : Address}
      (hi : program.code[pc]? = some (.assign a)) (hname : Named (inner ++ act.outer) a)
      (next : Point program act inner (depth + 1) (pc + 1)) : Point program act inner (depth + 1) pc
  | jumpIfFalse {act : Activation} {inner : List Nat} {depth pc target : Nat}
      (hi : program.code[pc]? = some (.jumpIfFalse target))
      (next : Point program act inner depth (pc + 1)) (other : Point program act inner depth target) :
      Point program act inner (depth + 1) pc
  | jump {act : Activation} {inner : List Nat} {depth pc target : Nat}
      (hi : program.code[pc]? = some (.jump target)) (next : Point program act inner depth target) :
      Point program act inner depth pc
  | pop {act : Activation} {inner : List Nat} {depth pc : Nat} (hi : program.code[pc]? = some .pop)
      (next : Point program act inner depth (pc + 1)) : Point program act inner (depth + 1) pc
  | enterScope {act : Activation} {inner : List Nat} {depth pc slots : Nat}
      (hi : program.code[pc]? = some (.enterScope slots))
      (next : Point program act (slots :: inner) depth (pc + 1)) : Point program act inner depth pc
  | exitScope {act : Activation} {inner : List Nat} {depth pc slots : Nat}
      (hi : program.code[pc]? = some .exitScope) (next : Point program act inner depth (pc + 1)) :
      Point program act (slots :: inner) depth pc
  | loadFunction {act : Activation} {inner : List Nat} {depth pc arity entry stack : Nat}
      (hi : program.code[pc]? = some (.loadFunction arity entry stack)) (hroom : depth < act.capacity)
      (body : Point program ⟨stack, arity :: (inner ++ act.outer), true⟩ [] 0 entry)
      (next : Point program act inner (depth + 1) (pc + 1)) : Point program act inner depth pc
  | call {act : Activation} {inner : List Nat} {depth pc n : Nat}
      (hi : program.code[pc]? = some (.call n)) (next : Point program act inner (depth + 1) (pc + 1)) :
      Point program act inner (depth + 1 + n) pc
  | tailCall {act : Activation} {inner : List Nat} {depth pc n : Nat}
      (hi : program.code[pc]? = some (.tailCall n)) (hcaller : act.inFunction = true) :
      Point program act inner (depth + 1 + n) pc
  | ret {act : Activation} {inner : List Nat} {depth pc : Nat} (hi : program.code[pc]? = some .ret)
      (hcaller : act.inFunction = true) : Point program act inner (depth + 1) pc
  | done {act : Activation} {pc : Nat} (hi : program.code[pc]? = some .done)
      (hmain : act.inFunction = false) : Point program act [] 1 pc

/-! ## Names -/

/-- The sizes of the environments for a chain of scopes. -/
def Scopes.sizes (scopes : Scopes) : List Nat := scopes.map List.length

theorem Scopes.named {scopes : Scopes} {name : String} {a : Address} {b : Binding}
    (h : scopes.lookup name = some (a, b)) : Named scopes.sizes a := by
  induction scopes generalizing a with
  | nil => cases h
  | cons scope outer ih =>
    rw [Scopes.lookup] at h
    split at h
    · rename_i slot b' hfind
      cases h
      have hlt := (List.getElem?_eq_some_iff.mp (name_of_find hfind)).1
      exact ⟨scope.length, rfl, by simpa using hlt⟩
    · obtain ⟨⟨a', b'⟩, hlook, heq⟩ := Option.map_eq_some_iff.mp h
      cases heq
      obtain ⟨n, hn, hlt⟩ := ih hlook
      exact ⟨n, hn, hlt⟩

/-- The compiler's context is that of the activation, with these scopes entered. -/
structure Activation.Matches (act : Activation) (inner : List Nat) (ctx : Context) : Prop where
  sizes : ctx.scopes.sizes = inner ++ act.outer
  inFunction : ctx.inFunction = act.inFunction

theorem Activation.Matches.enter {act : Activation} {inner : List Nat} {ctx : Context}
    (h : act.Matches inner ctx) (scope : Scope) : act.Matches (scope.length :: inner) (ctx.enter scope) where
  sizes := congrArg (scope.length :: ·) h.sizes
  inFunction := h.inFunction

theorem Activation.Matches.enterFunction {act : Activation} {inner : List Nat} {ctx : Context}
    (h : act.Matches inner ctx) (parameters : List String) (capacity : Nat) :
    Activation.Matches ⟨capacity, parameters.length :: (inner ++ act.outer), true⟩ []
      (ctx.enterFunction parameters) where
  sizes := by
    rw [Context.enterFunction, Scopes.sizes, List.map_cons, List.length_map, List.nil_append]
    exact congrArg (parameters.length :: ·) h.sizes
  inFunction := rfl

theorem Activation.Matches.named {act : Activation} {inner : List Nat} {ctx : Context}
    (h : act.Matches inner ctx) {name : String} {a : Address} {b : Binding}
    (hlook : ctx.scopes.lookup name = some (a, b)) : Named (inner ++ act.outer) a :=
  h.sizes ▸ Scopes.named hlook

/-! ## The code of a tree -/

/-- What has to be known behind the code of a tree: one more operand. In tail position nothing has to be known,
except that there is a caller. -/
def Behind (program : Program) (act : Activation) (inner : List Nat) (depth stop : Nat) : Position → Prop
  | .tail => act.inFunction = true
  | _ => Point program act inner (depth + 1) stop

/-- In front of the code of the tree, `depth` operands are fine if one more is fine behind it. -/
def TreePoint (program : Program) (t : Tree) : Prop :=
  ∀ ⦃ctx : Context⦄ ⦃pos : Position⦄ ⦃start : Nat⦄ ⦃code : Code⦄ ⦃act : Activation⦄ ⦃inner : List Nat⦄
    ⦃depth : Nat⦄, t.compile ctx pos start = .ok code → CodeAt program start code →
    act.Matches inner ctx → depth + t.stackDemand ≤ act.capacity →
    Behind program act inner depth (start + code.length) pos → Point program act inner depth start

/-- The same for operands on top of `below` others, all of which stay. -/
def OperandsPoint (program : Program) (ts : List Tree) : Prop :=
  ∀ ⦃ctx : Context⦄ ⦃start : Nat⦄ ⦃code : Code⦄ ⦃act : Activation⦄ ⦃inner : List Nat⦄ ⦃depth below : Nat⦄,
    Tree.compileOperands ctx start ts = .ok code → CodeAt program start code → act.Matches inner ctx →
    depth + Tree.operandDemand below ts ≤ act.capacity →
    Point program act inner (depth + below + ts.length) (start + code.length) →
    Point program act inner (depth + below) start

def SequencePoint (program : Program) (ts : List Tree) : Prop :=
  ∀ ⦃ctx : Context⦄ ⦃pos : Position⦄ ⦃start : Nat⦄ ⦃code : Code⦄ ⦃act : Activation⦄ ⦃inner : List Nat⦄
    ⦃depth : Nat⦄, pos ≠ .tail → Tree.compileSequence ctx pos start ts = .ok code →
    CodeAt program start code → act.Matches inner ctx → depth + Tree.statementDemand ts ≤ act.capacity →
    Point program act inner (depth + 1) (start + code.length) → Point program act inner depth start

section

variable {program : Program} {ctx : Context} {act : Activation} {inner : List Nat} {start depth : Nat}

/-- Code that leaves a value, with a return behind it in tail position. -/
theorem Behind.finish {pos : Position} {code : Code} (hcode : CodeAt program start (Code.finish pos code))
    (h : Behind program act inner depth (start + (Code.finish pos code).length) pos) :
    CodeAt program start code ∧ Point program act inner (depth + 1) (start + code.length) := by
  cases pos with
  | operand => exact ⟨hcode, h⟩
  | statement => exact ⟨hcode, h⟩
  | tail =>
    obtain ⟨hcode, hret⟩ := codeAt_snoc.mp hcode
    exact ⟨hcode, .ret hret h⟩

theorem Behind.of_ne_tail {pos : Position} {stop : Nat} (hpos : pos ≠ .tail)
    (h : Point program act inner (depth + 1) stop) : Behind program act inner depth stop pos := by
  cases pos with
  | tail => exact absurd rfl hpos
  | _ => exact h

theorem point_load {name : String} {code : Code} (h : ctx.load name = .ok code)
    (hcode : CodeAt program start code) (hctx : act.Matches inner ctx) (hroom : depth < act.capacity)
    (hnext : Point program act inner (depth + 1) (start + code.length)) :
    Point program act inner depth start := by
  obtain ⟨a, b, hlook, rfl⟩ := Context.load_ok h
  exact .load (codeAt_cons.mp hcode).1 (hctx.named hlook) hroom hnext

theorem treePoint_literal (value : Literal) : TreePoint program (.literal value) := by
  intro ctx pos start code act inner depth h hcode hctx hd hbehind
  rw [Tree.compile] at h
  cases h
  obtain ⟨hcode, hnext⟩ := hbehind.finish hcode
  exact .loadConstant (codeAt_cons.mp hcode).1 hd hnext

theorem treePoint_identifier (name : String) : TreePoint program (.identifier name) := by
  intro ctx pos start code act inner depth h hcode hctx hd hbehind
  rw [Tree.compile] at h
  obtain ⟨code', hload, h⟩ := Actions.of_bind_ok h
  cases h
  obtain ⟨hcode, hnext⟩ := hbehind.finish hcode
  exact point_load hload hcode hctx hd hnext

/-! ## Calls -/

theorem operandsPoint_nil : OperandsPoint program [] := by
  intro ctx start code act inner depth below h hcode hctx hd hnext
  rw [Tree.compileOperands] at h
  cases h
  exact hnext

theorem operandsPoint_cons {t : Tree} {ts : List Tree} (ht : TreePoint program t)
    (hts : OperandsPoint program ts) : OperandsPoint program (t :: ts) := by
  intro ctx start code act inner depth below h hcode hctx hd hnext
  rw [Tree.compileOperands] at h
  obtain ⟨first, hfirst, h⟩ := Actions.of_bind_ok h
  obtain ⟨rest, hrest, h⟩ := Actions.of_bind_ok h
  cases h
  obtain ⟨hcode, hcode'⟩ := codeAt_append.mp hcode
  rw [Tree.operandDemand_cons] at hd
  rw [List.length_append, ← Nat.add_assoc, List.length_cons, Nat.add_comm ts.length, ← Nat.add_assoc] at hnext
  have hrest' : Point program act inner (depth + (below + 1)) (start + first.length) :=
    hts hrest hcode' hctx (by omega) hnext
  exact ht hfirst hcode hctx (by omega) hrest'

/-- A callee, its operands and the call of it. -/
theorem point_call {callee operands : Code} {ts : List Tree}
    (hcode : CodeAt program start (callee ++ operands ++ [.call ts.length]))
    (hcallee : CodeAt program start callee →
      Point program act inner (depth + 1) (start + callee.length) → Point program act inner depth start)
    (hts : OperandsPoint program ts)
    (hoperands : Tree.compileOperands ctx (start + callee.length) ts = .ok operands)
    (hctx : act.Matches inner ctx) (hd : depth + Tree.operandDemand 1 ts ≤ act.capacity)
    (hnext : Point program act inner (depth + 1)
      (start + (callee ++ operands ++ [Instruction.call ts.length]).length)) :
    Point program act inner depth start := by
  obtain ⟨hcode, hcall⟩ := codeAt_snoc.mp hcode
  obtain ⟨hcode, hcode'⟩ := codeAt_append.mp hcode
  rw [List.length_append, ← Nat.add_assoc] at hcall
  rw [List.length_append, List.length_append, ← Nat.add_assoc, ← Nat.add_assoc] at hnext
  refine hcallee hcode ?_
  exact hts hoperands hcode' hctx hd (.call hcall hnext)

theorem treePoint_application {function : Tree} {arguments : List Tree} (hf : TreePoint program function)
    (hargs : OperandsPoint program arguments) : TreePoint program (.application function arguments) := by
  intro ctx pos start code act inner depth h hcode hctx hd hbehind
  rw [Tree.compile] at h
  obtain ⟨callee, hcallee, h⟩ := Actions.of_bind_ok h
  obtain ⟨operands, hoperands, h⟩ := Actions.of_bind_ok h
  cases h
  rw [Tree.stackDemand] at hd
  have hfunction : CodeAt program start callee →
      Point program act inner (depth + 1) (start + callee.length) → Point program act inner depth start :=
    fun hat hnext => hf hcallee hat hctx (by omega) hnext
  cases pos with
  | operand => exact point_call hcode hfunction hargs hoperands hctx (by omega) hbehind
  | statement => exact point_call hcode hfunction hargs hoperands hctx (by omega) hbehind
  | tail =>
    obtain ⟨hcode, hcall⟩ := codeAt_snoc.mp hcode
    obtain ⟨hcode, hcode'⟩ := codeAt_append.mp hcode
    rw [List.length_append, ← Nat.add_assoc] at hcall
    refine hfunction hcode ?_
    exact hargs hoperands hcode' hctx (by omega) (.tailCall hcall hbehind)

theorem treePoint_binary {operator : String} {left right : Tree} (hl : TreePoint program left)
    (hr : TreePoint program right) : TreePoint program (.binary operator left right) := by
  intro ctx pos start code act inner depth h hcode hctx hd hbehind
  rw [Tree.compile] at h
  obtain ⟨callee, hload, h⟩ := Actions.of_bind_ok h
  obtain ⟨first, hfirst, h⟩ := Actions.of_bind_ok h
  obtain ⟨second, hsecond, h⟩ := Actions.of_bind_ok h
  cases h
  obtain ⟨hcode, hnext⟩ := hbehind.finish hcode
  obtain ⟨a, b, hlook, rfl⟩ := Context.load_ok hload
  have hoperands := compileOperands_cons hfirst (compileOperands_cons hsecond compileOperands_nil)
  rw [List.append_nil] at hoperands
  rw [List.append_assoc [Instruction.load a]] at hcode hnext
  rw [Tree.stackDemand] at hd
  refine point_call hcode (fun hat hnext => point_load hload hat hctx (by omega) hnext)
    (operandsPoint_cons hl (operandsPoint_cons hr operandsPoint_nil)) hoperands hctx ?_ hnext
  simp only [Tree.operandDemand]
  omega

theorem treePoint_unary {operator : String} {operand : Tree} (ht : TreePoint program operand) :
    TreePoint program (.unary operator operand) := by
  intro ctx pos start code act inner depth h hcode hctx hd hbehind
  rw [Tree.compile] at h
  obtain ⟨callee, hload, h⟩ := Actions.of_bind_ok h
  obtain ⟨first, hfirst, h⟩ := Actions.of_bind_ok h
  cases h
  obtain ⟨hcode, hnext⟩ := hbehind.finish hcode
  obtain ⟨a, b, hlook, rfl⟩ := Context.load_ok hload
  have hoperands := compileOperands_cons hfirst compileOperands_nil
  rw [List.append_nil] at hoperands
  rw [Tree.stackDemand] at hd
  refine point_call hcode (fun hat hnext => point_load hload hat hctx (by omega) hnext)
    (operandsPoint_cons ht operandsPoint_nil) hoperands hctx ?_ hnext
  simp only [Tree.operandDemand]
  omega

/-! ## Conditionals -/

theorem point_branch {predicate consequent alternative : Code}
    (hcode : CodeAt program start (Code.branch start predicate consequent alternative))
    (hp : CodeAt program start predicate →
      Point program act inner (depth + 1) (start + predicate.length) → Point program act inner depth start)
    (hx : CodeAt program (start + predicate.length + 1) consequent →
      Point program act inner (depth + 1) (start + predicate.length + 1 + consequent.length) →
      Point program act inner depth (start + predicate.length + 1))
    (hy : CodeAt program (start + predicate.length + 1 + consequent.length + 1) alternative →
      Point program act inner (depth + 1)
        (start + predicate.length + 1 + consequent.length + 1 + alternative.length) →
      Point program act inner depth (start + predicate.length + 1 + consequent.length + 1))
    (hnext : Point program act inner (depth + 1)
      (start + (Code.branch start predicate consequent alternative).length)) :
    Point program act inner depth start := by
  obtain ⟨hpredicate, hcondition, hconsequent, hjump, halternative⟩ := codeAt_branch hcode
  rw [length_branch] at hnext
  apply hp hpredicate
  apply Point.jumpIfFalse hcondition
  · exact hx hconsequent (.jump hjump hnext)
  · exact hy halternative hnext

theorem treePoint_conditional {predicate consequent alternative : Tree} (hp : TreePoint program predicate)
    (hx : TreePoint program consequent) (hy : TreePoint program alternative) :
    TreePoint program (.conditional predicate consequent alternative) := by
  intro ctx pos start code act inner depth h hcode hctx hd hbehind
  rw [Tree.compile] at h
  obtain ⟨pcode, hpcode, h⟩ := Actions.of_bind_ok h
  rw [Tree.stackDemand] at hd
  have hpredicate : CodeAt program start pcode →
      Point program act inner (depth + 1) (start + pcode.length) → Point program act inner depth start :=
    fun hat hnext => hp hpcode hat hctx (by omega) hnext
  cases pos with
  | tail =>
    obtain ⟨xcode, hxcode, h⟩ := Actions.of_bind_ok h
    obtain ⟨ycode, hycode, h⟩ := Actions.of_bind_ok h
    cases h
    obtain ⟨hat, hcondition, hconsequent, halternative⟩ := codeAt_tailBranch hcode
    apply hpredicate hat
    apply Point.jumpIfFalse hcondition
    · exact hx hxcode hconsequent hctx (by omega) hbehind
    · exact hy hycode halternative hctx (by omega) hbehind
  | operand =>
    obtain ⟨xcode, hxcode, h⟩ := Actions.of_bind_ok h
    obtain ⟨ycode, hycode, h⟩ := Actions.of_bind_ok h
    cases h
    exact point_branch hcode hpredicate (fun hat hnext => hx hxcode hat hctx (by omega) hnext)
      (fun hat hnext => hy hycode hat hctx (by omega) hnext) hbehind
  | statement =>
    obtain ⟨xcode, hxcode, h⟩ := Actions.of_bind_ok h
    obtain ⟨ycode, hycode, h⟩ := Actions.of_bind_ok h
    cases h
    exact point_branch hcode hpredicate (fun hat hnext => hx hxcode hat hctx (by omega) hnext)
      (fun hat hnext => hy hycode hat hctx (by omega) hnext) hbehind

theorem treePoint_logical {operator : String} {left right : Tree} (hl : TreePoint program left)
    (hr : TreePoint program right) : TreePoint program (.logical operator left right) := by
  intro ctx pos start code act inner depth h hcode hctx hd hbehind
  rw [Tree.compile] at h
  rw [Tree.stackDemand] at hd
  split at h
  · obtain ⟨lcode, hlcode, h⟩ := Actions.of_bind_ok h
    obtain ⟨rcode, hrcode, h⟩ := Actions.of_bind_ok h
    cases h
    obtain ⟨hcode, hnext⟩ := hbehind.finish hcode
    exact point_branch hcode (fun hat hnext => hl hlcode hat hctx (by omega) hnext)
      (fun hat hnext => hr hrcode hat hctx (by omega) hnext)
      (fun hat hnext => .loadConstant (codeAt_cons.mp hat).1 (by omega) hnext) hnext
  · split at h
    · obtain ⟨lcode, hlcode, h⟩ := Actions.of_bind_ok h
      obtain ⟨rcode, hrcode, h⟩ := Actions.of_bind_ok h
      cases h
      obtain ⟨hcode, hnext⟩ := hbehind.finish hcode
      exact point_branch hcode (fun hat hnext => hl hlcode hat hctx (by omega) hnext)
        (fun hat hnext => .loadConstant (codeAt_cons.mp hat).1 (by omega) hnext)
        (fun hat hnext => hr hrcode hat hctx (by omega) hnext) hnext
    · cases h

/-! ## Scopes and functions -/

theorem point_scope {body : Tree} {code : Code} (hb : TreePoint program body)
    (h : ctx.scope start body (fun inner start => body.compile inner .statement start) = .ok code)
    (hcode : CodeAt program start code) (hctx : act.Matches inner ctx)
    (hd : depth + body.stackDemand ≤ act.capacity)
    (hnext : Point program act inner (depth + 1) (start + code.length)) :
    Point program act inner depth start := by
  obtain ⟨bcode, hbcode, rfl⟩ := scope_ok h
  obtain ⟨henter, hbody, hexit⟩ := codeAt_inScope hcode
  rw [length_inScope] at hnext
  apply Point.enterScope henter
  exact hb hbcode hbody (hctx.enter body.declared) hd (Point.exitScope hexit hnext)

theorem treePoint_block {body : Tree} (hb : TreePoint program body) : TreePoint program (.block body) := by
  intro ctx pos start code act inner depth h hcode hctx hd hbehind
  rw [Tree.compile] at h
  obtain ⟨bcode, hbcode, h⟩ := Actions.of_bind_ok h
  cases h
  obtain ⟨hcode, hnext⟩ := hbehind.finish hcode
  rw [Tree.stackDemand] at hd
  exact point_scope hb hbcode hcode hctx hd hnext

/-- The body of a function, with the return at its end. -/
theorem point_body {body : Tree} {code : Code} (hb : TreePoint program body)
    (h : bodyCode ctx start body = .ok code)
    (hcode : CodeAt program start (code ++ [.pop, .loadConstant .undefined, .ret]))
    (hctx : act.Matches [] ctx) (hcaller : act.inFunction = true) (hd : body.bodyDemand ≤ act.capacity) :
    Point program act [] 0 start := by
  obtain ⟨hcode, hend⟩ := codeAt_append.mp hcode
  obtain ⟨hpop, hend⟩ := codeAt_cons.mp hend
  obtain ⟨hload, hret⟩ := codeAt_cons.mp hend
  have hret := (codeAt_cons.mp hret).1
  unfold Tree.bodyDemand at hd
  have hnext : Point program act [] 1 (start + code.length) :=
    .pop hpop (.loadConstant hload (by omega) (.ret hret hcaller))
  rcases bodyCode_ok h with ⟨-, hbody⟩ | ⟨-, hbody⟩
  · exact hb hbody hcode hctx (by omega) hnext
  · exact point_scope hb hbody hcode hctx (by omega) hnext

theorem point_function {parameters : List String} {body : Tree} {code : Code} (hb : TreePoint program body)
    (h : ctx.function start parameters body (fun inner start => body.compile inner .statement start) =
      .ok code) (hcode : CodeAt program start code) (hctx : act.Matches inner ctx)
    (hroom : depth < act.capacity)
    (hnext : Point program act inner (depth + 1) (start + code.length)) :
    Point program act inner depth start := by
  obtain ⟨bcode, hbcode, rfl⟩ := function_ok h
  obtain ⟨hload, hjump, hbody⟩ := codeAt_function hcode
  rw [length_function] at hnext
  refine .loadFunction hload hroom ?_ (.jump hjump hnext)
  exact point_body hb hbcode hbody (hctx.enterFunction parameters body.bodyDemand) rfl (Nat.le_refl _)

theorem treePoint_lambda {parameters : List String} {body : Tree} (hb : TreePoint program body) :
    TreePoint program (.lambda parameters body) := by
  intro ctx pos start code act inner depth h hcode hctx hd hbehind
  rw [Tree.compile] at h
  obtain ⟨fcode, hfcode, h⟩ := Actions.of_bind_ok h
  cases h
  obtain ⟨hcode, hnext⟩ := hbehind.finish hcode
  exact point_function hb hfcode hcode hctx hd hnext

/-! ## Declarations and assignments -/

/-- Code that leaves a value, and the instruction that stores it. -/
theorem point_store {code : Code} {a : Address} {name : String} {b : Binding}
    (hcode : CodeAt program start (code ++ [.assign a])) (hctx : act.Matches inner ctx)
    (hlook : ctx.scopes.lookup name = some (a, b))
    (hnext : Point program act inner (depth + 1) (start + (code ++ [Instruction.assign a]).length)) :
    CodeAt program start code ∧ Point program act inner (depth + 1) (start + code.length) := by
  obtain ⟨hcode, hassign⟩ := codeAt_snoc.mp hcode
  rw [List.length_append, ← Nat.add_assoc] at hnext
  exact ⟨hcode, .assign hassign (hctx.named hlook) hnext⟩

theorem treePoint_declaration {name : String} {value : Tree} {constant : Bool}
    (hv : TreePoint program value) : TreePoint program (.declaration name value constant) := by
  intro ctx pos start code act inner depth h hcode hctx hd hbehind
  rw [Tree.stackDemand] at hd
  unfold Tree.compile at h
  cases pos with
  | statement =>
    obtain ⟨vcode, hvcode, h⟩ := Actions.of_bind_ok h
    obtain ⟨icode, hicode, h⟩ := Actions.of_bind_ok h
    cases h
    obtain ⟨a, b, hlook, rfl⟩ := Context.initialise_ok hicode
    obtain ⟨hcode, hnext⟩ := point_store hcode hctx hlook hbehind
    exact hv hvcode hcode hctx hd hnext
  | operand => cases h
  | tail => cases h

theorem treePoint_functionDeclaration {name : String} {parameters : List String} {body : Tree}
    (hb : TreePoint program body) : TreePoint program (.functionDeclaration name parameters body) := by
  intro ctx pos start code act inner depth h hcode hctx hd hbehind
  rw [Tree.stackDemand] at hd
  unfold Tree.compile at h
  cases pos with
  | statement =>
    obtain ⟨fcode, hfcode, h⟩ := Actions.of_bind_ok h
    obtain ⟨icode, hicode, h⟩ := Actions.of_bind_ok h
    cases h
    obtain ⟨a, b, hlook, rfl⟩ := Context.initialise_ok hicode
    obtain ⟨hcode, hnext⟩ := point_store hcode hctx hlook hbehind
    exact point_function hb hfcode hcode hctx hd hnext
  | operand => cases h
  | tail => cases h

theorem treePoint_assignment {name : String} {value : Tree} (hv : TreePoint program value) :
    TreePoint program (.assignment name value) := by
  intro ctx pos start code act inner depth h hcode hctx hd hbehind
  rw [Tree.compile] at h
  obtain ⟨a, ha, h⟩ := Actions.of_bind_ok h
  obtain ⟨vcode, hvcode, h⟩ := Actions.of_bind_ok h
  cases h
  obtain ⟨b, hlook⟩ := Context.assignable_ok ha
  obtain ⟨hcode, hnext⟩ := hbehind.finish hcode
  obtain ⟨hcode, hnext⟩ := point_store hcode hctx hlook hnext
  rw [Tree.stackDemand] at hd
  exact hv hvcode hcode hctx hd hnext

theorem treePoint_ret {expression : Tree} (he : TreePoint program expression) :
    TreePoint program (.ret expression) := by
  intro ctx pos start code act inner depth h hcode hctx hd hbehind
  rw [Tree.compile] at h
  rw [Tree.stackDemand] at hd
  split at h
  · rename_i hfunction
    obtain ⟨ecode, hecode, h⟩ := Actions.of_bind_ok h
    cases h
    -- what stands behind the expression is never reached
    have hcode' : CodeAt program start ecode := by
      cases pos with
      | operand => exact hcode
      | statement => exact hcode
      | tail => exact (codeAt_snoc.mp hcode).1
    have hcaller : act.inFunction = true := hctx.inFunction ▸ hfunction
    exact he hecode hcode' hctx hd hcaller
  · cases h

/-! ## Sequences -/

theorem sequencePoint_nil : SequencePoint program [] := by
  intro ctx pos start code act inner depth hpos h hcode hctx hd hnext
  rw [Tree.compileSequence] at h
  cases h
  rw [Tree.statementDemand] at hd
  exact .loadConstant (codeAt_cons.mp hcode).1 hd hnext

theorem sequencePoint_last {t : Tree} (ht : TreePoint program t) : SequencePoint program [t] := by
  intro ctx pos start code act inner depth hpos h hcode hctx hd hnext
  rw [Tree.compileSequence] at h
  rw [Tree.statementDemand] at hd
  exact ht h hcode hctx (by omega) (Behind.of_ne_tail hpos hnext)

theorem sequencePoint_cons {t t' : Tree} {ts : List Tree} (ht : TreePoint program t)
    (hts : SequencePoint program (t' :: ts)) : SequencePoint program (t :: t' :: ts) := by
  intro ctx pos start code act inner depth hpos h hcode hctx hd hnext
  rw [compileSequence_cons] at h
  obtain ⟨first, hfirst, h⟩ := Actions.of_bind_ok h
  obtain ⟨rest, hrest, h⟩ := Actions.of_bind_ok h
  cases h
  obtain ⟨hcode, hcode'⟩ := codeAt_append.mp hcode
  obtain ⟨hpop, hcode'⟩ := codeAt_cons.mp hcode'
  rw [Tree.statementDemand] at hd
  rw [List.length_append, List.length_cons, Nat.add_comm rest.length, ← Nat.add_assoc, ← Nat.add_assoc]
    at hnext
  refine ht hfirst hcode hctx (by omega) (Behind.of_ne_tail hpos ?_)
  exact .pop hpop (hts hpos hrest hcode' hctx (by omega) hnext)

theorem treePoint_sequence {statements : List Tree} (hs : SequencePoint program statements) :
    TreePoint program (.sequence statements) := by
  intro ctx pos start code act inner depth h hcode hctx hd hbehind
  rw [Tree.compile] at h
  obtain ⟨scode, hscode, h⟩ := Actions.of_bind_ok h
  cases h
  obtain ⟨hcode, hnext⟩ := hbehind.finish hcode
  rw [Tree.stackDemand] at hd
  have hpos : (if pos = .statement then .statement else .operand : Position) ≠ .tail := by
    split <;> simp
  exact hs hpos hscode hcode hctx hd hnext

end

/-! ## The induction -/

section

variable {program : Program}

mutual

/-- **The code of every tree is in order.** -/
theorem treePoint : (t : Tree) → TreePoint program t
  | .literal value => treePoint_literal value
  | .identifier name => treePoint_identifier name
  | .binary _ left right => treePoint_binary (treePoint left) (treePoint right)
  | .unary _ operand => treePoint_unary (treePoint operand)
  | .logical _ left right => treePoint_logical (treePoint left) (treePoint right)
  | .conditional predicate consequent alternative =>
    treePoint_conditional (treePoint predicate) (treePoint consequent) (treePoint alternative)
  | .lambda _ body => treePoint_lambda (treePoint body)
  | .application function arguments => treePoint_application (treePoint function) (operandsPoint arguments)
  | .sequence statements => treePoint_sequence (sequencePoint statements)
  | .block body => treePoint_block (treePoint body)
  | .declaration _ value _ => treePoint_declaration (treePoint value)
  | .assignment _ value => treePoint_assignment (treePoint value)
  | .functionDeclaration _ _ body => treePoint_functionDeclaration (treePoint body)
  | .ret expression => treePoint_ret (treePoint expression)

theorem operandsPoint : (ts : List Tree) → OperandsPoint program ts
  | [] => operandsPoint_nil
  | t :: ts => operandsPoint_cons (treePoint t) (operandsPoint ts)

theorem sequencePoint : (ts : List Tree) → SequencePoint program ts
  | [] => sequencePoint_nil
  | [t] => sequencePoint_last (treePoint t)
  | t :: t' :: ts => sequencePoint_cons (treePoint t) (sequencePoint (t' :: ts))

end

/-- A program starts without operands, and in sight are the globals. -/
theorem point_program {globals : Scopes} {tree : Tree} (h : tree.toProgram globals = .ok program) :
    Point program ⟨program.mainStack, globals.sizes, false⟩ [] 0 0 := by
  obtain ⟨code, hcompile, hcode, hdone, hstack⟩ := toProgram_ok h
  refine point_scope (treePoint tree) hcompile hcode ⟨rfl, rfl⟩ ?_ ?_
  · rw [hstack, Nat.zero_add]
  · exact .done (by rwa [Nat.zero_add]) rfl

end

end ClosureMachine
