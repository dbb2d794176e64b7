import ClosureMachine.Proofs.Compile.Code

/-!
# Emitted code by addresses

`Emitted` says that the code of a part of a tree occupies the addresses from `start` up to `stop`, instruction by
instruction, with the jumps where they have to go. Names and contexts are forgotten, so nothing of the compiler is
left, and what holds of all compiled code is shown by induction over this predicate, with one case for each
shape that code can have.

There are fewer shapes than kinds of trees. An operator is an application of its name, `&&` and `||` are
conditionals with a constant branch, and a function declaration is the declaration of a lambda; `Emitted` says so
outright. What is left apart is whether a value stays on the stack or is returned.
-/

set_option autoImplicit false

namespace ClosureMachine

/-- What a stretch of code can be the code of. -/
inductive Part where
  /-- A tree whose value stays on the stack. -/
  | value (t : Tree)
  /-- A tree whose value is returned. -/
  | result (t : Tree)
  /-- Trees whose values all stay. -/
  | operands (ts : List Tree)
  /-- Trees of which the last one's value stays. -/
  | statements (ts : List Tree)

/-- The code of the part stands at the addresses from `start` up to `stop`. Only in a function is there a return. -/
inductive Emitted (program : Program) : (inFunction : Bool) → Part → (start stop : Nat) → Prop
  | literal {inFunction : Bool} {value : Literal} {start : Nat}
      (hi : program.code[start]? = some (.loadConstant value)) :
      Emitted program inFunction (.value (.literal value)) start (start + 1)
  | identifier {inFunction : Bool} {name : String} {a : Address} {start : Nat}
      (hi : program.code[start]? = some (.load a)) :
      Emitted program inFunction (.value (.identifier name)) start (start + 1)
  | binary {inFunction : Bool} {operator : String} {left right : Tree} {start stop : Nat}
      (h : Emitted program inFunction (.value (.application (.identifier operator) [left, right])) start stop) :
      Emitted program inFunction (.value (.binary operator left right)) start stop
  | unary {inFunction : Bool} {operator : String} {operand : Tree} {start stop : Nat}
      (h : Emitted program inFunction
        (.value (.application (.identifier (Tree.unaryName operator)) [operand])) start stop) :
      Emitted program inFunction (.value (.unary operator operand)) start stop
  | conjunction {inFunction : Bool} {operator : String} {left right : Tree} {start stop : Nat}
      (h : Emitted program inFunction
        (.value (.conditional left right (.literal (.boolean false)))) start stop) :
      Emitted program inFunction (.value (.logical operator left right)) start stop
  | disjunction {inFunction : Bool} {operator : String} {left right : Tree} {start stop : Nat}
      (h : Emitted program inFunction
        (.value (.conditional left (.literal (.boolean true)) right)) start stop) :
      Emitted program inFunction (.value (.logical operator left right)) start stop
  | conditional {inFunction : Bool} {predicate consequent alternative : Tree} {start fork join stop : Nat}
      (hp : Emitted program inFunction (.value predicate) start fork)
      (hfork : program.code[fork]? = some (.jumpIfFalse (join + 1)))
      (hx : Emitted program inFunction (.value consequent) (fork + 1) join)
      (hjoin : program.code[join]? = some (.jump stop))
      (hy : Emitted program inFunction (.value alternative) (join + 1) stop) :
      Emitted program inFunction (.value (.conditional predicate consequent alternative)) start stop
  | application {inFunction : Bool} {function : Tree} {arguments : List Tree} {start mid stop : Nat}
      (hf : Emitted program inFunction (.value function) start mid)
      (hargs : Emitted program inFunction (.operands arguments) mid stop)
      (hi : program.code[stop]? = some (.call arguments.length)) :
      Emitted program inFunction (.value (.application function arguments)) start (stop + 1)
  /-- A body with declarations is a block. -/
  | lambda {inFunction : Bool} {parameters : List String} {body inner : Tree} {start stop : Nat}
      (hload : program.code[start]? = some (.loadFunction parameters.length (start + 2) body.bodyDemand))
      (hover : program.code[start + 1]? = some (.jump (stop + 3)))
      (hinner : inner = body ∨ inner = .block body)
      (hbody : Emitted program true (.value inner) (start + 2) stop)
      (hpop : program.code[stop]? = some .pop)
      (hundefined : program.code[stop + 1]? = some (.loadConstant .undefined))
      (hret : program.code[stop + 2]? = some .ret) :
      Emitted program inFunction (.value (.lambda parameters body)) start (stop + 3)
  | sequence {inFunction : Bool} {ts : List Tree} {start stop : Nat}
      (h : Emitted program inFunction (.statements ts) start stop) :
      Emitted program inFunction (.value (.sequence ts)) start stop
  | block {inFunction : Bool} {body : Tree} {slots start stop : Nat}
      (henter : program.code[start]? = some (.enterScope slots))
      (hbody : Emitted program inFunction (.value body) (start + 1) stop)
      (hexit : program.code[stop]? = some .exitScope) :
      Emitted program inFunction (.value (.block body)) start (stop + 1)
  | declaration {inFunction : Bool} {name : String} {value : Tree} {constant : Bool} {a : Address} {start stop : Nat}
      (hv : Emitted program inFunction (.value value) start stop)
      (hi : program.code[stop]? = some (.assign a)) :
      Emitted program inFunction (.value (.declaration name value constant)) start (stop + 1)
  | assignment {inFunction : Bool} {name : String} {value : Tree} {a : Address} {start stop : Nat}
      (hv : Emitted program inFunction (.value value) start stop)
      (hi : program.code[stop]? = some (.assign a)) :
      Emitted program inFunction (.value (.assignment name value)) start (stop + 1)
  | functionDeclaration {inFunction : Bool} {name : String} {parameters : List String} {body : Tree}
      {start stop : Nat}
      (h : Emitted program inFunction (.value (.declaration name (.lambda parameters body) true)) start stop) :
      Emitted program inFunction (.value (.functionDeclaration name parameters body)) start stop
  /-- Whatever is done with the value of a `return`, it is not reached. -/
  | ret {expression : Tree} {start stop : Nat} (h : Emitted program true (.result expression) start stop) :
      Emitted program true (.value (.ret expression)) start stop
  | returned {inFunction : Bool} {t : Tree} {start stop : Nat}
      (h : Emitted program inFunction (.value t) start stop) (hi : program.code[stop]? = some .ret) :
      Emitted program inFunction (.result t) start (stop + 1)
  | tailCall {inFunction : Bool} {function : Tree} {arguments : List Tree} {start mid stop : Nat}
      (hf : Emitted program inFunction (.value function) start mid)
      (hargs : Emitted program inFunction (.operands arguments) mid stop)
      (hi : program.code[stop]? = some (.tailCall arguments.length)) :
      Emitted program inFunction (.result (.application function arguments)) start (stop + 1)
  | tailConditional {inFunction : Bool} {predicate consequent alternative : Tree} {start fork join stop : Nat}
      (hp : Emitted program inFunction (.value predicate) start fork)
      (hfork : program.code[fork]? = some (.jumpIfFalse join))
      (hx : Emitted program inFunction (.result consequent) (fork + 1) join)
      (hy : Emitted program inFunction (.result alternative) join stop) :
      Emitted program inFunction (.result (.conditional predicate consequent alternative)) start stop
  | noOperands {inFunction : Bool} {start : Nat} : Emitted program inFunction (.operands []) start start
  | operand {inFunction : Bool} {t : Tree} {ts : List Tree} {start mid stop : Nat}
      (ht : Emitted program inFunction (.value t) start mid)
      (hts : Emitted program inFunction (.operands ts) mid stop) :
      Emitted program inFunction (.operands (t :: ts)) start stop
  | noStatements {inFunction : Bool} {start : Nat}
      (hi : program.code[start]? = some (.loadConstant .undefined)) :
      Emitted program inFunction (.statements []) start (start + 1)
  | lastStatement {inFunction : Bool} {t : Tree} {start stop : Nat}
      (ht : Emitted program inFunction (.value t) start stop) :
      Emitted program inFunction (.statements [t]) start stop
  | statement {inFunction : Bool} {t t' : Tree} {ts : List Tree} {start mid stop : Nat}
      (ht : Emitted program inFunction (.value t) start mid) (hi : program.code[mid]? = some .pop)
      (hts : Emitted program inFunction (.statements (t' :: ts)) (mid + 1) stop) :
      Emitted program inFunction (.statements (t :: t' :: ts)) start stop

/-! ## What the compiler emits -/

/-- A tree in a position. -/
def Position.part : Position → Tree → Part
  | .tail, t => .result t
  | _, t => .value t

/-- The code of the tree is as `Emitted` says. -/
def TreeEmitted (program : Program) (t : Tree) : Prop :=
  ∀ ⦃ctx : Context⦄ ⦃pos : Position⦄ ⦃start : Nat⦄ ⦃code : Code⦄, t.compile ctx pos start = .ok code →
    CodeAt program start code → Emitted program ctx.inFunction (pos.part t) start (start + code.length)

def OperandsEmitted (program : Program) (ts : List Tree) : Prop :=
  ∀ ⦃ctx : Context⦄ ⦃start : Nat⦄ ⦃code : Code⦄, Tree.compileOperands ctx start ts = .ok code →
    CodeAt program start code → Emitted program ctx.inFunction (.operands ts) start (start + code.length)

def SequenceEmitted (program : Program) (ts : List Tree) : Prop :=
  ∀ ⦃ctx : Context⦄ ⦃pos : Position⦄ ⦃start : Nat⦄ ⦃code : Code⦄, pos ≠ .tail →
    Tree.compileSequence ctx pos start ts = .ok code → CodeAt program start code →
    Emitted program ctx.inFunction (.statements ts) start (start + code.length)

section

variable {program : Program} {ctx : Context} {start : Nat}

theorem Position.part_of_ne_tail {pos : Position} (hpos : pos ≠ .tail) (t : Tree) : pos.part t = .value t := by
  cases pos with
  | tail => exact absurd rfl hpos
  | _ => rfl

/-- Code that leaves a value, with a return behind it in tail position. -/
theorem emitted_finish {inFunction : Bool} {pos : Position} {code : Code} {t : Tree}
    (hcode : CodeAt program start (Code.finish pos code))
    (h : CodeAt program start code → Emitted program inFunction (.value t) start (start + code.length)) :
    Emitted program inFunction (pos.part t) start (start + (Code.finish pos code).length) := by
  cases pos with
  | operand => exact h hcode
  | statement => exact h hcode
  | tail =>
    obtain ⟨hcode, hret⟩ := codeAt_snoc.mp hcode
    rw [Code.finish, List.length_append, ← Nat.add_assoc]
    exact .returned (h hcode) hret

/-! ## Calls -/

theorem emitted_load {name : String} {code : Code} (h : ctx.load name = .ok code)
    (hcode : CodeAt program start code) :
    Emitted program ctx.inFunction (.value (.identifier name)) start (start + code.length) := by
  obtain ⟨a, b, -, rfl⟩ := Context.load_ok h
  exact .identifier (codeAt_cons.mp hcode).1

theorem operandsEmitted_nil : OperandsEmitted program [] := by
  intro ctx start code h hcode
  rw [Tree.compileOperands] at h
  cases h
  exact .noOperands

theorem operandsEmitted_cons {t : Tree} {ts : List Tree} (ht : TreeEmitted program t)
    (hts : OperandsEmitted program ts) : OperandsEmitted program (t :: ts) := by
  intro ctx start code h hcode
  rw [Tree.compileOperands] at h
  obtain ⟨first, hfirst, h⟩ := Actions.of_bind_ok h
  obtain ⟨rest, hrest, h⟩ := Actions.of_bind_ok h
  cases h
  obtain ⟨hcode, hcode'⟩ := codeAt_append.mp hcode
  rw [List.length_append, ← Nat.add_assoc]
  exact .operand (ht hfirst hcode) (hts hrest hcode')

/-- A callee and its operands, with an instruction behind them. -/
theorem emitted_apply {function : Tree} {arguments : List Tree} {callee operands : Code} {apply : Instruction}
    (hcode : CodeAt program start (callee ++ operands ++ [apply]))
    (hcallee : CodeAt program start callee →
      Emitted program ctx.inFunction (.value function) start (start + callee.length))
    (hargs : OperandsEmitted program arguments)
    (hoperands : Tree.compileOperands ctx (start + callee.length) arguments = .ok operands) :
    ∃ mid stop, start + (callee ++ operands ++ [apply]).length = stop + 1 ∧
      Emitted program ctx.inFunction (.value function) start mid ∧
      Emitted program ctx.inFunction (.operands arguments) mid stop ∧ program.code[stop]? = some apply := by
  obtain ⟨hcode, happly⟩ := codeAt_snoc.mp hcode
  obtain ⟨hcode, hcode'⟩ := codeAt_append.mp hcode
  rw [List.length_append, ← Nat.add_assoc] at happly
  refine ⟨start + callee.length, start + callee.length + operands.length, ?_, hcallee hcode,
    hargs hoperands hcode', happly⟩
  rw [List.length_append, List.length_append, ← Nat.add_assoc, ← Nat.add_assoc]
  rfl

theorem treeEmitted_application {function : Tree} {arguments : List Tree} (hf : TreeEmitted program function)
    (hargs : OperandsEmitted program arguments) : TreeEmitted program (.application function arguments) := by
  intro ctx pos start code h hcode
  rw [Tree.compile] at h
  obtain ⟨callee, hcallee, h⟩ := Actions.of_bind_ok h
  obtain ⟨operands, hoperands, h⟩ := Actions.of_bind_ok h
  cases h
  obtain ⟨mid, stop, heq, hfun, hops, hi⟩ := emitted_apply hcode (hf hcallee) hargs hoperands
  rw [heq]
  cases pos with
  | operand => exact .application hfun hops hi
  | statement => exact .application hfun hops hi
  | tail => exact .tailCall hfun hops hi

theorem treeEmitted_binary {operator : String} {left right : Tree} (hl : TreeEmitted program left)
    (hr : TreeEmitted program right) : TreeEmitted program (.binary operator left right) := by
  intro ctx pos start code h hcode
  rw [Tree.compile] at h
  obtain ⟨callee, hload, h⟩ := Actions.of_bind_ok h
  obtain ⟨first, hfirst, h⟩ := Actions.of_bind_ok h
  obtain ⟨second, hsecond, h⟩ := Actions.of_bind_ok h
  cases h
  obtain ⟨a, b, -, rfl⟩ := Context.load_ok hload
  have hoperands := compileOperands_cons hfirst (compileOperands_cons hsecond compileOperands_nil)
  rw [List.append_nil] at hoperands
  rw [List.append_assoc [Instruction.load a]] at hcode ⊢
  apply emitted_finish hcode
  intro hcode
  obtain ⟨mid, stop, heq, hfun, hops, hi⟩ := emitted_apply hcode (emitted_load hload)
    (operandsEmitted_cons hl (operandsEmitted_cons hr operandsEmitted_nil)) hoperands
  rw [heq]
  exact .binary (.application hfun hops hi)

theorem treeEmitted_unary {operator : String} {operand : Tree} (ht : TreeEmitted program operand) :
    TreeEmitted program (.unary operator operand) := by
  intro ctx pos start code h hcode
  rw [Tree.compile] at h
  obtain ⟨callee, hload, h⟩ := Actions.of_bind_ok h
  obtain ⟨first, hfirst, h⟩ := Actions.of_bind_ok h
  cases h
  obtain ⟨a, b, -, rfl⟩ := Context.load_ok hload
  have hoperands := compileOperands_cons hfirst compileOperands_nil
  rw [List.append_nil] at hoperands
  apply emitted_finish hcode
  intro hcode
  obtain ⟨mid, stop, heq, hfun, hops, hi⟩ := emitted_apply hcode (emitted_load hload)
    (operandsEmitted_cons ht operandsEmitted_nil) hoperands
  rw [heq]
  exact .unary (.application hfun hops hi)

/-! ## Conditionals -/

theorem emitted_branch {inFunction : Bool} {predicate consequent alternative : Tree} {pcode xcode ycode : Code}
    (hcode : CodeAt program start (Code.branch start pcode xcode ycode))
    (hp : CodeAt program start pcode →
      Emitted program inFunction (.value predicate) start (start + pcode.length))
    (hx : CodeAt program (start + pcode.length + 1) xcode →
      Emitted program inFunction (.value consequent) (start + pcode.length + 1)
        (start + pcode.length + 1 + xcode.length))
    (hy : CodeAt program (start + pcode.length + 1 + xcode.length + 1) ycode →
      Emitted program inFunction (.value alternative) (start + pcode.length + 1 + xcode.length + 1)
        (start + pcode.length + 1 + xcode.length + 1 + ycode.length)) :
    Emitted program inFunction (.value (.conditional predicate consequent alternative)) start
      (start + (Code.branch start pcode xcode ycode).length) := by
  obtain ⟨hpredicate, hfork, hconsequent, hjoin, halternative⟩ := codeAt_branch hcode
  rw [length_branch]
  exact .conditional (hp hpredicate) hfork (hx hconsequent) hjoin (hy halternative)

theorem treeEmitted_conditional {predicate consequent alternative : Tree} (hp : TreeEmitted program predicate)
    (hx : TreeEmitted program consequent) (hy : TreeEmitted program alternative) :
    TreeEmitted program (.conditional predicate consequent alternative) := by
  intro ctx pos start code h hcode
  rw [Tree.compile] at h
  obtain ⟨pcode, hpcode, h⟩ := Actions.of_bind_ok h
  cases pos with
  | operand =>
    obtain ⟨xcode, hxcode, h⟩ := Actions.of_bind_ok h
    obtain ⟨ycode, hycode, h⟩ := Actions.of_bind_ok h
    cases h
    exact emitted_branch hcode (hp hpcode) (hx hxcode) (hy hycode)
  | statement =>
    obtain ⟨xcode, hxcode, h⟩ := Actions.of_bind_ok h
    obtain ⟨ycode, hycode, h⟩ := Actions.of_bind_ok h
    cases h
    exact emitted_branch hcode (hp hpcode) (hx hxcode) (hy hycode)
  | tail =>
    obtain ⟨xcode, hxcode, h⟩ := Actions.of_bind_ok h
    obtain ⟨ycode, hycode, h⟩ := Actions.of_bind_ok h
    cases h
    obtain ⟨hpredicate, hfork, hconsequent, halternative⟩ := codeAt_tailBranch hcode
    have hlen : start + (Code.tailBranch start pcode xcode ycode).length =
        start + pcode.length + 1 + xcode.length + ycode.length := by
      simp only [Code.tailBranch, List.length_append, List.length_cons]
      omega
    rw [hlen]
    exact .tailConditional (hp hpcode hpredicate) hfork (hx hxcode hconsequent) (hy hycode halternative)

theorem treeEmitted_logical {operator : String} {left right : Tree} (hl : TreeEmitted program left)
    (hr : TreeEmitted program right) : TreeEmitted program (.logical operator left right) := by
  intro ctx pos start code h hcode
  rw [Tree.compile] at h
  split at h
  · obtain ⟨lcode, hlcode, h⟩ := Actions.of_bind_ok h
    obtain ⟨rcode, hrcode, h⟩ := Actions.of_bind_ok h
    cases h
    apply emitted_finish hcode
    intro hcode
    exact .conjunction (emitted_branch hcode (hl hlcode) (hr hrcode)
      fun hat => .literal (codeAt_cons.mp hat).1)
  · split at h
    · obtain ⟨lcode, hlcode, h⟩ := Actions.of_bind_ok h
      obtain ⟨rcode, hrcode, h⟩ := Actions.of_bind_ok h
      cases h
      apply emitted_finish hcode
      intro hcode
      exact .disjunction (emitted_branch hcode (hl hlcode)
        (fun hat => .literal (codeAt_cons.mp hat).1) (hr hrcode))
    · cases h

/-! ## Scopes and functions -/

theorem emitted_scope {body : Tree} {code : Code} (hb : TreeEmitted program body)
    (h : ctx.scope start body (fun inner start => body.compile inner .statement start) = .ok code)
    (hcode : CodeAt program start code) :
    Emitted program ctx.inFunction (.value (.block body)) start (start + code.length) := by
  obtain ⟨bcode, hbcode, rfl⟩ := scope_ok h
  obtain ⟨henter, hbody, hexit⟩ := codeAt_inScope hcode
  rw [length_inScope]
  exact .block henter (hb hbcode hbody) hexit

theorem emitted_function {parameters : List String} {body : Tree} {code : Code} (hb : TreeEmitted program body)
    (h : ctx.function start parameters body (fun inner start => body.compile inner .statement start) =
      .ok code) (hcode : CodeAt program start code) :
    Emitted program ctx.inFunction (.value (.lambda parameters body)) start (start + code.length) := by
  obtain ⟨bcode, hbcode, rfl⟩ := function_ok h
  obtain ⟨hload, hover, hcode⟩ := codeAt_function hcode
  obtain ⟨hcode, hend⟩ := codeAt_append.mp hcode
  obtain ⟨hpop, hend⟩ := codeAt_cons.mp hend
  obtain ⟨hundefined, hend⟩ := codeAt_cons.mp hend
  have hret := (codeAt_cons.mp hend).1
  rw [length_function]
  rcases bodyCode_ok hbcode with ⟨-, hbody⟩ | ⟨-, hbody⟩
  · exact .lambda hload hover (.inl rfl) (hb hbody hcode) hpop hundefined hret
  · exact .lambda hload hover (.inr rfl) (emitted_scope hb hbody hcode) hpop hundefined hret

/-! ## Declarations and assignments -/

theorem treeEmitted_declaration {name : String} {value : Tree} {constant : Bool}
    (hv : TreeEmitted program value) : TreeEmitted program (.declaration name value constant) := by
  intro ctx pos start code h hcode
  unfold Tree.compile at h
  cases pos with
  | statement =>
    obtain ⟨vcode, hvcode, h⟩ := Actions.of_bind_ok h
    obtain ⟨icode, hicode, h⟩ := Actions.of_bind_ok h
    cases h
    obtain ⟨a, b, -, rfl⟩ := Context.initialise_ok hicode
    obtain ⟨hcode, hassign⟩ := codeAt_snoc.mp hcode
    rw [List.length_append, ← Nat.add_assoc]
    exact .declaration (hv hvcode hcode) hassign
  | operand => cases h
  | tail => cases h

theorem treeEmitted_functionDeclaration {name : String} {parameters : List String} {body : Tree}
    (hb : TreeEmitted program body) : TreeEmitted program (.functionDeclaration name parameters body) := by
  intro ctx pos start code h hcode
  unfold Tree.compile at h
  cases pos with
  | statement =>
    obtain ⟨fcode, hfcode, h⟩ := Actions.of_bind_ok h
    obtain ⟨icode, hicode, h⟩ := Actions.of_bind_ok h
    cases h
    obtain ⟨a, b, -, rfl⟩ := Context.initialise_ok hicode
    obtain ⟨hcode, hassign⟩ := codeAt_snoc.mp hcode
    rw [List.length_append, ← Nat.add_assoc]
    exact .functionDeclaration (.declaration (emitted_function hb hfcode hcode) hassign)
  | operand => cases h
  | tail => cases h

theorem treeEmitted_assignment {name : String} {value : Tree} (hv : TreeEmitted program value) :
    TreeEmitted program (.assignment name value) := by
  intro ctx pos start code h hcode
  rw [Tree.compile] at h
  obtain ⟨a, ha, h⟩ := Actions.of_bind_ok h
  obtain ⟨vcode, hvcode, h⟩ := Actions.of_bind_ok h
  cases h
  apply emitted_finish hcode
  intro hcode
  obtain ⟨hcode, hassign⟩ := codeAt_snoc.mp hcode
  rw [List.length_append, ← Nat.add_assoc]
  exact .assignment (hv hvcode hcode) hassign

theorem treeEmitted_ret {expression : Tree} (he : TreeEmitted program expression) :
    TreeEmitted program (.ret expression) := by
  intro ctx pos start code h hcode
  rw [Tree.compile] at h
  split at h
  · rename_i hfunction
    obtain ⟨ecode, hecode, h⟩ := Actions.of_bind_ok h
    cases h
    apply emitted_finish hcode
    intro hcode
    have hresult := he hecode hcode
    rw [hfunction] at hresult ⊢
    exact .ret hresult
  · cases h

/-! ## Sequences -/

theorem sequenceEmitted_nil : SequenceEmitted program [] := by
  intro ctx pos start code hpos h hcode
  rw [Tree.compileSequence] at h
  cases h
  exact .noStatements (codeAt_cons.mp hcode).1

theorem sequenceEmitted_last {t : Tree} (ht : TreeEmitted program t) : SequenceEmitted program [t] := by
  intro ctx pos start code hpos h hcode
  rw [Tree.compileSequence] at h
  have hvalue := ht h hcode
  rw [Position.part_of_ne_tail hpos] at hvalue
  exact .lastStatement hvalue

theorem sequenceEmitted_cons {t t' : Tree} {ts : List Tree} (ht : TreeEmitted program t)
    (hts : SequenceEmitted program (t' :: ts)) : SequenceEmitted program (t :: t' :: ts) := by
  intro ctx pos start code hpos h hcode
  rw [compileSequence_cons] at h
  obtain ⟨first, hfirst, h⟩ := Actions.of_bind_ok h
  obtain ⟨rest, hrest, h⟩ := Actions.of_bind_ok h
  cases h
  obtain ⟨hcode, hcode'⟩ := codeAt_append.mp hcode
  obtain ⟨hpop, hcode'⟩ := codeAt_cons.mp hcode'
  have hvalue := ht hfirst hcode
  rw [Position.part_of_ne_tail hpos] at hvalue
  have hlen : start + (first ++ Instruction.pop :: rest).length = start + first.length + 1 + rest.length := by
    simp only [List.length_append, List.length_cons]
    omega
  rw [hlen]
  exact .statement hvalue hpop (hts hpos hrest hcode')

theorem treeEmitted_sequence {statements : List Tree} (hs : SequenceEmitted program statements) :
    TreeEmitted program (.sequence statements) := by
  intro ctx pos start code h hcode
  rw [Tree.compile] at h
  obtain ⟨scode, hscode, h⟩ := Actions.of_bind_ok h
  cases h
  have hpos : (if pos = .statement then .statement else .operand : Position) ≠ .tail := by
    split <;> simp
  apply emitted_finish hcode
  intro hcode
  exact .sequence (hs hpos hscode hcode)

end

/-! ## The induction -/

section

variable {program : Program}

mutual

theorem treeEmitted : (t : Tree) → TreeEmitted program t
  | .literal _ => by
    intro ctx pos start code h hcode
    rw [Tree.compile] at h
    cases h
    exact emitted_finish hcode fun hcode => .literal (codeAt_cons.mp hcode).1
  | .identifier _ => by
    intro ctx pos start code h hcode
    rw [Tree.compile] at h
    obtain ⟨code', hload, h⟩ := Actions.of_bind_ok h
    cases h
    exact emitted_finish hcode (emitted_load hload)
  | .binary _ left right => treeEmitted_binary (treeEmitted left) (treeEmitted right)
  | .unary _ operand => treeEmitted_unary (treeEmitted operand)
  | .logical _ left right => treeEmitted_logical (treeEmitted left) (treeEmitted right)
  | .conditional predicate consequent alternative =>
    treeEmitted_conditional (treeEmitted predicate) (treeEmitted consequent) (treeEmitted alternative)
  | .lambda _ body => by
    intro ctx pos start code h hcode
    rw [Tree.compile] at h
    obtain ⟨fcode, hfcode, h⟩ := Actions.of_bind_ok h
    cases h
    exact emitted_finish hcode (emitted_function (treeEmitted body) hfcode)
  | .application function arguments =>
    treeEmitted_application (treeEmitted function) (operandsEmitted arguments)
  | .sequence statements => treeEmitted_sequence (sequenceEmitted statements)
  | .block body => by
    intro ctx pos start code h hcode
    rw [Tree.compile] at h
    obtain ⟨bcode, hbcode, h⟩ := Actions.of_bind_ok h
    cases h
    exact emitted_finish hcode (emitted_scope (treeEmitted body) hbcode)
  | .declaration _ value _ => treeEmitted_declaration (treeEmitted value)
  | .assignment _ value => treeEmitted_assignment (treeEmitted value)
  | .functionDeclaration _ _ body => treeEmitted_functionDeclaration (treeEmitted body)
  | .ret expression => treeEmitted_ret (treeEmitted expression)

theorem operandsEmitted : (ts : List Tree) → OperandsEmitted program ts
  | [] => operandsEmitted_nil
  | t :: ts => operandsEmitted_cons (treeEmitted t) (operandsEmitted ts)

theorem sequenceEmitted : (ts : List Tree) → SequenceEmitted program ts
  | [] => sequenceEmitted_nil
  | [t] => sequenceEmitted_last (treeEmitted t)
  | t :: t' :: ts => sequenceEmitted_cons (treeEmitted t) (sequenceEmitted (t' :: ts))

end

/-- A program is the code of a block and one instruction. -/
theorem emitted_program {globals : Scopes} {tree : Tree} (h : tree.toProgram globals = .ok program) :
    ∃ stop, Emitted program false (.value (.block tree)) 0 stop ∧ program.code[stop]? = some .done ∧
      program.code.size = stop + 1 ∧ program.mainStack = tree.stackDemand := by
  obtain ⟨code, hcompile, hcode, hdone, hstack⟩ := toProgram_ok h
  refine ⟨code.length, ?_, hdone, ?_, hstack⟩
  · have hblock := emitted_scope (treeEmitted tree) hcompile hcode
    rwa [Nat.zero_add] at hblock
  · obtain ⟨code', hcompile', h⟩ := Actions.of_bind_ok h
    cases h
    obtain rfl : code' = code := Except.ok.inj (hcompile'.symm.trans hcompile)
    simp

end

end ClosureMachine
