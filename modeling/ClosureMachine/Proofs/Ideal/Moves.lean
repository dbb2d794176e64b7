import ClosureMachine.Proofs.Ideal.Instructions

/-!
# Moves

What a turn can do, in one place. A `Move` takes a core to the next one, a `Refusal` is a fault that lies in the
program, and a `Finish` is its answer. Each constructor stands for an instruction together with
everything that has to be there for it, so that what is said about runs can be said by cases.
-/

set_option autoImplicit false

namespace ClosureMachine.Ideal

/-- A turn takes the first core to the second. -/
inductive Move (program : Program) (c : Core) : (c' : Core) → Prop
  | loadConstant {value : Literal} {operands : List Loc} {free : Nat}
      (hi : program.code[c.pc]? = some (.loadConstant value))
      (hs : c.nodes[c.stack]? = some (.operandStack operands (free + 1))) :
      Move program c { c with
        nodes := (c.nodes ++ [Node.boxed value]).set c.stack
          (.operandStack (c.nodes.length :: operands) free)
        pc := c.pc + 1 }
  | load {a : Address} {env v : Loc} {slots : List (Option Loc)} {outer : Option Loc} {operands : List Loc}
      {free : Nat} (hi : program.code[c.pc]? = some (.load a))
      (hwalk : outward c.env a.frame c.nodes = .ok (some env) c.nodes)
      (henv : c.nodes[env]? = some (.environment slots outer)) (hv : slots[a.slot]? = some (some v))
      (hs : c.nodes[c.stack]? = some (.operandStack operands (free + 1))) :
      Move program c { c with
        nodes := c.nodes.set c.stack (.operandStack (v :: operands) free)
        pc := c.pc + 1 }
  | assign {a : Address} {env v : Loc} {slots : List (Option Loc)} {outer : Option Loc}
      {operands : List Loc} {free : Nat} (hi : program.code[c.pc]? = some (.assign a))
      (hwalk : outward c.env a.frame c.nodes = .ok (some env) c.nodes)
      (henv : c.nodes[env]? = some (.environment slots outer)) (hlt : a.slot < slots.length)
      (hs : c.nodes[c.stack]? = some (.operandStack (v :: operands) free)) :
      Move program c { c with
        nodes := c.nodes.set env (.environment (slots.set a.slot (some v)) outer)
        pc := c.pc + 1 }
  | pop {v : Loc} {operands : List Loc} {free : Nat} (hi : program.code[c.pc]? = some .pop)
      (hs : c.nodes[c.stack]? = some (.operandStack (v :: operands) free)) :
      Move program c { c with
        nodes := c.nodes.set c.stack (.operandStack operands (free + 1))
        pc := c.pc + 1 }
  | jump {target : Nat} (hi : program.code[c.pc]? = some (.jump target)) :
      Move program c { c with pc := target }
  | jumpIfFalse {target : Nat} {l : Loc} {b : Bool} {operands : List Loc} {free : Nat}
      (hi : program.code[c.pc]? = some (.jumpIfFalse target))
      (hs : c.nodes[c.stack]? = some (.operandStack (l :: operands) free))
      (hl : c.nodes[l]? = some (.boxed (.boolean b))) :
      Move program c { c with
        nodes := c.nodes.set c.stack (.operandStack operands (free + 1))
        pc := if b then c.pc + 1 else target }
  | enterScope {slots : Nat} {names : List (Option Loc)} {outer : Option Loc}
      (hi : program.code[c.pc]? = some (.enterScope slots))
      (henv : c.nodes[c.env]? = some (.environment names outer)) :
      Move program c { c with
        nodes := c.nodes ++ [.blockFrame (some c.env),
          .environment (List.replicate slots none) (some c.env)]
        pc := c.pc + 1
        env := c.nodes.length + 1
        control := c.nodes.length :: c.control }
  | exitScope {frame env : Loc} {rest : List Loc} (hi : program.code[c.pc]? = some .exitScope)
      (hc : c.control = frame :: rest) (hframe : c.nodes[frame]? = some (.blockFrame (some env))) :
      Move program c { c with pc := c.pc + 1, env := env, control := rest }
  | loadFunction {arity entry capacity : Nat} {names : List (Option Loc)} {outer : Option Loc}
      {operands : List Loc} {free : Nat}
      (hi : program.code[c.pc]? = some (.loadFunction arity entry capacity))
      (henv : c.nodes[c.env]? = some (.environment names outer))
      (hs : c.nodes[c.stack]? = some (.operandStack operands (free + 1))) :
      Move program c { c with
        nodes := (c.nodes ++ [Node.closure (some c.env) arity entry capacity]).set c.stack
          (.operandStack (c.nodes.length :: operands) free)
        pc := c.pc + 1 }
  | callPrimitive {callee : Loc} {locs operands : List Loc} {free : Nat} {args : List Argument}
      {p : Primitive} {id : Nat} {value : Literal} (hi : program.code[c.pc]? = some (.call locs.length))
      (hs : c.nodes[c.stack]? = some (.operandStack (locs ++ callee :: operands) free))
      (hcallee : c.nodes[callee]? = some (.primitive id)) (hid : Primitive.ofId? id = some p)
      (harity : p.arity = locs.length) (hargs : List.Forall₂ (HasArgument c.nodes) locs args)
      (hm : p.meaning args.reverse = .ok value) :
      Move program c { c with
        nodes := (c.nodes ++ [Node.boxed value]).set c.stack
          (.operandStack (c.nodes.length :: operands) (free + locs.length))
        pc := c.pc + 1
        output := c.output ++ p.shows args.reverse }
  | tailCallPrimitive {callee : Loc} {locs operands : List Loc} {free : Nat} {args : List Argument}
      {p : Primitive} {id : Nat} {value : Literal} {env stack frame : Loc} {address : Nat}
      {blocks rest operands' : List Loc} {free' : Nat}
      (hi : program.code[c.pc]? = some (.tailCall locs.length))
      (hs : c.nodes[c.stack]? = some (.operandStack (locs ++ callee :: operands) free))
      (hcallee : c.nodes[callee]? = some (.primitive id)) (hid : Primitive.ofId? id = some p)
      (harity : p.arity = locs.length) (hargs : List.Forall₂ (HasArgument c.nodes) locs args)
      (hm : p.meaning args.reverse = .ok value) (hc : c.control = blocks ++ frame :: rest)
      (hb : ∀ l ∈ blocks, ∃ env, c.nodes[l]? = some (.blockFrame env))
      (hframe : c.nodes[frame]? = some (.callFrame (some env) (some stack) address))
      (hstack : c.nodes[stack]? = some (.operandStack operands' (free' + 1))) (hne : c.stack ≠ stack) :
      Move program c { c with
        nodes := ((c.nodes ++ [Node.boxed value]).set c.stack
          (.operandStack operands (free + locs.length + 1))).set stack
            (.operandStack (c.nodes.length :: operands') free')
        pc := address
        env := env
        stack := stack
        control := rest
        output := c.output ++ p.shows args.reverse }
  | callClosure {callee env : Loc} {locs operands : List Loc} {free entry capacity : Nat}
      {slots slots' : List (Option Loc)} {outer outer' : Option Loc}
      (hi : program.code[c.pc]? = some (.call locs.length))
      (hs : c.nodes[c.stack]? = some (.operandStack (locs ++ callee :: operands) free))
      (hcallee : c.nodes[callee]? = some (.closure (some env) locs.length entry capacity))
      (henv : c.nodes[env]? = some (.environment slots outer))
      (hcurrent : c.nodes[c.env]? = some (.environment slots' outer')) :
      Move program c { c with
        nodes := c.nodes.set c.stack (.operandStack operands (free + locs.length + 1)) ++
          [.environment (locs.reverse.map some) (some env), .operandStack [] capacity,
            .callFrame (some c.env) (some c.stack) (c.pc + 1)]
        pc := entry
        env := c.nodes.length
        stack := c.nodes.length + 1
        control := (c.nodes.length + 2) :: c.control }
  | tailCallClosure {callee env frame : Loc} {locs operands : List Loc} {free entry capacity : Nat}
      {slots slots' : List (Option Loc)} {outer outer' : Option Loc} {blocks rest : List Loc} {n : Node}
      (hi : program.code[c.pc]? = some (.tailCall locs.length))
      (hs : c.nodes[c.stack]? = some (.operandStack (locs ++ callee :: operands) free))
      (hcallee : c.nodes[callee]? = some (.closure (some env) locs.length entry capacity))
      (henv : c.nodes[env]? = some (.environment slots outer))
      (hcurrent : c.nodes[c.env]? = some (.environment slots' outer')) (hc : c.control = blocks ++ frame :: rest)
      (hb : ∀ l ∈ blocks, ∃ env, c.nodes[l]? = some (.blockFrame env))
      (hframe : c.nodes[frame]? = some n) (hk : n.kind = .callFrame) :
      Move program c { c with
        nodes := c.nodes.set c.stack (.operandStack operands (free + locs.length + 1)) ++
          [.environment (locs.reverse.map some) (some env), .operandStack [] capacity]
        pc := entry
        env := c.nodes.length
        stack := c.nodes.length + 1
        control := frame :: rest }
  | ret {v env stack frame : Loc} {address : Nat} {blocks rest operands operands' : List Loc}
      {free free' : Nat} (hi : program.code[c.pc]? = some .ret)
      (hs : c.nodes[c.stack]? = some (.operandStack (v :: operands) free))
      (hc : c.control = blocks ++ frame :: rest)
      (hb : ∀ l ∈ blocks, ∃ env, c.nodes[l]? = some (.blockFrame env))
      (hframe : c.nodes[frame]? = some (.callFrame (some env) (some stack) address))
      (hstack : c.nodes[stack]? = some (.operandStack operands' (free' + 1))) (hne : c.stack ≠ stack) :
      Move program c { c with
        nodes := (c.nodes.set c.stack (.operandStack operands (free + 1))).set stack
          (.operandStack (v :: operands') free')
        pc := address
        env := env
        stack := stack
        control := rest }

/-- A turn fails, and the program is to blame. -/
inductive Refusal (program : Program) (c : Core) : (fault : Fault) → Prop
  | unassignedName {a : Address} {env : Loc} {slots : List (Option Loc)} {outer : Option Loc}
      (hi : program.code[c.pc]? = some (.load a))
      (hwalk : outward c.env a.frame c.nodes = .ok (some env) c.nodes)
      (henv : c.nodes[env]? = some (.environment slots outer)) (hv : slots[a.slot]? = some none) :
      Refusal program c (.unassignedName a)
  | notBoolean {target : Nat} {l : Loc} {a : Argument} {operands : List Loc} {free : Nat}
      (hi : program.code[c.pc]? = some (.jumpIfFalse target))
      (hs : c.nodes[c.stack]? = some (.operandStack (l :: operands) free))
      (ha : HasArgument c.nodes l a) (hb : ∀ b, a ≠ .literal (.boolean b)) :
      Refusal program c (.typeError "conditional" "boolean" a.typeName)
  | notAFunction {tail : Bool} {callee : Loc} {locs operands : List Loc} {free : Nat} {value : Literal}
      (hi : program.code[c.pc]? = some (callInstruction tail locs.length))
      (hs : c.nodes[c.stack]? = some (.operandStack (locs ++ callee :: operands) free))
      (hcallee : c.nodes[callee]? = some (.boxed value)) :
      Refusal program c (.notAFunction (Argument.literal value).typeName)
  | primitive {tail : Bool} {callee : Loc} {locs operands : List Loc} {free : Nat} {args : List Argument}
      {p : Primitive} {id : Nat} {fault : Fault}
      (hi : program.code[c.pc]? = some (callInstruction tail locs.length))
      (hs : c.nodes[c.stack]? = some (.operandStack (locs ++ callee :: operands) free))
      (hcallee : c.nodes[callee]? = some (.primitive id)) (hid : Primitive.ofId? id = some p)
      (harity : p.arity = locs.length) (hargs : List.Forall₂ (HasArgument c.nodes) locs args)
      (hm : p.meaning args.reverse = .error fault) : Refusal program c fault
  | primitiveArity {tail : Bool} {callee : Loc} {locs operands : List Loc} {free : Nat} {p : Primitive}
      {id : Nat} (hi : program.code[c.pc]? = some (callInstruction tail locs.length))
      (hs : c.nodes[c.stack]? = some (.operandStack (locs ++ callee :: operands) free))
      (hcallee : c.nodes[callee]? = some (.primitive id)) (hid : Primitive.ofId? id = some p)
      (harity : p.arity ≠ locs.length) :
      Refusal program c (.arityMismatch (some p.name) p.arity locs.length)
  | closureArity {tail : Bool} {callee env : Loc} {locs operands : List Loc}
      {free arity entry capacity : Nat}
      (hi : program.code[c.pc]? = some (callInstruction tail locs.length))
      (hs : c.nodes[c.stack]? = some (.operandStack (locs ++ callee :: operands) free))
      (hcallee : c.nodes[callee]? = some (.closure (some env) arity entry capacity))
      (harity : arity ≠ locs.length) : Refusal program c (.arityMismatch none arity locs.length)

/-- A turn gives the answer of the program. -/
inductive Finish (program : Program) (c : Core) : (answer : Answer) → Prop
  | done {l : Loc} {a : Argument} {free : Nat} (hi : program.code[c.pc]? = some .done)
      (hs : c.nodes[c.stack]? = some (.operandStack [l] free)) (ha : HasArgument c.nodes l a) :
      Finish program c a.answer

/-- Faults that lie in the program: no compiler could rule them out. -/
inductive Blameless : Fault → Prop
  | typeError (context expected got : String) : Blameless (.typeError context expected got)
  | notAFunction (got : String) : Blameless (.notAFunction got)
  | arityMismatch (primitive : Option String) (expected got : Nat) :
      Blameless (.arityMismatch primitive expected got)
  | unassignedName (a : Address) : Blameless (.unassignedName a)

section

variable {program : Program} {c c' : Core} {fault : Fault} {answer : Answer}

theorem Move.step (h : Move program c c') : Step program c c' := by
  cases h with
  | loadConstant hi hs => exact step_loadConstant hi hs
  | load hi hwalk henv hv hs => exact step_load hi hwalk henv hv hs
  | assign hi hwalk henv hlt hs => exact step_assign hi hwalk henv hlt hs
  | pop hi hs => exact step_pop hi hs
  | jump hi => exact step_jump hi
  | jumpIfFalse hi hs hl => exact step_jumpIfFalse hi hs hl
  | enterScope hi henv => exact step_enterScope hi henv
  | exitScope hi hc hframe => exact step_exitScope hi hc hframe
  | loadFunction hi henv hs => exact step_loadFunction hi henv hs
  | callPrimitive hi hs hcallee hid harity hargs hm =>
    exact step_callPrimitive hi hs hcallee hid harity hargs hm
  | tailCallPrimitive hi hs hcallee hid harity hargs hm hc hb hframe hstack hne =>
    exact step_tailCallPrimitive hi hs hcallee hid harity hargs hm hc hb hframe hstack hne
  | callClosure hi hs hcallee henv hcurrent => exact step_callClosure hi hs hcallee henv hcurrent
  | tailCallClosure hi hs hcallee henv _ hc hb hframe hk =>
    exact step_tailCallClosure hi hs hcallee henv hc hb hframe hk
  | ret hi hs hc hb hframe hstack hne => exact step_ret hi hs hc hb hframe hstack hne

theorem Refusal.fails (h : Refusal program c fault) : Fails program c fault c.output := by
  cases h with
  | unassignedName hi hwalk henv hv => exact fails_load hi hwalk henv hv
  | notBoolean hi hs ha hb =>
    obtain ⟨n, hn, ha⟩ := ha
    exact fails_jumpIfFalse hi hs hn ha hb
  | notAFunction hi hs hcallee => exact fails_callLiteral hi hs hcallee
  | primitive hi hs hcallee hid harity hargs hm =>
    exact fails_callPrimitive hi hs hcallee hid harity hargs hm
  | primitiveArity hi hs hcallee hid harity => exact fails_callPrimitive_arity hi hs hcallee hid harity
  | closureArity hi hs hcallee harity => exact fails_callClosure_arity hi hs hcallee harity

theorem Refusal.blameless (h : Refusal program c fault) : Blameless fault := by
  cases h with
  | unassignedName => exact .unassignedName _
  | notBoolean => exact .typeError _ _ _
  | notAFunction => exact .notAFunction _
  | primitive hi hs hcallee hid harity hargs hm =>
    obtain ⟨context, expected, got, rfl⟩ := Primitive.meaning_error _ _ hm
    exact .typeError _ _ _
  | primitiveArity => exact .arityMismatch _ _ _
  | closureArity => exact .arityMismatch _ _ _

theorem Finish.answers (h : Finish program c answer) : Answers program c answer := by
  cases h with
  | done hi hs ha => exact answers_done hi hs ha

end

end ClosureMachine.Ideal
