import ClosureMachine.Proofs.Compile.Code

/-!
# The scopes that code enters

An instruction that enters a scope says how many slots there are and nothing about the names. But the code of a
tree enters its scopes in the order in which the tree has them, so to count the instructions of this kind in front
of an address is to know which scope is meant (`Program.scopeAt`).
-/

set_option autoImplicit false

namespace ClosureMachine

/-! ## The scopes of a tree -/

namespace Tree

/-- A function's body has a scope of its own only if it declares something. -/
def ownScope (body : Tree) : List Scope :=
  if body.declared.isEmpty then [] else [body.declared]

mutual

/-- The scopes inside a tree, in the order of the code. -/
def opened : Tree → List Scope
  | .literal _ | .identifier _ => []
  | .unary _ t | .declaration _ t _ | .assignment _ t | .ret t => t.opened
  | .binary _ left right | .logical _ left right => left.opened ++ right.opened
  | .conditional predicate consequent alternative =>
    predicate.opened ++ (consequent.opened ++ alternative.opened)
  | .lambda _ body | .functionDeclaration _ _ body => body.ownScope ++ body.opened
  | .application function arguments => function.opened ++ openedIn arguments
  | .sequence statements => openedIn statements
  | .block body => body.declared :: body.opened

def openedIn : List Tree → List Scope
  | [] => []
  | t :: rest => t.opened ++ openedIn rest

end

/-- All scopes of a program. The first one is around the whole tree. -/
def scopes (tree : Tree) : List Scope := tree.declared :: tree.opened

end Tree

/-! ## Counting -/

def Instruction.opens : Instruction → Bool
  | .enterScope _ => true
  | _ => false

namespace Code

/-- How many scopes the code enters, if it is read from top to bottom. -/
def openings (code : Code) : Nat := code.countP Instruction.opens

section

variable {start : Nat} {predicate consequent alternative body : Code}

@[simp] theorem openings_nil : openings [] = 0 := rfl

@[simp] theorem openings_append (code code' : Code) :
    openings (code ++ code') = openings code + openings code' := List.countP_append

@[simp] theorem openings_cons (i : Instruction) (code : Code) :
    openings (i :: code) = openings code + if i.opens then 1 else 0 := List.countP_cons

@[simp] theorem openings_finish (pos : Position) (code : Code) : openings (finish pos code) = openings code := by
  cases pos <;> simp [finish, Instruction.opens]

@[simp] theorem openings_branch : openings (branch start predicate consequent alternative) =
    openings predicate + (openings consequent + openings alternative) := by
  simp [branch, Instruction.opens, Nat.add_assoc]

@[simp] theorem openings_tailBranch : openings (tailBranch start predicate consequent alternative) =
    openings predicate + (openings consequent + openings alternative) := by
  simp [tailBranch, Instruction.opens, Nat.add_assoc]

@[simp] theorem openings_inScope (scope : Scope) : openings (inScope scope body) = openings body + 1 := by
  simp [inScope, Instruction.opens]

@[simp] theorem openings_function (arity stack : Nat) :
    openings (function start arity stack body) = openings body := by
  simp [function, Instruction.opens]

end

end Code

/-- The code of the tree enters as many scopes as the tree has. -/
def TreeOpens (t : Tree) : Prop :=
  ∀ ⦃ctx : Context⦄ ⦃pos : Position⦄ ⦃start : Nat⦄ ⦃code : Code⦄, t.compile ctx pos start = .ok code →
    Code.openings code = t.opened.length

section

variable {ctx : Context} {start : Nat} {code : Code}

theorem openings_load {name : String} (h : ctx.load name = .ok code) : Code.openings code = 0 := by
  obtain ⟨a, b, -, rfl⟩ := Context.load_ok h
  simp [Instruction.opens]

theorem openings_initialise {name : String} (h : ctx.initialise name = .ok code) : Code.openings code = 0 := by
  obtain ⟨a, b, -, rfl⟩ := Context.initialise_ok h
  simp [Instruction.opens]

theorem openings_scope {body : Tree} (hb : TreeOpens body)
    (h : ctx.scope start body (fun inner start => body.compile inner .statement start) = .ok code) :
    Code.openings code = (body.declared :: body.opened).length := by
  obtain ⟨inner, hinner, rfl⟩ := scope_ok h
  simp [hb hinner]

theorem openings_body {body : Tree} (hb : TreeOpens body) (h : bodyCode ctx start body = .ok code) :
    Code.openings code = (body.ownScope ++ body.opened).length := by
  rcases bodyCode_ok h with ⟨hempty, h⟩ | ⟨hempty, h⟩
  · rw [Tree.ownScope, if_pos hempty, hb h, List.nil_append]
  · rw [Tree.ownScope, hempty, openings_scope hb h]
    rfl

theorem openings_fun {parameters : List String} {body : Tree} (hb : TreeOpens body)
    (h : ctx.function start parameters body (fun inner start => body.compile inner .statement start) =
      .ok code) : Code.openings code = (body.ownScope ++ body.opened).length := by
  obtain ⟨inner, hinner, rfl⟩ := function_ok h
  rw [Code.openings_function, openings_body hb hinner]

end

mutual

theorem treeOpens : (t : Tree) → TreeOpens t
  | .literal value => by
    intro ctx pos start code h
    rw [Tree.compile] at h
    cases h
    simp [Tree.opened, Instruction.opens]
  | .identifier name => by
    intro ctx pos start code h
    rw [Tree.compile] at h
    obtain ⟨code, hload, h⟩ := Actions.of_bind_ok h
    cases h
    simp [Tree.opened, openings_load hload]
  | .binary operator left right => by
    intro ctx pos start code h
    rw [Tree.compile] at h
    obtain ⟨callee, hload, h⟩ := Actions.of_bind_ok h
    obtain ⟨first, hfirst, h⟩ := Actions.of_bind_ok h
    obtain ⟨second, hsecond, h⟩ := Actions.of_bind_ok h
    cases h
    simp [Tree.opened, Instruction.opens, openings_load hload, treeOpens left hfirst, treeOpens right hsecond]
  | .unary operator operand => by
    intro ctx pos start code h
    rw [Tree.compile] at h
    obtain ⟨callee, hload, h⟩ := Actions.of_bind_ok h
    obtain ⟨first, hfirst, h⟩ := Actions.of_bind_ok h
    cases h
    simp [Tree.opened, Instruction.opens, openings_load hload, treeOpens operand hfirst]
  | .logical operator left right => by
    intro ctx pos start code h
    rw [Tree.compile] at h
    split at h
    · obtain ⟨first, hfirst, h⟩ := Actions.of_bind_ok h
      obtain ⟨second, hsecond, h⟩ := Actions.of_bind_ok h
      cases h
      simp [Tree.opened, Instruction.opens, treeOpens left hfirst, treeOpens right hsecond]
    · split at h
      · obtain ⟨first, hfirst, h⟩ := Actions.of_bind_ok h
        obtain ⟨second, hsecond, h⟩ := Actions.of_bind_ok h
        cases h
        simp [Tree.opened, Instruction.opens, treeOpens left hfirst, treeOpens right hsecond]
      · cases h
  | .conditional predicate consequent alternative => by
    intro ctx pos start code h
    rw [Tree.compile] at h
    obtain ⟨pcode, hpcode, h⟩ := Actions.of_bind_ok h
    cases pos <;>
      obtain ⟨xcode, hxcode, h⟩ := Actions.of_bind_ok h <;>
      obtain ⟨ycode, hycode, h⟩ := Actions.of_bind_ok h <;>
      cases h <;>
      simp [Tree.opened, treeOpens predicate hpcode, treeOpens consequent hxcode,
        treeOpens alternative hycode]
  | .lambda parameters body => by
    intro ctx pos start code h
    rw [Tree.compile] at h
    obtain ⟨fcode, hfcode, h⟩ := Actions.of_bind_ok h
    cases h
    simp [openings_fun (treeOpens body) hfcode, Tree.opened]
  | .application function arguments => by
    intro ctx pos start code h
    rw [Tree.compile] at h
    obtain ⟨callee, hcallee, h⟩ := Actions.of_bind_ok h
    obtain ⟨operands, hoperands, h⟩ := Actions.of_bind_ok h
    cases h
    have happly : (if pos = .tail then Instruction.tailCall arguments.length
        else .call arguments.length).opens = false := by
      split <;> rfl
    simp [Tree.opened, happly, treeOpens function hcallee, operandsOpen arguments hoperands]
  | .sequence statements => by
    intro ctx pos start code h
    rw [Tree.compile] at h
    obtain ⟨scode, hscode, h⟩ := Actions.of_bind_ok h
    cases h
    simp [Tree.opened, sequenceOpens statements hscode]
  | .block body => by
    intro ctx pos start code h
    rw [Tree.compile] at h
    obtain ⟨bcode, hbcode, h⟩ := Actions.of_bind_ok h
    cases h
    rw [Code.openings_finish, openings_scope (treeOpens body) hbcode, Tree.opened]
  | .declaration name value constant => by
    intro ctx pos start code h
    unfold Tree.compile at h
    cases pos with
    | statement =>
      obtain ⟨vcode, hvcode, h⟩ := Actions.of_bind_ok h
      obtain ⟨icode, hicode, h⟩ := Actions.of_bind_ok h
      cases h
      simp [Tree.opened, treeOpens value hvcode, openings_initialise hicode]
    | operand => cases h
    | tail => cases h
  | .assignment name value => by
    intro ctx pos start code h
    rw [Tree.compile] at h
    obtain ⟨a, -, h⟩ := Actions.of_bind_ok h
    obtain ⟨vcode, hvcode, h⟩ := Actions.of_bind_ok h
    cases h
    simp [Tree.opened, Instruction.opens, treeOpens value hvcode]
  | .functionDeclaration name parameters body => by
    intro ctx pos start code h
    unfold Tree.compile at h
    cases pos with
    | statement =>
      obtain ⟨fcode, hfcode, h⟩ := Actions.of_bind_ok h
      obtain ⟨icode, hicode, h⟩ := Actions.of_bind_ok h
      cases h
      simp [openings_fun (treeOpens body) hfcode, openings_initialise hicode, Tree.opened]
    | operand => cases h
    | tail => cases h
  | .ret expression => by
    intro ctx pos start code h
    rw [Tree.compile] at h
    split at h
    · obtain ⟨ecode, hecode, h⟩ := Actions.of_bind_ok h
      cases h
      simp [Tree.opened, treeOpens expression hecode]
    · cases h

theorem operandsOpen : (ts : List Tree) → ∀ ⦃ctx : Context⦄ ⦃start : Nat⦄ ⦃code : Code⦄,
    Tree.compileOperands ctx start ts = .ok code → Code.openings code = (Tree.openedIn ts).length
  | [] => by
    intro ctx start code h
    rw [Tree.compileOperands] at h
    cases h
    rfl
  | t :: ts => by
    intro ctx start code h
    rw [Tree.compileOperands] at h
    obtain ⟨first, hfirst, h⟩ := Actions.of_bind_ok h
    obtain ⟨rest, hrest, h⟩ := Actions.of_bind_ok h
    cases h
    simp [Tree.openedIn, treeOpens t hfirst, operandsOpen ts hrest]

theorem sequenceOpens : (ts : List Tree) → ∀ ⦃ctx : Context⦄ ⦃pos : Position⦄ ⦃start : Nat⦄ ⦃code : Code⦄,
    Tree.compileSequence ctx pos start ts = .ok code → Code.openings code = (Tree.openedIn ts).length
  | [] => by
    intro ctx pos start code h
    rw [Tree.compileSequence] at h
    cases h
    simp [Tree.openedIn, Instruction.opens]
  | [t] => by
    intro ctx pos start code h
    rw [Tree.compileSequence] at h
    simp [Tree.openedIn, treeOpens t h]
  | t :: t' :: ts => by
    intro ctx pos start code h
    rw [compileSequence_cons] at h
    obtain ⟨first, hfirst, h⟩ := Actions.of_bind_ok h
    obtain ⟨rest, hrest, h⟩ := Actions.of_bind_ok h
    cases h
    rw [Tree.openedIn]
    simp [Instruction.opens, treeOpens t hfirst, sequenceOpens (t' :: ts) hrest]

end

/-! ## Which scope an instruction enters -/

/-- How many scopes the code in front of the address enters. -/
def Program.openedBefore (program : Program) (pc : Nat) : Nat :=
  Code.openings (program.code.toList.take pc)

/-- Of the scopes of a tree, the one that the instruction at the address of its program enters. -/
def Program.scopeAt (program : Program) (scopes : List Scope) (pc : Nat) : Option Scope :=
  scopes[program.openedBefore pc]?

/-- The scopes of the program are these, from the address on, and maybe others. -/
def Listed (program : Program) (scopes : List Scope) (start : Nat) (here : List Scope) : Prop :=
  ∃ rest, scopes.drop (program.openedBefore start) = here ++ rest

section

variable {program : Program} {scopes here next : List Scope} {start : Nat} {code : Code}

theorem openedBefore_add (hcode : CodeAt program start code) :
    program.openedBefore (start + code.length) = program.openedBefore start + Code.openings code := by
  have htake : (program.code.toList.drop start).take code.length = code := by
    apply List.ext_getElem?
    intro k
    by_cases hk : k < code.length
    · rw [List.getElem?_take_of_lt hk, List.getElem?_drop, List.getElem?_eq_getElem hk,
        Array.getElem?_toList]
      exact hcode (List.getElem?_eq_getElem hk)
    · have hle := Nat.le_of_not_lt hk
      rw [List.getElem?_eq_none (Nat.le_trans (List.length_take_le _ _) hle), List.getElem?_eq_none hle]
  rw [Program.openedBefore, List.take_add, Code.openings_append, htake]
  rfl

/-- Behind some code come the scopes that it has not entered. -/
theorem Listed.append (h : Listed program scopes start (here ++ next)) (hcode : CodeAt program start code)
    (hcount : Code.openings code = here.length) :
    Listed program scopes start here ∧ Listed program scopes (start + code.length) next := by
  obtain ⟨rest, h⟩ := h
  rw [List.append_assoc] at h
  refine ⟨⟨next ++ rest, h⟩, rest, ?_⟩
  rw [openedBefore_add hcode, hcount, ← List.drop_drop, h, List.drop_left]

theorem Listed.skip (h : Listed program scopes start next) (hcode : CodeAt program start code)
    (hcount : Code.openings code = 0) : Listed program scopes (start + code.length) next := by
  have hwhole : Listed program scopes start ([] ++ next) := h
  exact (hwhole.append hcode hcount).2

theorem codeAt_singleton {i : Instruction} (hi : program.code[start]? = some i) : CodeAt program start [i] :=
  codeAt_cons.mpr ⟨hi, fun k j hj => by simp at hj⟩

theorem Listed.skip_one {i : Instruction} (h : Listed program scopes start next)
    (hi : program.code[start]? = some i) (hopens : i.opens = false) :
    Listed program scopes (start + 1) next :=
  h.skip (codeAt_singleton hi) (by simp [hopens])

theorem Listed.enter {scope : Scope} {slots : Nat} (h : Listed program scopes start (scope :: next))
    (hi : program.code[start]? = some (.enterScope slots)) :
    program.scopeAt scopes start = some scope ∧ Listed program scopes (start + 1) next := by
  constructor
  · obtain ⟨rest, h⟩ := h
    have hfirst := congrArg (·[0]?) h
    simpa [Program.scopeAt] using hfirst
  · have hwhole : Listed program scopes start ([scope] ++ next) := h
    exact (hwhole.append (codeAt_singleton hi) (by simp [Instruction.opens])).2

end

end ClosureMachine
