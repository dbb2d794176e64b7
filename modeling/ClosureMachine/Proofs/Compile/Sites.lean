import ClosureMachine.Proofs.Compile.Opened
import ClosureMachine.Proofs.Compile.WellFormed

/-!
# Where compiled code assigns

An assignment in compiled code is one of two things. Either it was written as one, and then the name it assigns to
is not a constant; or it is the end of a declaration, and then it goes to the innermost scope, to the slot of the name
that is declared. A scope has its slots in the order in which its declarations stand in the code. So in front of
every address it is known how many of them have been carried out since the scope was entered, and the
next one goes to the slot of that number.

`Site` keeps this account along the code of a body. Together with the fact that all jumps go forward it is the reason
why no constant is assigned twice.
-/

set_option autoImplicit false

namespace ClosureMachine

/-! ## Sites -/

/-- A scope that has been entered. -/
structure Underway where
  scope : Scope
  /-- How many of its declarations have been carried out. -/
  done : Nat

/-- The scopes in sight, the innermost first. -/
def inSight (inner : List Underway) (outer : Scopes) : Scopes := inner.map (·.scope) ++ outer

/-- Some more declarations of the innermost scope have been carried out. -/
def carryOut (n : Nat) : List Underway → List Underway
  | [] => []
  | u :: inner => ⟨u.scope, u.done + n⟩ :: inner

/-- Instructions that go on with the next one in the same environment, and assign nothing. -/
def Instruction.Plain : Instruction → Prop
  | .loadConstant _ | .load _ | .pop | .call _ => True
  | _ => False

/-- Instructions with which a body ends. -/
def Instruction.Leaves : Instruction → Prop
  | .tailCall _ | .ret | .done => True
  | _ => False

/-- At the address `pc` the scopes `inner` have been entered since the body began, and the code from there on assigns
to constants only where they are declared. -/
inductive Site (program : Program) (scopes : List Scope) :
    (outer : Scopes) → (inner : List Underway) → (pc : Nat) → Prop
  | plain {outer : Scopes} {inner : List Underway} {pc : Nat} {i : Instruction}
      (hi : program.code[pc]? = some i) (hplain : i.Plain) (next : Site program scopes outer inner (pc + 1)) :
      Site program scopes outer inner pc
  | assign {outer : Scopes} {inner : List Underway} {pc : Nat} {a : Address} {scope : Scope} {b : Binding}
      (hi : program.code[pc]? = some (.assign a)) (hscope : (inSight inner outer)[a.frame]? = some scope)
      (hb : scope[a.slot]? = some b) (hvariable : b.constant = false)
      (next : Site program scopes outer inner (pc + 1)) : Site program scopes outer inner pc
  | declare {outer : Scopes} {inner : List Underway} {u : Underway} {pc : Nat}
      (hi : program.code[pc]? = some (.assign ⟨0, u.done⟩))
      (next : Site program scopes outer (carryOut 1 (u :: inner)) (pc + 1)) :
      Site program scopes outer (u :: inner) pc
  | jump {outer : Scopes} {inner : List Underway} {pc target : Nat}
      (hi : program.code[pc]? = some (.jump target)) (next : Site program scopes outer inner target) :
      Site program scopes outer inner pc
  | jumpIfFalse {outer : Scopes} {inner : List Underway} {pc target : Nat}
      (hi : program.code[pc]? = some (.jumpIfFalse target)) (next : Site program scopes outer inner (pc + 1))
      (otherwise : Site program scopes outer inner target) : Site program scopes outer inner pc
  | enterScope {outer : Scopes} {inner : List Underway} {pc : Nat} {scope : Scope}
      (hi : program.code[pc]? = some (.enterScope scope.length)) (hscope : program.scopeAt scopes pc = some scope)
      (next : Site program scopes outer (⟨scope, 0⟩ :: inner) (pc + 1)) : Site program scopes outer inner pc
  | exitScope {outer : Scopes} {inner : List Underway} {u : Underway} {pc : Nat}
      (hi : program.code[pc]? = some .exitScope) (next : Site program scopes outer inner (pc + 1)) :
      Site program scopes outer (u :: inner) pc
  | loadFunction {outer : Scopes} {inner : List Underway} {pc arity entry stack : Nat} {parameters : Scope}
      (hi : program.code[pc]? = some (.loadFunction arity entry stack))
      (body : Site program scopes (parameters :: inSight inner outer) [] entry)
      (next : Site program scopes outer inner (pc + 1)) : Site program scopes outer inner pc
  | leave {outer : Scopes} {inner : List Underway} {pc : Nat} {i : Instruction}
      (hi : program.code[pc]? = some i) (hleaves : i.Leaves) : Site program scopes outer inner pc

/-! ### What an instruction says about its site -/

namespace Site

variable {program : Program} {scopes : List Scope} {outer : Scopes} {inner : List Underway} {pc : Nat}

theorem of_plain {i : Instruction} (h : Site program scopes outer inner pc) (hi : program.code[pc]? = some i)
    (hplain : i.Plain) : Site program scopes outer inner (pc + 1) := by
  cases h with
  | plain _ _ next => exact next
  | leave hi' hleaves =>
    cases hi.symm.trans hi'
    cases i <;> simp_all [Instruction.Plain, Instruction.Leaves]
  | assign hi' | declare hi' | jump hi' | jumpIfFalse hi' | enterScope hi' | exitScope hi' | loadFunction hi' =>
    cases hi.symm.trans hi'
    exact hplain.elim

theorem of_jump {target : Nat} (h : Site program scopes outer inner pc)
    (hi : program.code[pc]? = some (.jump target)) : Site program scopes outer inner target := by
  cases h <;> simp_all [Instruction.Plain, Instruction.Leaves]

theorem of_jumpIfFalse {target : Nat} (h : Site program scopes outer inner pc)
    (hi : program.code[pc]? = some (.jumpIfFalse target)) (b : Bool) :
    Site program scopes outer inner (if b then pc + 1 else target) := by
  cases h <;> cases b <;> simp_all [Instruction.Plain, Instruction.Leaves]

theorem of_enterScope {slots : Nat} (h : Site program scopes outer inner pc)
    (hi : program.code[pc]? = some (.enterScope slots)) :
    ∃ scope, slots = scope.length ∧ program.scopeAt scopes pc = some scope ∧
      Site program scopes outer (⟨scope, 0⟩ :: inner) (pc + 1) := by
  cases h <;> simp_all [Instruction.Plain, Instruction.Leaves]

theorem of_exitScope (h : Site program scopes outer inner pc) (hi : program.code[pc]? = some .exitScope) :
    ∃ u rest, inner = u :: rest ∧ Site program scopes outer rest (pc + 1) := by
  cases h <;> simp_all [Instruction.Plain, Instruction.Leaves]

theorem of_loadFunction {arity entry stack : Nat} (h : Site program scopes outer inner pc)
    (hi : program.code[pc]? = some (.loadFunction arity entry stack)) :
    (∃ parameters, Site program scopes (parameters :: inSight inner outer) [] entry) ∧
      Site program scopes outer inner (pc + 1) := by
  cases h with
  | loadFunction hi' body next =>
    cases hi.symm.trans hi'
    exact ⟨⟨_, body⟩, next⟩
  | _ => simp_all [Instruction.Plain, Instruction.Leaves]

/-- An assignment goes to a variable, or to the next slot of the innermost scope. -/
theorem of_assign {a : Address} (h : Site program scopes outer inner pc)
    (hi : program.code[pc]? = some (.assign a)) :
    (∃ scope b, (inSight inner outer)[a.frame]? = some scope ∧ scope[a.slot]? = some b ∧
      b.constant = false ∧ Site program scopes outer inner (pc + 1)) ∨
    (∃ u rest, inner = u :: rest ∧ a = ⟨0, u.done⟩ ∧
      Site program scopes outer (carryOut 1 (u :: rest)) (pc + 1)) := by
  cases h with
  | assign hi' hscope hb hvariable next =>
    cases hi.symm.trans hi'
    exact .inl ⟨_, _, hscope, hb, hvariable, next⟩
  | declare hi' next =>
    cases hi.symm.trans hi'
    exact .inr ⟨_, _, rfl, rfl, next⟩
  | _ => simp_all [Instruction.Plain, Instruction.Leaves]

end Site

/-! ## Names and declarations -/

theorem binding_of_find {scope : Scope} {name : String} {slot : Nat} {b : Binding}
    (h : Scope.find name scope = some (slot, b)) : scope[slot]? = some b := by
  induction scope generalizing slot b with
  | nil => cases h
  | cons b' scope ih =>
    rw [Scope.find] at h
    by_cases hb : b'.name = name
    · rw [if_pos hb] at h
      cases h
      rfl
    · rw [if_neg hb] at h
      obtain ⟨⟨slot', b''⟩, hfind, heq⟩ := Option.map_eq_some_iff.mp h
      cases heq
      exact ih hfind

theorem Scopes.binding_of_lookup {scopes : Scopes} {name : String} {a : Address} {b : Binding}
    (h : scopes.lookup name = some (a, b)) :
    ∃ scope, scopes[a.frame]? = some scope ∧ scope[a.slot]? = some b := by
  induction scopes generalizing a with
  | nil => cases h
  | cons scope outer ih =>
    rw [Scopes.lookup] at h
    split at h
    · cases h
      exact ⟨scope, rfl, binding_of_find ‹_›⟩
    · obtain ⟨⟨a', b'⟩, hlook, heq⟩ := Option.map_eq_some_iff.mp h
      cases heq
      exact ih hlook

/-- A name of the innermost scope is where the only binding of that name is. -/
theorem Scopes.slot_of_lookup {scope : Scope} {outer : Scopes} {slot slot' : Nat} {b b' : Binding}
    (h : Scopes.lookup b'.name (scope :: outer) = some (⟨0, slot⟩, b)) (hb' : scope[slot']? = some b')
    (hnodup : (scope.map (·.name)).Nodup) : slot = slot' := by
  rw [Scopes.lookup] at h
  split at h
  · rename_i found bfound hfind
    cases h
    have hname := name_of_find hfind
    have hname' : (scope.map (·.name))[slot']? = some b'.name := by rw [List.getElem?_map, hb']; rfl
    exact (List.getElem?_inj (List.getElem?_eq_some_iff.mp hname).1 hnodup).mp (hname.trans hname'.symm)
  · obtain ⟨⟨a', b''⟩, -, heq⟩ := Option.map_eq_some_iff.mp h
    cases heq

theorem Context.initialise_frame {ctx : Context} {name : String} {a : Address}
    (h : ctx.initialise name = .ok [.assign a]) : a.frame = 0 := by
  unfold initialise at h
  split at h
  · cases h
    rfl
  · cases h

theorem Context.assignable_variable {ctx : Context} {name : String} {a : Address} {b : Binding}
    (h : ctx.assignable name = .ok a) (hlook : ctx.scopes.lookup name = some (a, b)) : b.constant = false := by
  unfold assignable at h
  rw [hlook] at h
  dsimp only at h
  split at h
  · cases h
  · exact eq_false_of_ne_true ‹_›

/-- No name is declared twice in a scope. -/
theorem nodup_of_scope {ctx : Context} {start : Nat} {body : Tree}
    {compileBody : Context → Nat → Except CompileError Code} {code : Code}
    (h : ctx.scope start body compileBody = .ok code) : (body.declared.map (·.name)).Nodup := by
  obtain ⟨scope, hscope, -⟩ := Actions.of_bind_ok h
  unfold Tree.declarations at hscope
  split at hscope
  · cases hscope
  · exact (Tree.firstRepeated_eq_none.mp ‹_›).1

/-- The compiler's scopes are those of the site. -/
structure Fits (ctx : Context) (outer : Scopes) (inner : List Underway) : Prop where
  scopes : ctx.scopes = inSight inner outer
  nodup : ∀ u ∈ inner, (u.scope.map (·.name)).Nodup

/-- The next declarations of the innermost scope are these. -/
def Awaits (inner : List Underway) (declared : List Binding) : Prop :=
  match inner with
  | [] => declared = []
  | u :: _ => ∃ rest, u.scope.drop u.done = declared ++ rest

section

variable {ctx : Context} {outer : Scopes} {inner : List Underway}

@[simp] theorem carryOut_zero : carryOut 0 inner = inner := by
  cases inner <;> rfl

@[simp] theorem carryOut_carryOut (n m : Nat) : carryOut m (carryOut n inner) = carryOut (n + m) inner := by
  cases inner with
  | nil => rfl
  | cons u inner => simp [carryOut, Nat.add_assoc]

@[simp] theorem inSight_carryOut (n : Nat) : inSight (carryOut n inner) outer = inSight inner outer := by
  cases inner <;> rfl

theorem Fits.enter (h : Fits ctx outer inner) {scope : Scope} (hnodup : (scope.map (·.name)).Nodup) :
    Fits (ctx.enter scope) outer (⟨scope, 0⟩ :: inner) where
  scopes := congrArg (scope :: ·) h.scopes
  nodup := List.forall_mem_cons.mpr ⟨hnodup, h.nodup⟩

theorem Fits.enterFunction (h : Fits ctx outer inner) (parameters : List String) :
    Fits (ctx.enterFunction parameters) (parameters.map (⟨·, false⟩) :: inSight inner outer) [] where
  scopes := by rw [Context.enterFunction, h.scopes]; rfl
  nodup := by simp

theorem Fits.carryOut (h : Fits ctx outer inner) (n : Nat) : Fits ctx outer (carryOut n inner) where
  scopes := h.scopes.trans (inSight_carryOut n).symm
  nodup := by
    cases inner with
    | nil => simp [ClosureMachine.carryOut]
    | cons u inner =>
      have hnodup := List.forall_mem_cons.mp h.nodup
      exact List.forall_mem_cons.mpr hnodup

theorem Fits.variable {name : String} {a : Address} (h : Fits ctx outer inner)
    (ha : ctx.assignable name = .ok a) :
    ∃ scope b, (inSight inner outer)[a.frame]? = some scope ∧ scope[a.slot]? = some b ∧
      b.constant = false := by
  obtain ⟨b, hlook⟩ := Context.assignable_ok ha
  obtain ⟨scope, hscope, hb⟩ := Scopes.binding_of_lookup hlook
  exact ⟨scope, b, h.scopes ▸ hscope, hb, Context.assignable_variable ha hlook⟩

theorem Awaits.append {here next : List Binding} (h : Awaits inner (here ++ next)) :
    Awaits inner here ∧ Awaits (carryOut here.length inner) next := by
  cases inner with
  | nil => exact List.append_eq_nil_iff.mp h
  | cons u inner =>
    obtain ⟨rest, h⟩ := h
    rw [List.append_assoc] at h
    refine ⟨⟨next ++ rest, h⟩, rest, ?_⟩
    show u.scope.drop (u.done + here.length) = next ++ rest
    rw [← List.drop_drop, h, List.drop_left]

/-- The declaration that is next goes to the next slot. -/
theorem Fits.declared {b : Binding} {code : Code} (h : Fits ctx outer inner) (hawaits : Awaits inner [b])
    (hcode : ctx.initialise b.name = .ok code) :
    ∃ u rest, inner = u :: rest ∧ code = [.assign ⟨0, u.done⟩] := by
  cases inner with
  | nil => cases hawaits
  | cons u inner =>
    obtain ⟨rest, hdrop⟩ := hawaits
    have hb : u.scope[u.done]? = some b := by
      have hfirst := congrArg (·[0]?) hdrop
      simpa using hfirst
    obtain ⟨⟨frame, slot⟩, b', hlook, rfl⟩ := Context.initialise_ok hcode
    obtain rfl : frame = 0 := Context.initialise_frame hcode
    rw [h.scopes] at hlook
    obtain rfl := Scopes.slot_of_lookup hlook hb (h.nodup u List.mem_cons_self)
    exact ⟨u, inner, rfl, rfl⟩

end

/-! ## The code of a tree -/

/-- What has to be known behind the code of a tree with `n` declarations. In tail position nothing has to be
known. -/
def Beyond (program : Program) (scopes : List Scope) (outer : Scopes) (inner : List Underway) (n stop : Nat) :
    Position → Prop
  | .operand => Site program scopes outer inner stop
  | .statement => Site program scopes outer (carryOut n inner) stop
  | .tail => True

/-- The account is right in front of the code of the tree if it is behind it, with the tree's declarations carried
out. -/
def TreeSite (program : Program) (scopes : List Scope) (t : Tree) : Prop :=
  ∀ ⦃ctx : Context⦄ ⦃pos : Position⦄ ⦃start : Nat⦄ ⦃code : Code⦄ ⦃outer : Scopes⦄ ⦃inner : List Underway⦄,
    t.compile ctx pos start = .ok code → CodeAt program start code → Fits ctx outer inner →
    Listed program scopes start t.opened → (pos = .statement → Awaits inner t.declared) →
    Beyond program scopes outer inner t.declared.length (start + code.length) pos →
    Site program scopes outer inner start

def OperandsSite (program : Program) (scopes : List Scope) (ts : List Tree) : Prop :=
  ∀ ⦃ctx : Context⦄ ⦃start : Nat⦄ ⦃code : Code⦄ ⦃outer : Scopes⦄ ⦃inner : List Underway⦄,
    Tree.compileOperands ctx start ts = .ok code → CodeAt program start code → Fits ctx outer inner →
    Listed program scopes start (Tree.openedIn ts) → Site program scopes outer inner (start + code.length) →
    Site program scopes outer inner start

def SequenceSite (program : Program) (scopes : List Scope) (ts : List Tree) : Prop :=
  ∀ ⦃ctx : Context⦄ ⦃pos : Position⦄ ⦃start : Nat⦄ ⦃code : Code⦄ ⦃outer : Scopes⦄ ⦃inner : List Underway⦄,
    pos ≠ .tail → Tree.compileSequence ctx pos start ts = .ok code → CodeAt program start code →
    Fits ctx outer inner → Listed program scopes start (Tree.openedIn ts) →
    (pos = .statement → Awaits inner (Tree.declaredIn ts)) →
    Beyond program scopes outer inner (Tree.declaredIn ts).length (start + code.length) pos →
    Site program scopes outer inner start

section

variable {program : Program} {scopes : List Scope} {ctx : Context} {outer : Scopes} {inner : List Underway}
  {start : Nat}

theorem Beyond.of_ne_tail {pos : Position} {stop : Nat} (hpos : pos ≠ .tail)
    (h : Beyond program scopes outer inner 0 stop pos) : Site program scopes outer inner stop := by
  cases pos with
  | operand => exact h
  | statement => rwa [Beyond, carryOut_zero] at h
  | tail => exact absurd rfl hpos

/-- Code that leaves a value and declares nothing, with a return behind it in tail position. -/
theorem Beyond.finish {pos : Position} {code : Code} (hcode : CodeAt program start (Code.finish pos code))
    (h : Beyond program scopes outer inner 0 (start + (Code.finish pos code).length) pos) :
    CodeAt program start code ∧ Site program scopes outer inner (start + code.length) := by
  cases pos with
  | operand => exact ⟨hcode, h⟩
  | statement => exact ⟨hcode, h.of_ne_tail (by simp)⟩
  | tail =>
    obtain ⟨hcode, hret⟩ := codeAt_snoc.mp hcode
    exact ⟨hcode, .leave hret trivial⟩

theorem site_load {name : String} {code : Code} (h : ctx.load name = .ok code)
    (hcode : CodeAt program start code) (hnext : Site program scopes outer inner (start + code.length)) :
    Site program scopes outer inner start := by
  obtain ⟨a, b, -, rfl⟩ := Context.load_ok h
  exact .plain (codeAt_cons.mp hcode).1 trivial hnext

theorem treeSite_literal (value : Literal) : TreeSite program scopes (.literal value) := by
  intro ctx pos start code outer inner h hcode hfits hlisted hawaits hbeyond
  rw [Tree.compile] at h
  cases h
  obtain ⟨hcode, hnext⟩ := hbeyond.finish hcode
  exact .plain (codeAt_cons.mp hcode).1 trivial hnext

theorem treeSite_identifier (name : String) : TreeSite program scopes (.identifier name) := by
  intro ctx pos start code outer inner h hcode hfits hlisted hawaits hbeyond
  rw [Tree.compile] at h
  obtain ⟨code', hload, h⟩ := Actions.of_bind_ok h
  cases h
  obtain ⟨hcode, hnext⟩ := hbeyond.finish hcode
  exact site_load hload hcode hnext

/-! ### Calls -/

theorem operandsSite_nil : OperandsSite program scopes [] := by
  intro ctx start code outer inner h hcode hfits hlisted hnext
  rw [Tree.compileOperands] at h
  cases h
  exact hnext

theorem operandsSite_cons {t : Tree} {ts : List Tree} (ht : TreeSite program scopes t)
    (hts : OperandsSite program scopes ts) : OperandsSite program scopes (t :: ts) := by
  intro ctx start code outer inner h hcode hfits hlisted hnext
  rw [Tree.compileOperands] at h
  obtain ⟨first, hfirst, h⟩ := Actions.of_bind_ok h
  obtain ⟨rest, hrest, h⟩ := Actions.of_bind_ok h
  cases h
  obtain ⟨hcode, hcode'⟩ := codeAt_append.mp hcode
  rw [Tree.openedIn] at hlisted
  obtain ⟨hlisted, hlisted'⟩ := hlisted.append hcode (treeOpens t hfirst)
  rw [List.length_append, ← Nat.add_assoc] at hnext
  exact ht hfirst hcode hfits hlisted nofun (hts hrest hcode' hfits hlisted' hnext)

/-- A callee, its operands and the instruction that applies it. -/
theorem site_apply {callee operands : Code} {apply : Instruction} {ts : List Tree}
    (hcode : CodeAt program start (callee ++ operands ++ [apply]))
    (hcallee : Site program scopes outer inner (start + callee.length) → Site program scopes outer inner start)
    (hts : OperandsSite program scopes ts)
    (hoperands : Tree.compileOperands ctx (start + callee.length) ts = .ok operands)
    (hfits : Fits ctx outer inner) (hlisted : Listed program scopes (start + callee.length) (Tree.openedIn ts))
    (hnext : program.code[start + callee.length + operands.length]? = some apply →
      Site program scopes outer inner (start + callee.length + operands.length)) :
    Site program scopes outer inner start := by
  obtain ⟨hcode, happly⟩ := codeAt_snoc.mp hcode
  obtain ⟨-, hcode'⟩ := codeAt_append.mp hcode
  rw [List.length_append, ← Nat.add_assoc] at happly
  exact hcallee (hts hoperands hcode' hfits hlisted (hnext happly))

theorem treeSite_application {function : Tree} {arguments : List Tree} (hf : TreeSite program scopes function)
    (hargs : OperandsSite program scopes arguments) :
    TreeSite program scopes (.application function arguments) := by
  intro ctx pos start code outer inner h hcode hfits hlisted hawaits hbeyond
  rw [Tree.compile] at h
  obtain ⟨callee, hcallee, h⟩ := Actions.of_bind_ok h
  obtain ⟨operands, hoperands, h⟩ := Actions.of_bind_ok h
  cases h
  have hat := (codeAt_append.mp (codeAt_append.mp hcode).1).1
  rw [Tree.opened] at hlisted
  obtain ⟨hlisted, hlisted'⟩ := hlisted.append hat (treeOpens function hcallee)
  refine site_apply hcode (hf hcallee hat hfits hlisted nofun) hargs hoperands hfits hlisted' fun happly => ?_
  by_cases hpos : pos = .tail
  · rw [if_pos hpos] at happly
    exact .leave happly trivial
  · rw [if_neg hpos] at happly hbeyond
    have hnext := Beyond.of_ne_tail hpos hbeyond
    rw [List.length_append, List.length_append, ← Nat.add_assoc, ← Nat.add_assoc] at hnext
    exact .plain happly trivial hnext

/-- An operator is a primitive that is loaded by its name and called. -/
theorem site_operator {name : String} {callee operands : Code} {n : Nat} {ts : List Tree}
    (hload : ctx.load name = .ok callee) (hts : OperandsSite program scopes ts)
    (hoperands : Tree.compileOperands ctx (start + 1) ts = .ok operands)
    (hcode : CodeAt program start (callee ++ operands ++ [.call n])) (hfits : Fits ctx outer inner)
    (hlisted : Listed program scopes start (Tree.openedIn ts))
    (hnext : Site program scopes outer inner (start + (callee ++ operands ++ [Instruction.call n]).length)) :
    Site program scopes outer inner start := by
  have hat := (codeAt_append.mp (codeAt_append.mp hcode).1).1
  obtain ⟨a, b, -, rfl⟩ := Context.load_ok hload
  refine site_apply hcode (site_load hload hat) hts hoperands hfits
    (hlisted.skip_one (codeAt_cons.mp hat).1 rfl) fun happly => ?_
  rw [List.length_append, List.length_append, ← Nat.add_assoc, ← Nat.add_assoc] at hnext
  exact .plain happly trivial hnext

theorem treeSite_binary {operator : String} {left right : Tree} (hl : TreeSite program scopes left)
    (hr : TreeSite program scopes right) : TreeSite program scopes (.binary operator left right) := by
  intro ctx pos start code outer inner h hcode hfits hlisted hawaits hbeyond
  rw [Tree.compile] at h
  obtain ⟨callee, hload, h⟩ := Actions.of_bind_ok h
  obtain ⟨first, hfirst, h⟩ := Actions.of_bind_ok h
  obtain ⟨second, hsecond, h⟩ := Actions.of_bind_ok h
  cases h
  obtain ⟨hcode, hnext⟩ := hbeyond.finish hcode
  have hoperands := compileOperands_cons hfirst (compileOperands_cons hsecond compileOperands_nil)
  rw [List.append_nil] at hoperands
  rw [List.append_assoc callee] at hcode hnext
  have hlisted : Listed program scopes start (Tree.openedIn [left, right]) := by
    simpa [Tree.opened, Tree.openedIn] using hlisted
  exact site_operator hload (operandsSite_cons hl (operandsSite_cons hr operandsSite_nil)) hoperands hcode hfits
    hlisted hnext

theorem treeSite_unary {operator : String} {operand : Tree} (ht : TreeSite program scopes operand) :
    TreeSite program scopes (.unary operator operand) := by
  intro ctx pos start code outer inner h hcode hfits hlisted hawaits hbeyond
  rw [Tree.compile] at h
  obtain ⟨callee, hload, h⟩ := Actions.of_bind_ok h
  obtain ⟨first, hfirst, h⟩ := Actions.of_bind_ok h
  cases h
  obtain ⟨hcode, hnext⟩ := hbeyond.finish hcode
  have hoperands := compileOperands_cons hfirst compileOperands_nil
  rw [List.append_nil] at hoperands
  have hlisted : Listed program scopes start (Tree.openedIn [operand]) := by
    simpa [Tree.opened, Tree.openedIn] using hlisted
  exact site_operator hload (operandsSite_cons ht operandsSite_nil) hoperands hcode hfits hlisted hnext

/-! ### Conditionals -/

theorem site_branch {predicate consequent alternative : Code} {ps xs ys : List Scope}
    (hcode : CodeAt program start (Code.branch start predicate consequent alternative))
    (hlisted : Listed program scopes start (ps ++ (xs ++ ys)))
    (hpcount : Code.openings predicate = ps.length) (hxcount : Code.openings consequent = xs.length)
    (hp : CodeAt program start predicate → Listed program scopes start ps →
      Site program scopes outer inner (start + predicate.length) → Site program scopes outer inner start)
    (hx : CodeAt program (start + predicate.length + 1) consequent →
      Listed program scopes (start + predicate.length + 1) xs →
      Site program scopes outer inner (start + predicate.length + 1 + consequent.length) →
      Site program scopes outer inner (start + predicate.length + 1))
    (hy : CodeAt program (start + predicate.length + 1 + consequent.length + 1) alternative →
      Listed program scopes (start + predicate.length + 1 + consequent.length + 1) ys →
      Site program scopes outer inner
        (start + predicate.length + 1 + consequent.length + 1 + alternative.length) →
      Site program scopes outer inner (start + predicate.length + 1 + consequent.length + 1))
    (hnext : Site program scopes outer inner
      (start + (Code.branch start predicate consequent alternative).length)) :
    Site program scopes outer inner start := by
  obtain ⟨hpredicate, hcondition, hconsequent, hjump, halternative⟩ := codeAt_branch hcode
  obtain ⟨hlisted, hlisted'⟩ := hlisted.append hpredicate hpcount
  obtain ⟨hxlisted, hylisted⟩ := (hlisted'.skip_one hcondition rfl).append hconsequent hxcount
  rw [length_branch] at hnext
  apply hp hpredicate hlisted
  apply Site.jumpIfFalse hcondition
  · exact hx hconsequent hxlisted (.jump hjump hnext)
  · exact hy halternative (hylisted.skip_one hjump rfl) hnext

theorem treeSite_conditional {predicate consequent alternative : Tree} (hp : TreeSite program scopes predicate)
    (hx : TreeSite program scopes consequent) (hy : TreeSite program scopes alternative) :
    TreeSite program scopes (.conditional predicate consequent alternative) := by
  intro ctx pos start code outer inner h hcode hfits hlisted hawaits hbeyond
  rw [Tree.compile] at h
  obtain ⟨pcode, hpcode, h⟩ := Actions.of_bind_ok h
  rw [Tree.opened] at hlisted
  cases pos with
  | tail =>
    obtain ⟨xcode, hxcode, h⟩ := Actions.of_bind_ok h
    obtain ⟨ycode, hycode, h⟩ := Actions.of_bind_ok h
    cases h
    obtain ⟨hat, hcondition, hconsequent, halternative⟩ := codeAt_tailBranch hcode
    obtain ⟨hlisted, hlisted'⟩ := hlisted.append hat (treeOpens predicate hpcode)
    obtain ⟨hxlisted, hylisted⟩ :=
      (hlisted'.skip_one hcondition rfl).append hconsequent (treeOpens consequent hxcode)
    apply hp hpcode hat hfits hlisted nofun
    apply Site.jumpIfFalse hcondition
    -- both branches return
    · exact hx hxcode hconsequent hfits hxlisted nofun trivial
    · exact hy hycode halternative hfits hylisted nofun trivial
  | operand | statement =>
    obtain ⟨xcode, hxcode, h⟩ := Actions.of_bind_ok h
    obtain ⟨ycode, hycode, h⟩ := Actions.of_bind_ok h
    cases h
    exact site_branch hcode hlisted (treeOpens predicate hpcode) (treeOpens consequent hxcode)
      (fun hat hlisted => hp hpcode hat hfits hlisted nofun)
      (fun hat hlisted => hx hxcode hat hfits hlisted nofun)
      (fun hat hlisted => hy hycode hat hfits hlisted nofun) (Beyond.of_ne_tail (by simp) hbeyond)

theorem treeSite_logical {operator : String} {left right : Tree} (hl : TreeSite program scopes left)
    (hr : TreeSite program scopes right) : TreeSite program scopes (.logical operator left right) := by
  intro ctx pos start code outer inner h hcode hfits hlisted hawaits hbeyond
  rw [Tree.compile] at h
  rw [Tree.opened] at hlisted
  split at h
  · obtain ⟨lcode, hlcode, h⟩ := Actions.of_bind_ok h
    obtain ⟨rcode, hrcode, h⟩ := Actions.of_bind_ok h
    cases h
    obtain ⟨hcode, hnext⟩ := hbeyond.finish hcode
    rw [← List.append_nil right.opened] at hlisted
    exact site_branch hcode hlisted (treeOpens left hlcode) (treeOpens right hrcode)
      (fun hat hlisted => hl hlcode hat hfits hlisted nofun)
      (fun hat hlisted => hr hrcode hat hfits hlisted nofun)
      (fun hat _ => .plain (codeAt_cons.mp hat).1 trivial) hnext
  · split at h
    · obtain ⟨lcode, hlcode, h⟩ := Actions.of_bind_ok h
      obtain ⟨rcode, hrcode, h⟩ := Actions.of_bind_ok h
      cases h
      obtain ⟨hcode, hnext⟩ := hbeyond.finish hcode
      rw [← List.nil_append right.opened] at hlisted
      exact site_branch hcode hlisted (treeOpens left hlcode) rfl
        (fun hat hlisted => hl hlcode hat hfits hlisted nofun)
        (fun hat _ => .plain (codeAt_cons.mp hat).1 trivial)
        (fun hat hlisted => hr hrcode hat hfits hlisted nofun) hnext
    · cases h

/-! ### Scopes and functions -/

theorem site_scope {body : Tree} {code : Code} (hb : TreeSite program scopes body)
    (h : ctx.scope start body (fun inner start => body.compile inner .statement start) = .ok code)
    (hcode : CodeAt program start code) (hfits : Fits ctx outer inner)
    (hlisted : Listed program scopes start (body.declared :: body.opened))
    (hnext : Site program scopes outer inner (start + code.length)) : Site program scopes outer inner start := by
  have hnodup := nodup_of_scope h
  obtain ⟨bcode, hbcode, rfl⟩ := scope_ok h
  obtain ⟨henter, hbody, hexit⟩ := codeAt_inScope hcode
  obtain ⟨hscope, hlisted⟩ := hlisted.enter henter
  rw [length_inScope] at hnext
  refine .enterScope henter hscope ?_
  -- all declarations of the scope are still to come
  have hawaits : Awaits (⟨body.declared, 0⟩ :: inner) body.declared := ⟨[], by simp⟩
  exact hb hbcode hbody (hfits.enter hnodup) hlisted (fun _ => hawaits) (.exitScope hexit hnext)

theorem treeSite_block {body : Tree} (hb : TreeSite program scopes body) :
    TreeSite program scopes (.block body) := by
  intro ctx pos start code outer inner h hcode hfits hlisted hawaits hbeyond
  rw [Tree.compile] at h
  obtain ⟨bcode, hbcode, h⟩ := Actions.of_bind_ok h
  cases h
  obtain ⟨hcode, hnext⟩ := hbeyond.finish hcode
  rw [Tree.opened] at hlisted
  exact site_scope hb hbcode hcode hfits hlisted hnext

/-- The body of a function, with the return at its end. -/
theorem site_body {body : Tree} {code : Code} (hb : TreeSite program scopes body)
    (h : bodyCode ctx start body = .ok code)
    (hcode : CodeAt program start (code ++ [.pop, .loadConstant .undefined, .ret]))
    (hfits : Fits ctx outer []) (hlisted : Listed program scopes start (body.ownScope ++ body.opened)) :
    Site program scopes outer [] start := by
  obtain ⟨hcode, hend⟩ := codeAt_append.mp hcode
  obtain ⟨hpop, hend⟩ := codeAt_cons.mp hend
  obtain ⟨hload, hret⟩ := codeAt_cons.mp hend
  have hnext : Site program scopes outer [] (start + code.length) :=
    .plain hpop trivial (.plain hload trivial (.leave (codeAt_cons.mp hret).1 trivial))
  rw [Tree.ownScope] at hlisted
  rcases bodyCode_ok h with ⟨hempty, hbody⟩ | ⟨hempty, hbody⟩
  · rw [if_pos hempty] at hlisted
    exact hb hbody hcode hfits hlisted (fun _ => List.isEmpty_iff.mp hempty) hnext
  · rw [hempty] at hlisted
    exact site_scope hb hbody hcode hfits hlisted hnext

theorem site_function {parameters : List String} {body : Tree} {code : Code} (hb : TreeSite program scopes body)
    (h : ctx.function start parameters body (fun inner start => body.compile inner .statement start) =
      .ok code) (hcode : CodeAt program start code) (hfits : Fits ctx outer inner)
    (hlisted : Listed program scopes start (body.ownScope ++ body.opened))
    (hnext : Site program scopes outer inner (start + code.length)) : Site program scopes outer inner start := by
  obtain ⟨bcode, hbcode, rfl⟩ := function_ok h
  obtain ⟨hload, hjump, hbody⟩ := codeAt_function hcode
  have hlisted := (hlisted.skip_one hload rfl).skip_one hjump rfl
  rw [length_function] at hnext
  have hbody := site_body hb hbcode hbody (hfits.enterFunction parameters) hlisted
  -- the body is entered by calls only, and the code around it jumps over it
  exact .loadFunction hload hbody (.jump hjump hnext)

theorem treeSite_lambda {parameters : List String} {body : Tree} (hb : TreeSite program scopes body) :
    TreeSite program scopes (.lambda parameters body) := by
  intro ctx pos start code outer inner h hcode hfits hlisted hawaits hbeyond
  rw [Tree.compile] at h
  obtain ⟨fcode, hfcode, h⟩ := Actions.of_bind_ok h
  cases h
  obtain ⟨hcode, hnext⟩ := hbeyond.finish hcode
  rw [Tree.opened] at hlisted
  exact site_function hb hfcode hcode hfits hlisted hnext

/-! ### Declarations and assignments -/

/-- The end of a declaration. -/
theorem site_initialise {b : Binding} {code icode : Code} (hfits : Fits ctx outer inner)
    (hawaits : Awaits inner [b]) (h : ctx.initialise b.name = .ok icode)
    (hcode : CodeAt program start (code ++ icode))
    (hnext : Site program scopes outer (carryOut 1 inner) (start + (code ++ icode).length)) :
    CodeAt program start code ∧ Site program scopes outer inner (start + code.length) := by
  obtain ⟨u, rest, rfl, rfl⟩ := hfits.declared hawaits h
  obtain ⟨hcode, hassign⟩ := codeAt_snoc.mp hcode
  rw [List.length_append, ← Nat.add_assoc] at hnext
  exact ⟨hcode, .declare hassign hnext⟩

theorem treeSite_declaration {name : String} {value : Tree} {constant : Bool}
    (hv : TreeSite program scopes value) : TreeSite program scopes (.declaration name value constant) := by
  intro ctx pos start code outer inner h hcode hfits hlisted hawaits hbeyond
  rw [Tree.opened] at hlisted
  rw [Tree.declared] at hawaits hbeyond
  unfold Tree.compile at h
  cases pos with
  | statement =>
    obtain ⟨vcode, hvcode, h⟩ := Actions.of_bind_ok h
    obtain ⟨icode, hicode, h⟩ := Actions.of_bind_ok h
    cases h
    obtain ⟨hcode, hnext⟩ := site_initialise hfits (hawaits rfl) hicode hcode hbeyond
    exact hv hvcode hcode hfits hlisted (fun h => by cases h) hnext
  | operand => cases h
  | tail => cases h

theorem treeSite_functionDeclaration {name : String} {parameters : List String} {body : Tree}
    (hb : TreeSite program scopes body) :
    TreeSite program scopes (.functionDeclaration name parameters body) := by
  intro ctx pos start code outer inner h hcode hfits hlisted hawaits hbeyond
  rw [Tree.opened] at hlisted
  rw [Tree.declared] at hawaits hbeyond
  unfold Tree.compile at h
  cases pos with
  | statement =>
    obtain ⟨fcode, hfcode, h⟩ := Actions.of_bind_ok h
    obtain ⟨icode, hicode, h⟩ := Actions.of_bind_ok h
    cases h
    obtain ⟨hcode, hnext⟩ := site_initialise hfits (hawaits rfl) hicode hcode hbeyond
    exact site_function hb hfcode hcode hfits hlisted hnext
  | operand => cases h
  | tail => cases h

theorem treeSite_assignment {name : String} {value : Tree} (hv : TreeSite program scopes value) :
    TreeSite program scopes (.assignment name value) := by
  intro ctx pos start code outer inner h hcode hfits hlisted hawaits hbeyond
  rw [Tree.compile] at h
  obtain ⟨a, ha, h⟩ := Actions.of_bind_ok h
  obtain ⟨vcode, hvcode, h⟩ := Actions.of_bind_ok h
  cases h
  obtain ⟨scope, b, hscope, hb, hvariable⟩ := hfits.variable ha
  obtain ⟨hcode, hnext⟩ := hbeyond.finish hcode
  obtain ⟨hcode, hassign⟩ := codeAt_snoc.mp hcode
  rw [List.length_append, ← Nat.add_assoc] at hnext
  rw [Tree.opened] at hlisted
  exact hv hvcode hcode hfits hlisted nofun (Site.assign hassign hscope hb hvariable hnext)

theorem treeSite_ret {expression : Tree} (he : TreeSite program scopes expression) :
    TreeSite program scopes (.ret expression) := by
  intro ctx pos start code outer inner h hcode hfits hlisted hawaits hbeyond
  rw [Tree.compile] at h
  rw [Tree.opened] at hlisted
  split at h
  · obtain ⟨ecode, hecode, h⟩ := Actions.of_bind_ok h
    cases h
    obtain ⟨hcode, -⟩ := hbeyond.finish hcode
    exact he hecode hcode hfits hlisted nofun trivial
  · cases h

/-! ### Sequences -/

theorem sequenceSite_nil : SequenceSite program scopes [] := by
  intro ctx pos start code outer inner hpos h hcode hfits hlisted hawaits hbeyond
  rw [Tree.compileSequence] at h
  cases h
  exact .plain (codeAt_cons.mp hcode).1 trivial (hbeyond.of_ne_tail hpos)

theorem sequenceSite_last {t : Tree} (ht : TreeSite program scopes t) : SequenceSite program scopes [t] := by
  intro ctx pos start code outer inner hpos h hcode hfits hlisted hawaits hbeyond
  rw [Tree.compileSequence] at h
  simp only [Tree.openedIn, Tree.declaredIn, List.append_nil] at hlisted hawaits hbeyond
  exact ht h hcode hfits hlisted hawaits hbeyond

theorem sequenceSite_cons {t t' : Tree} {ts : List Tree} (ht : TreeSite program scopes t)
    (hts : SequenceSite program scopes (t' :: ts)) : SequenceSite program scopes (t :: t' :: ts) := by
  intro ctx pos start code outer inner hpos h hcode hfits hlisted hawaits hbeyond
  rw [compileSequence_cons] at h
  obtain ⟨first, hfirst, h⟩ := Actions.of_bind_ok h
  obtain ⟨rest, hrest, h⟩ := Actions.of_bind_ok h
  cases h
  obtain ⟨hcode, hcode'⟩ := codeAt_append.mp hcode
  obtain ⟨hpop, hcode'⟩ := codeAt_cons.mp hcode'
  rw [Tree.openedIn] at hlisted
  obtain ⟨hlisted, hlisted'⟩ := hlisted.append hcode (treeOpens t hfirst)
  have hlisted' := hlisted'.skip_one hpop rfl
  rw [Tree.declaredIn] at hawaits hbeyond
  have hlen : start + (first ++ Instruction.pop :: rest).length = start + first.length + 1 + rest.length := by
    simp only [List.length_append, List.length_cons]
    omega
  rw [hlen, List.length_append] at hbeyond
  cases pos with
  | tail => exact absurd rfl hpos
  | operand =>
    exact ht hfirst hcode hfits hlisted nofun
      (.plain hpop trivial (hts hpos hrest hcode' hfits hlisted' nofun hbeyond))
  | statement =>
    -- the declarations of the first statement are carried out before those of the others
    obtain ⟨hhere, hthere⟩ := (hawaits rfl).append
    rw [Beyond, ← carryOut_carryOut] at hbeyond
    exact ht hfirst hcode hfits hlisted (fun _ => hhere)
      (.plain hpop trivial (hts hpos hrest hcode' (hfits.carryOut _) hlisted' (fun _ => hthere) hbeyond))

theorem treeSite_sequence {statements : List Tree} (hs : SequenceSite program scopes statements) :
    TreeSite program scopes (.sequence statements) := by
  intro ctx pos start code outer inner h hcode hfits hlisted hawaits hbeyond
  rw [Tree.compile] at h
  obtain ⟨scode, hscode, h⟩ := Actions.of_bind_ok h
  cases h
  rw [Tree.opened] at hlisted
  rw [Tree.declared] at hawaits hbeyond
  cases pos with
  | operand => exact hs (by simp) hscode hcode hfits hlisted (fun h => by cases h) hbeyond
  | statement => exact hs (by simp) hscode hcode hfits hlisted hawaits hbeyond
  | tail =>
    obtain ⟨hcode, hret⟩ := codeAt_snoc.mp hcode
    exact hs (by simp) hscode hcode hfits hlisted (fun h => by cases h) (Site.leave hret trivial)

end

/-! ## The induction -/

section

variable {program : Program} {scopes : List Scope}

mutual

/-- **The account is right in the code of every tree.** -/
theorem treeSite : (t : Tree) → TreeSite program scopes t
  | .literal value => treeSite_literal value
  | .identifier name => treeSite_identifier name
  | .binary _ left right => treeSite_binary (treeSite left) (treeSite right)
  | .unary _ operand => treeSite_unary (treeSite operand)
  | .logical _ left right => treeSite_logical (treeSite left) (treeSite right)
  | .conditional predicate consequent alternative =>
    treeSite_conditional (treeSite predicate) (treeSite consequent) (treeSite alternative)
  | .lambda _ body => treeSite_lambda (treeSite body)
  | .application function arguments => treeSite_application (treeSite function) (operandsSite arguments)
  | .sequence statements => treeSite_sequence (sequenceSite statements)
  | .block body => treeSite_block (treeSite body)
  | .declaration _ value _ => treeSite_declaration (treeSite value)
  | .assignment _ value => treeSite_assignment (treeSite value)
  | .functionDeclaration _ _ body => treeSite_functionDeclaration (treeSite body)
  | .ret expression => treeSite_ret (treeSite expression)

theorem operandsSite : (ts : List Tree) → OperandsSite program scopes ts
  | [] => operandsSite_nil
  | t :: ts => operandsSite_cons (treeSite t) (operandsSite ts)

theorem sequenceSite : (ts : List Tree) → SequenceSite program scopes ts
  | [] => sequenceSite_nil
  | [t] => sequenceSite_last (treeSite t)
  | t :: t' :: ts => sequenceSite_cons (treeSite t) (sequenceSite (t' :: ts))

end

/-- A program starts with nothing but the globals in sight. -/
theorem site_program {globals : Scopes} {tree : Tree} (h : tree.toProgram globals = .ok program) :
    Site program tree.scopes globals [] 0 := by
  obtain ⟨code, hcompile, hcode, hdone, -⟩ := toProgram_ok h
  refine site_scope (treeSite tree) hcompile hcode ⟨rfl, by simp⟩ ⟨[], ?_⟩ ?_
  · rw [List.append_nil]
    rfl
  · rw [Nat.zero_add]
    exact .leave hdone trivial

end

end ClosureMachine
