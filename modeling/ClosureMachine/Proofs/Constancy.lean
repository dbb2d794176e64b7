import ClosureMachine.Proofs.CodeSafety
import ClosureMachine.Proofs.Ideal.Constants
import ClosureMachine.Proofs.Names

/-!
# Constants are constant

Only the compiler knows which names are constants, and it refuses assignments to them. That this is enough is a
statement about runs: wherever an assignment is carried out, in whichever activation of whichever closure, it goes
to the binding that the compiler had before it. The ideal machine has an account of this (`Ideal.Accounted`), which
is taken here through the first run of a program and then to memory, where environments are followed by
their names.
-/

set_option autoImplicit false

namespace ClosureMachine

open ClosureMachine.Ideal (State Node Loc Core Move InOrder Accounted InRole)

/-! ## The first run of the ideal machine -/

namespace Ideal

/-- A turn of a compiled program that goes on is a move. -/
theorem InOrder.move {program : Program} {s s' : State} {config : Config} {room : Option Nat} (h : InOrder program s)
    (hturn : Ideal.turn room config.maxSteps program s = (.ok none, s')) :
    Move program s.core s'.core ∧ InOrder program s' := by
  rcases h.turn_cases config room with ⟨s'', hgoes, hmove⟩ | ⟨answer, s'', hends⟩ | ⟨failure, s'', hfails, -⟩
  · cases hturn.symm.trans hgoes
    exact hmove
  · cases hturn.symm.trans hends
  · cases hturn.symm.trans hfails

/-- The first `n` turns neither end the program nor fail. -/
def GoesOn (config : Config) (program : Program) (n : Nat) : Prop :=
  ∀ k < n, turn (some (config.heapSize / 2)) config.maxSteps program (reached config program k) =
    (.ok none, reached config program (k + 1))

section

variable {config : Config} {program : Program} {tree : Tree} {n k : Nat}

theorem GoesOn.mono (h : GoesOn config program n) (hle : k ≤ n) : GoesOn config program k :=
  fun j hj => h j (Nat.lt_of_lt_of_le hj hle)

theorem inOrder_reached (hcompile : tree.toProgram Primitive.globals = .ok program)
    (h : GoesOn config program n) : InOrder program (reached config program n) := by
  induction n with
  | zero => exact ⟨sorted_bootState program, typed_boot hcompile⟩
  | succ n ih => exact ((ih (h.mono (Nat.le_succ n))).move (h n (Nat.lt_succ_self n))).2

theorem move_reached (hcompile : tree.toProgram Primitive.globals = .ok program)
    (h : GoesOn config program n) (hk : k < n) :
    Move program (reached config program k).core (reached config program (k + 1)).core :=
  ((inOrder_reached hcompile (h.mono (Nat.le_of_lt hk))).move (h k hk)).1

theorem length_reached_le (h : k ≤ n) :
    (reached config program k).nodes.length ≤ (reached config program n).nodes.length := by
  by_contra hlt
  rw [Nat.not_le] at hlt
  -- a node that there is stays a node of its kind
  have hkind : InRole (reached config program k).nodes (.kind _) (reached config program n).nodes.length :=
    ⟨_, List.getElem?_eq_getElem hlt, rfl⟩
  obtain ⟨n', hn', -⟩ := grows_reached h hkind
  rw [List.getElem?_eq_none (Nat.le_refl _)] at hn'
  cases hn'

/-- One account for the first `n` turns: for which scope each environment was made. -/
structure Chronicle (config : Config) (program : Program) (tree : Tree) (n : Nat) (σ : Loc → Scope) : Prop where
  globals : Primitive.globals = [σ 0]
  accounted : ∀ k ≤ n, Accounted program tree.scopes σ (reached config program k).core
  entered : ∀ k < n, ∀ slots, program.code[(reached config program k).pc]? = some (.enterScope slots) →
    program.scopeAt tree.scopes (reached config program k).pc = some (σ (reached config program (k + 1)).env)

theorem exists_chronicle (hcompile : tree.toProgram Primitive.globals = .ok program)
    (h : GoesOn config program n) : ∃ σ, Chronicle config program tree n σ := by
  induction n with
  | zero =>
    refine ⟨fun _ => Primitive.all.map fun p => ⟨p.name, true⟩, rfl, fun k hk => ?_,
      fun k hk => absurd hk (Nat.not_lt_zero k)⟩
    obtain rfl := Nat.le_zero.mp hk
    exact accounted_boot hcompile
  | succ n ih =>
    obtain ⟨σ, hσ⟩ := ih (h.mono (Nat.le_succ n))
    obtain ⟨σ', hsame, hnext, hentered⟩ :=
      (hσ.accounted n (Nat.le_refl n)).move (move_reached hcompile h (Nat.lt_succ_self n))
    -- the new account says nothing else of nodes that there were
    have hsame : ∀ {k : Nat}, k ≤ n → ∀ l < (reached config program k).nodes.length, σ' l = σ l :=
      fun hk l hl => hsame l (Nat.lt_of_lt_of_le hl (length_reached_le hk))
    have hold : ∀ {k : Nat} {l : Loc}, k ≤ n → InRole (reached config program k).nodes .environment l →
        σ' l = σ l := by
      rintro k l hk ⟨n', hn', -⟩
      exact hsame hk l (lt_of_getElem? hn')
    refine ⟨σ', ?_, fun k hk => ?_, fun k hk slots hi => ?_⟩
    · have hglobals : σ' 0 = σ 0 := hold (Nat.zero_le n) (sorted_bootState program).env
      rw [hglobals]
      exact hσ.globals
    · rcases Nat.le_succ_iff.mp hk with hk | rfl
      · exact (hσ.accounted k hk).congr (hsame hk)
      · exact hnext
    · rcases Nat.lt_succ_iff_lt_or_eq.mp hk with hk | rfl
      · rw [hσ.entered k hk slots hi, hold hk (sorted_reached config program (k + 1)).env]
      · exact hentered slots hi

namespace Chronicle

variable {σ : Loc → Scope}

/-- A constant that has a value keeps it. -/
theorem keeps (hσ : Chronicle config program tree n σ) (hcompile : tree.toProgram Primitive.globals = .ok program)
    (h : GoesOn config program n) {l v : Loc} {slot k' : Nat} {b : Binding} (hb : (σ l)[slot]? = some b)
    (hconstant : b.constant = true) {slots : List (Option Loc)} {outer : Option Loc}
    (hl : (reached config program k).nodes[l]? = some (.environment slots outer))
    (hv : slots[slot]? = some (some v)) (hle : k ≤ k') (hn : k' ≤ n) :
    ∃ slots', (reached config program k').nodes[l]? = some (.environment slots' outer) ∧
      slots'[slot]? = some (some v) := by
  induction k', hle using Nat.le_induction with
  | base => exact ⟨slots, hl, hv⟩
  | succ k' _ ih =>
    obtain ⟨slots', hl', hv'⟩ := ih (Nat.le_of_succ_le hn)
    exact (hσ.accounted k' (Nat.le_of_succ_le hn)).keeps (move_reached hcompile h hn) hl' hb hconstant hv'

/-- An assignment to the slot of a constant is the first one. -/
theorem unassigned (hσ : Chronicle config program tree n σ) (hcompile : tree.toProgram Primitive.globals = .ok program)
    (h : GoesOn config program n) {a : Address} {l v : Loc} {k' : Nat} {b : Binding}
    (hb : (σ l)[a.slot]? = some b) (hconstant : b.constant = true) {slots : List (Option Loc)}
    {outer : Option Loc} (hl : (reached config program k).nodes[l]? = some (.environment slots outer))
    (hv : slots[a.slot]? = some (some v)) (hle : k ≤ k') (hn : k' ≤ n)
    (hi : program.code[(reached config program k').pc]? = some (.assign a))
    (hwalk : outward (reached config program k').env a.frame (reached config program k').nodes =
      .ok (some l) (reached config program k').nodes) : False := by
  obtain ⟨slots', hl', hv'⟩ := hσ.keeps hcompile h hb hconstant hl hv hle hn
  have hnone := (hσ.accounted k' hn).unassigned hi hwalk hl' hb hconstant
  cases hv'.symm.trans hnone

end Chronicle

end

end Ideal

/-! ## In memory -/

section

variable {room : Nat} {w : World} {m : Machine} {s : State}

/-- A walk outward leads to the same environment. -/
theorem Rel.walk (hrel : Rel room w m s) {frame : Nat} {env : Loc} {r : Ref}
    (hwalk : Ideal.outward s.env frame s.nodes = .ok (some env) s.nodes)
    (hr : Environment.outward m.registers.env frame m.heap = .ok (some r)) : w.place env = some r := by
  have hsame := heapSim_outward frame hrel.env hrel.rep
  rw [hwalk, Actions.lift_look_heap, hr] at hsame
  obtain ⟨_, hfound⟩ := hsame
  cases hfound with
  | some hat => exact hat

theorem Rel.place_inj (hrel : Rel room w m s) {l l' : Loc} {r : Ref} (hl : w.place l = some r)
    (hl' : w.place l' = some r) : l = l' := hrel.rep.index_inj hl hl' rfl

/-- What is read from a slot is what the ideal machine has there. -/
theorem Rel.slot_eq (hrel : Rel room w m s) {l : Loc} {env value : Ref} {slot : Nat} (hl : w.place l = some env)
    (hr : Environment.slot? env slot m.heap = .ok (some value)) :
    ∃ v slots outer, w.place v = some value ∧ s.nodes[l]? = some (.environment slots outer) ∧
      slots[slot]? = some (some v) := by
  obtain ⟨n, hn, hplaced⟩ := hrel.rep.placed hl
  have hsame := hplaced.answers_slot? slot
  rw [hr] at hsame
  cases n with
  | environment slots outer =>
    rw [Node.slot?] at hsame
    cases hv : slots[slot]? with
    | none =>
      rw [hv] at hsame
      exact hsame.elim
    | some found =>
      rw [hv] at hsame
      cases hsame with
      | some hat => exact ⟨_, slots, outer, hat, hn, hv⟩
  | _ => exact hsame.elim

/-- In the slot of the environment of the name `l` there is the node of the name `v`. -/
def World.HasInSlot (w : World) (h : Heap) (l : Loc) (slot : Nat) (v : Loc) : Prop :=
  ∃ env value, w.place l = some env ∧ w.place v = some value ∧ Environment.slot? env slot h = .ok (some value)

theorem Rel.hasInSlot_iff (hrel : Rel room w m s) {l v : Loc} {slot : Nat} :
    w.HasInSlot m.heap l slot v ↔ (∃ env, w.place l = some env) ∧
      ∃ slots outer, s.nodes[l]? = some (.environment slots outer) ∧ slots[slot]? = some (some v) := by
  constructor
  · rintro ⟨env, value, hl, hvalue, hr⟩
    obtain ⟨v', slots, outer, hv', hn, hslot⟩ := hrel.slot_eq hl hr
    rw [hrel.place_inj hvalue hv']
    exact ⟨⟨env, hl⟩, slots, outer, hn, hslot⟩
  · rintro ⟨⟨env, hl⟩, slots, outer, hn, hv⟩
    have hsame := (hrel.rep.placed_of hl hn).answers_slot? slot
    rw [Node.slot?, hv] at hsame
    obtain ⟨found, hfound, hat⟩ := hsame.exists_of_ok
    cases hat with
    | some hat => exact ⟨env, _, hl, hat, hfound⟩

end

namespace Machine

/-- The machine has come to an instruction that stores a value in this slot. -/
def Assigns (program : Program) (m : Machine) (env : Ref) (slot : Nat) : Prop :=
  ∃ a, program.code[m.registers.pc]? = some (.assign a) ∧
    Environment.outward m.registers.env a.frame m.heap = .ok (some env) ∧ a.slot = slot

/-- The machine has come to an instruction that reads this slot. -/
def Reads (program : Program) (m : Machine) (env : Ref) (slot : Nat) : Prop :=
  ∃ a, program.code[m.registers.pc]? = some (.load a) ∧
    Environment.outward m.registers.env a.frame m.heap = .ok (some env) ∧ a.slot = slot

end Machine

section

variable (config : Config) (program : Program) (m : Machine) (w : Nat → World)

/-- Turn `n` of the first run assigns to the slot of the environment of this name. -/
def AssignedAt (n : Nat) (l : Loc) (slot : Nat) : Prop :=
  m.GoesOn config program (n + 1) ∧
    ∃ env, (w n).place l = some env ∧ (m.after config program n).Assigns program env slot

/-- After `n` turns, the first run reads from the slot of the environment of this name. -/
def ReadAt (n : Nat) (l : Loc) (slot : Nat) : Prop :=
  m.GoesOn config program n ∧
    ∃ env, (w n).place l = some env ∧ (m.after config program n).Reads program env slot

/-- For which of the scopes an environment was made: for that of the primitives if it was there at boot, and else for
the one that the turn entered in which it was made. -/
inductive MadeFor (scopes : List Scope) : Loc → Scope → Prop
  | boot {l : Loc} {scope : Scope} (hl : (w 0).place l = some m.registers.env)
      (hscope : Primitive.globals = [scope]) : MadeFor scopes l scope
  | entered {n slots : Nat} {l : Loc} {scope : Scope} (hgoes : m.GoesOn config program (n + 1))
      (hi : program.code[(m.after config program n).registers.pc]? = some (.enterScope slots))
      (hscope : program.scopeAt scopes (m.after config program n).registers.pc = some scope)
      (hl : (w (n + 1)).place l = some (m.after config program (n + 1)).registers.env) :
      MadeFor scopes l scope

end

section

variable {config : Config} {program : Program} {m : Machine} {w : Nat → World} {tree : Tree}

theorem Names.goesOn (hn : Names config program m w) {n : Nat} (h : m.GoesOn config program n) :
    Ideal.GoesOn config program n := by
  intro k hk
  have hsame := ((hn.rel k).turn config program).1
  rw [h k hk] at hsame
  rcases hturn : Ideal.turn (some (config.heapSize / 2)) config.maxSteps program
      (Ideal.reached config program k) with ⟨failure | outcome, s⟩ <;> rw [hturn] at hsame
  · exact hsame.elim
  · cases hsame
    rw [Ideal.reached, hturn]

/-- What an environment was made for is what the account says. -/
theorem Names.scope_eq (hn : Names config program m w) {l : Loc} {scope : Scope}
    (h : MadeFor config program m w tree.scopes l scope) :
    ∃ n₀, m.GoesOn config program n₀ ∧ ∀ n σ, n₀ ≤ n → Ideal.Chronicle config program tree n σ → σ l = scope := by
  cases h with
  | boot hl hscope =>
    refine ⟨0, Machine.goesOn_zero, fun n σ _ hσ => ?_⟩
    obtain rfl : l = 0 := (hn.rel 0).place_inj hl (hn.rel 0).env
    exact List.singleton_inj.mp (hσ.globals.symm.trans hscope)
  | @entered j slots _ _ hgoes hi hscope hl =>
    refine ⟨j + 1, hgoes, fun n σ hle hσ => ?_⟩
    rw [(hn.rel (j + 1)).place_inj hl (hn.rel (j + 1)).env]
    rw [(hn.rel j).pc] at hi hscope
    exact Option.some.inj ((hσ.entered j hle slots hi).symm.trans hscope)

/-- The assignment as the ideal machine carries it out. -/
theorem Names.assigned (hn : Names config program m w) (hcompile : tree.toProgram Primitive.globals = .ok program)
    {n : Nat} {l : Loc} {slot : Nat} (h : AssignedAt config program m w n l slot) :
    ∃ frame v slots outer,
      program.code[(Ideal.reached config program n).pc]? = some (.assign ⟨frame, slot⟩) ∧
      Ideal.outward (Ideal.reached config program n).env frame (Ideal.reached config program n).nodes =
        .ok (some l) (Ideal.reached config program n).nodes ∧
      (Ideal.reached config program n).nodes[l]? = some (.environment slots outer) ∧ slot < slots.length ∧
      (Ideal.reached config program (n + 1)).nodes[l]? =
        some (.environment (slots.set slot (some v)) outer) := by
  obtain ⟨hgoes, env, hl, ⟨frame, slot⟩, hi, hr, rfl⟩ := h
  rw [(hn.rel n).pc] at hi
  have hmove := Ideal.move_reached hcompile (hn.goesOn hgoes) (Nat.lt_succ_self n)
  obtain ⟨l', v, slots, outer, hwalk, hl', hlt, hnodes⟩ := hmove.of_assign hi
  obtain rfl := (hn.rel n).place_inj ((hn.rel n).walk hwalk hr) hl
  refine ⟨frame, v, slots, outer, hi, hwalk, hl', hlt, ?_⟩
  rw [show (Ideal.reached config program (n + 1)).nodes = _ from hnodes]
  exact List.getElem?_set_self (Ideal.lt_of_getElem? hl')

/-- There is an account that goes as far as needed. -/
theorem Names.chronicle (hn : Names config program m w) (hcompile : tree.toProgram Primitive.globals = .ok program)
    {l : Loc} {scope : Scope} (hmade : MadeFor config program m w tree.scopes l scope) {n : Nat}
    (hgoes : m.GoesOn config program n) :
    ∃ N σ, n ≤ N ∧ Ideal.GoesOn config program N ∧ Ideal.Chronicle config program tree N σ ∧ σ l = scope := by
  obtain ⟨n₀, hgoes₀, hscope⟩ := hn.scope_eq hmade
  have hfar : Ideal.GoesOn config program (max n n₀) := by
    rcases Nat.le_total n n₀ with hle | hle
    · rw [Nat.max_eq_right hle]
      exact hn.goesOn hgoes₀
    · rw [Nat.max_eq_left hle]
      exact hn.goesOn hgoes
  obtain ⟨σ, hσ⟩ := Ideal.exists_chronicle hcompile hfar
  exact ⟨_, σ, Nat.le_max_left _ _, hfar, hσ, hscope _ σ (Nat.le_max_right _ _) hσ⟩

theorem Names.not_assigned_later (hn : Names config program m w)
    (hcompile : tree.toProgram Primitive.globals = .ok program) {l : Loc} {scope : Scope} {slot k k' : Nat}
    {b : Binding} (hmade : MadeFor config program m w tree.scopes l scope) (hb : scope[slot]? = some b)
    (hconstant : b.constant = true) (hlt : k < k') (h : AssignedAt config program m w k l slot) :
    ¬ AssignedAt config program m w k' l slot := by
  intro h'
  obtain ⟨N, σ, hle, hfar, hσ, rfl⟩ := hn.chronicle hcompile hmade h'.1
  -- the first of the two assignments leaves a value, and the second one would have to find none
  obtain ⟨_, v, slots, outer, -, -, -, hslot, hnext⟩ := hn.assigned hcompile h
  obtain ⟨frame, _, _, _, hi, hwalk, -⟩ := hn.assigned hcompile h'
  exact hσ.unassigned hcompile hfar hb hconstant hnext (List.getElem?_set_self hslot) hlt
    (Nat.le_of_succ_le hle) hi hwalk

/-- A constant that has a value has it wherever its environment goes. -/
theorem Names.hasInSlot (hn : Names config program m w) (hcompile : tree.toProgram Primitive.globals = .ok program)
    {l v : Loc} {scope : Scope} {slot k k' : Nat} {b : Binding}
    (hmade : MadeFor config program m w tree.scopes l scope) (hb : scope[slot]? = some b)
    (hconstant : b.constant = true) (hle : k ≤ k') (hgoes : m.GoesOn config program k')
    (h : (w k).HasInSlot (m.after config program k).heap l slot v) {env : Ref}
    (hl : (w k').place l = some env) : (w k').HasInSlot (m.after config program k').heap l slot v := by
  obtain ⟨N, σ, hN, hfar, hσ, rfl⟩ := hn.chronicle hcompile hmade hgoes
  obtain ⟨-, slots, outer, henv, hslot⟩ := (hn.rel k).hasInSlot_iff.mp h
  obtain ⟨slots', hkept⟩ := hσ.keeps hcompile hfar hb hconstant henv hslot hle hN
  exact (hn.rel k').hasInSlot_iff.mpr ⟨⟨env, hl⟩, slots', outer, hkept⟩

/-- The environment of the primitives is full from the start, and its names are constants. -/
theorem Names.not_assigned_globals (hn : Names config program m w)
    (hcompile : tree.toProgram Primitive.globals = .ok program) {l : Loc} {slot n : Nat}
    (hl : (w 0).place l = some m.registers.env) : ¬ AssignedAt config program m w n l slot := by
  intro h
  obtain ⟨N, σ, hle, hfar, hσ, hscope⟩ := hn.chronicle hcompile (.boot hl rfl) h.1
  obtain rfl : l = 0 := (hn.rel 0).place_inj hl (hn.rel 0).env
  obtain ⟨frame, v, slots, outer, hi, hwalk, henv, hlt, -⟩ := hn.assigned hcompile h
  -- the size of the environment does not change, so the slot is one of those that were filled at boot
  have hstart := Ideal.bootState_globals program
  have hsize : InRole (Ideal.reached config program 0).nodes (.slots Primitive.all.length) 0 :=
    ⟨_, hstart, by simp [Node.Plays]⟩
  obtain ⟨node, hnode, hplays⟩ := Ideal.grows_reached (Nat.zero_le n) hsize
  cases hnode.symm.trans henv
  have hslot : slot < Primitive.all.length := (show slots.length = _ from hplays) ▸ hlt
  have hb : (σ 0)[slot]? = some ⟨(Primitive.all.get ⟨slot, hslot⟩).name, true⟩ := by
    simp [hscope, hslot]
  have hv : ((List.range Primitive.all.length).map fun i => some (i + 1))[slot]? = some (some (slot + 1)) := by
    simp [hslot]
  exact hσ.unassigned hcompile hfar hb rfl hstart hv (Nat.zero_le n) (Nat.le_of_succ_le hle) hi hwalk

end

/-! ## The theorem -/

/-- **Constants are constant.** In the first run of a compiled program, whatever the size of memory and however often
it is collected: the slot of a constant is assigned at most once in the life of its environment, and all that is read
from it is the same node; the environment of the primitives is not assigned to at all; and a slot that has a value
never loses it.

Which slots are those of constants is known from the tree: it has a list of scopes, and every turn that enters a scope
enters one of them. A run that ends has gone through such turns and one more. -/
theorem constants_constant {tree : Tree} {program : Program}
    (hcompile : tree.toProgram Primitive.globals = .ok program) {config : Config} {m : Machine} {log log' : Log}
    (hboot : Machine.boot config program log = (.ok m, log')) :
    ∃ w, Names config program m w ∧
      (∀ n slots, m.GoesOn config program n →
        program.code[(m.after config program n).registers.pc]? = some (.enterScope slots) →
        ∃ scope, program.scopeAt tree.scopes (m.after config program n).registers.pc = some scope ∧
          scope.length = slots) ∧
      (∀ l scope slot b, MadeFor config program m w tree.scopes l scope → scope[slot]? = some b →
        b.constant = true →
          (∀ k k', AssignedAt config program m w k l slot → AssignedAt config program m w k' l slot → k = k') ∧
          ∀ k env value, ReadAt config program m w k l slot → (w k).place l = some env →
            Environment.slot? env slot (m.after config program k).heap = .ok (some value) →
            ∃ v, (w k).place v = some value ∧ ∀ k', k ≤ k' → ReadAt config program m w k' l slot →
              (w k').HasInSlot (m.after config program k').heap l slot v) ∧
      (∀ l slot n, (w 0).place l = some m.registers.env → ¬ AssignedAt config program m w n l slot) ∧
      (∀ l slot k k' env env' value, k ≤ k' → (w k).place l = some env → (w k').place l = some env' →
        Environment.slot? env slot (m.after config program k).heap = .ok (some value) →
        ∃ value', Environment.slot? env' slot (m.after config program k').heap = .ok (some value')) ∧
      ∀ fuel log₁ result m' log₂, Machine.run config program fuel m log₁ = some (result, m', log₂) →
        ∃ k, m.GoesOn config program k ∧ m' = m.after config program (k + 1) := by
  obtain ⟨w, hn⟩ := exists_names hboot
  refine ⟨w, hn, ?_, ?_, ?_, ?_, fun fuel log₁ result m' log₂ hrun => Machine.goesOn_of_run hrun⟩
  · intro n slots hgoes hi
    obtain ⟨σ, hσ⟩ := Ideal.exists_chronicle hcompile (hn.goesOn hgoes)
    obtain ⟨outer, inner, envs, blocks, control, others, haccount⟩ := hσ.accounted n (Nat.le_refl n)
    rw [(hn.rel n).pc] at hi ⊢
    obtain ⟨scope, hlen, hscope, -⟩ := haccount.site.of_enterScope hi
    exact ⟨scope, hscope, hlen.symm⟩
  · intro l scope slot b hmade hb hconstant
    constructor
    · intro k k' h h'
      rcases Nat.lt_trichotomy k k' with hlt | heq | hlt
      · exact absurd h' (hn.not_assigned_later hcompile hmade hb hconstant hlt h)
      · exact heq
      · exact absurd h (hn.not_assigned_later hcompile hmade hb hconstant hlt h')
    · intro k env value _ hl hr
      obtain ⟨v, -, -, hv, -, -⟩ := (hn.rel k).slot_eq hl hr
      refine ⟨v, hv, fun k' hle hread => ?_⟩
      obtain ⟨hgoes, env', hl', -⟩ := hread
      exact hn.hasInSlot hcompile hmade hb hconstant hle hgoes ⟨env, value, hl, hv, hr⟩ hl'
  · intro l slot n hl
    exact hn.not_assigned_globals hcompile hl
  · intro l slot k k' env env' value hle hl hl' hr
    obtain ⟨v, slots, outer, -, henv, hslot⟩ := (hn.rel k).slot_eq hl hr
    have hassigned : InRole (Ideal.reached config program k).nodes (.assigned slot) l := ⟨_, henv, v, hslot⟩
    obtain ⟨node, hnode, hplays⟩ := Ideal.grows_reached hle hassigned
    cases node with
    | environment slots' outer' =>
      obtain ⟨v', hv'⟩ := hplays
      obtain ⟨found, value', hfound, -, hr'⟩ :=
        (hn.rel k').hasInSlot_iff.mpr ⟨⟨env', hl'⟩, slots', outer', hnode, hv'⟩
      cases hl'.symm.trans hfound
      exact ⟨value', hr'⟩
    | _ => exact hplays.elim

/-- A memory in which `spin` has to collect every few turns. -/
def tight : Config := ⟨400, none⟩

set_option maxRecDepth 100000 in
/-- The first turns of `spin`. -/
theorem spin_starts : ∃ program m log, spin.toProgram Primitive.globals = .ok program ∧
    Machine.boot tight program .silent = (.ok m, log) ∧ m.GoesOn tight program 4 ∧
    m.registers.pc = 0 ∧ program.code[0]? = some (.enterScope 1) ∧
    (∀ k ∈ [1, 2], ∃ i, program.code[(m.after tight program k).registers.pc]? = some i ∧
      (i.functionEntry <|> i.jumpTarget).isSome) ∧
    program.code[(m.after tight program 3).registers.pc]? = some (.assign ⟨0, 0⟩) := by
  have hcheck : ((spin.toProgram Primitive.globals).toOption.any fun program =>
      (Machine.boot tight program .silent).1.toOption.any fun m =>
        (List.range 4).all (fun k => decide (((m.after tight program k).turn tight program).1 = .ok none)) &&
        (m.registers.pc == 0 && (program.code[0]? == some (.enterScope 1) &&
        ([1, 2].all (fun k => program.code[(m.after tight program k).registers.pc]?.any
          fun i => (i.functionEntry <|> i.jumpTarget).isSome) &&
        program.code[(m.after tight program 3).registers.pc]? == some (.assign ⟨0, 0⟩))))) = true := by
    decide +kernel
  obtain ⟨program, hcompile, hcheck⟩ := Actions.of_any_ok hcheck
  obtain ⟨m, hboot, hcheck⟩ := Actions.of_any_ok hcheck
  simp only [Bool.and_eq_true, beq_iff_eq, decide_eq_true_iff, List.all_eq_true, List.mem_range,
    Option.any_eq_true] at hcheck
  obtain ⟨hgoes, hpc, henter, hstays, hassign⟩ := hcheck
  have hboots : Machine.boot tight program .silent = (.ok m, (Machine.boot tight program .silent).2) := by
    rw [← hboot]
  exact ⟨program, m, _, hcompile, hboots, hgoes, hpc, henter, hstays, hassign⟩

/-- The function of `spin` calls itself for ever, while memory is collected again and again. Its name is assigned in the
third turn after its scope was entered, and never again. -/
theorem constants_constant_spin : ∃ program m log w l, spin.toProgram Primitive.globals = .ok program ∧
    Machine.boot tight program .silent = (.ok m, log) ∧ Names tight program m w ∧
    MadeFor tight program m w spin.scopes l [⟨"f", true⟩] ∧ AssignedAt tight program m w 3 l 0 ∧
    ∀ k, AssignedAt tight program m w k l 0 → k = 3 := by
  obtain ⟨program, m, log, hcompile, hboot, hgoes, hpc, henter, hstays, hassign⟩ := spin_starts
  obtain ⟨w, hn, -, hconstant, -⟩ := constants_constant hcompile hboot
  have hmoves : ∀ k ∈ [1, 2], (Ideal.reached tight program (k + 1)).env =
      (Ideal.reached tight program k).env := by
    intro k hk
    obtain ⟨i, hi, hi'⟩ := hstays k hk
    rw [(hn.rel k).pc] at hi
    have hlt : k < 4 := by
      rcases List.mem_pair.mp hk with rfl | rfl <;> decide
    exact (Ideal.move_reached hcompile (hn.goesOn hgoes) hlt).env_eq hi hi'
  have hmade : MadeFor tight program m w spin.scopes (Ideal.reached tight program 1).env
      [⟨"f", true⟩] := by
    have hi : program.code[(m.after tight program 0).registers.pc]? = some (.enterScope 1) := by
      show program.code[m.registers.pc]? = _
      rw [hpc, henter]
    have hscope : program.scopeAt spin.scopes (m.after tight program 0).registers.pc = some [⟨"f", true⟩] := by
      show program.scopeAt spin.scopes m.registers.pc = _
      rw [hpc]
      rfl
    exact .entered (fun k hk => hgoes k (by omega)) hi hscope (hn.rel 1).env
  have hassigned : AssignedAt tight program m w 3 (Ideal.reached tight program 1).env 0 := by
    refine ⟨hgoes, (m.after tight program 3).registers.env, ?_, ⟨0, 0⟩, hassign, rfl, rfl⟩
    rw [← hmoves 1 (by simp), ← hmoves 2 (by simp)]
    exact (hn.rel 3).env
  refine ⟨program, m, log, w, _, hcompile, hboot, hn, hmade, hassigned, fun k hk => ?_⟩
  exact (hconstant _ _ 0 ⟨"f", true⟩ hmade rfl rfl).1 k 3 hk hassigned

end ClosureMachine
