import ClosureMachine.Proofs.Ideal.Boot
import ClosureMachine.Proofs.Ideal.Refinement

/-!
# Memory is never misread

Code can be anything: it can leave scopes that it did not enter, name slots that no environment has and go on
after a fault. It cannot make the machine follow a reference that is not current, or take a node for what it
is not. `Machine.Sound` says so of one state of the machine, in terms of its words; here it is shown of every
state of a booted machine, whatever it runs and however often.

There is one thing that code can do: ask for more than numbers can count. The number of words of a scope or of an
operand stack, and the offset of a slot, are sums, and one that is too large stops the program where memory was to be
found short, or the slot missing. `Machine.Exceeds` says when.

The ideal machine has done the work. That every one of its references is to a node of the right role is its
own invariant, and the machine in memory holds its nodes word for word.
-/

set_option autoImplicit false

namespace ClosureMachine

open Heap (headerSize)
open ClosureMachine.Ideal (State Node Loc InRole Role)

/-! ## Well-formed memory -/

namespace Kind

/-- The kinds of nodes that are values of programs. -/
def values : List Kind := [.boxed, .closure, .primitive]

/-- The kinds of nodes that wait on the control stack. -/
def frames : List Kind := [.callFrame, .blockFrame]

end Kind

namespace Heap

/-- The reference is current, and leads to an allocated node of one of the kinds. -/
structure RefersTo (h : Heap) (kinds : List Kind) (r : Ref) : Prop where
  epoch : r.epoch = h.epoch
  node : h.NodeAt r.index
  kind : ∃ k ∈ kinds, h.word r.index = .tag k

theorem RefersTo.mono {h : Heap} {kinds kinds' : List Kind} {r : Ref} (hr : h.RefersTo kinds r)
    (hsub : kinds ⊆ kinds') : h.RefersTo kinds' r := by
  obtain ⟨k, hk, htag⟩ := hr.kind
  exact ⟨hr.epoch, hr.node, k, hsub hk, htag⟩

/-- The word is such a reference. -/
def Holds (h : Heap) (kinds : List Kind) (v : Word) : Prop := ∃ r, v = .ref r ∧ h.RefersTo kinds r

/-- The `k`-th word behind the header of the node at a position. -/
def field (h : Heap) (i k : Nat) : Word := h.word (i + headerSize + k)

/-- Behind the header at a position are the words that a node of this kind has. -/
def Formed (h : Heap) (i : Nat) : Kind → Prop
  | .environment => ∃ slots, h.childrenAt i = slots + 1 ∧
      (∀ k < slots, h.field i k = .unassigned ∨ h.Holds Kind.values (h.field i k)) ∧
      (h.field i slots = .nil ∨ h.Holds [.environment] (h.field i slots))
  | .closure => h.Holds [.environment] (h.field i 0) ∧
      ∃ arity entry stack, h.field i 1 = .count arity ∧ h.field i 2 = .count entry ∧
        h.field i 3 = .count stack
  | .primitive => ∃ id, h.field i 0 = .count id
  | .callFrame => h.Holds [.environment] (h.field i 0) ∧ h.Holds [.operandStack] (h.field i 1) ∧
      ∃ address, h.field i 2 = .count address
  | .blockFrame => h.Holds [.environment] (h.field i 0)
  | .operandStack => ∃ top ≤ h.childrenAt i, h.field i (h.childrenAt i) = .count top ∧
      (∀ k < top, h.Holds Kind.values (h.field i k)) ∧
      ∀ k, top ≤ k → k < h.childrenAt i → h.field i k = .empty
  | .boxed => ∃ datum, h.field i 0 = .datum datum

end Heap

namespace Machine

/-- Every register refers to nodes of the right kinds, and whatever can be reached from there is a
well-formed node. -/
structure Sound (m : Machine) : Prop where
  env : m.heap.RefersTo [.environment] m.registers.env
  stack : m.heap.RefersTo [.operandStack] m.registers.stack
  control : ∀ r ∈ m.registers.control.frames, m.heap.RefersTo Kind.frames r
  pinned : ∀ r ∈ m.registers.pinned, m.heap.RefersTo [.environment, .operandStack] r
  nodes : ∀ r, m.heap.Reaches (RootSet.toList m.registers) r →
    ∃ k, m.heap.RefersTo [k] r ∧ m.heap.Formed r.index k

/-- The innermost frame is that of a call. -/
def InCall (m : Machine) : Prop :=
  ∃ frame rest, m.registers.control.frames = frame :: rest ∧ m.heap.RefersTo [.callFrame] frame

/-- There is an environment for the address, but it does not have the slot. -/
def Lacks (m : Machine) (a : Address) : Prop :=
  ∃ env slots, Environment.outward m.registers.env a.frame m.heap = .ok (some env) ∧
    Environment.size env m.heap = .ok slots ∧ slots ≤ a.slot

/-- A call of so many arguments needs a node that no memory can hold: an environment for them, or the operand
stack that the callee asks for. -/
def Overloads (m : Machine) (arguments : Nat) : Prop :=
  ∃ slots, wordLimit ≤ headerSize + (slots + 1) ∧ (slots = arguments ∨
    ∃ callee, OperandStack.peek m.registers.stack arguments m.heap = .ok callee ∧
      Closure.stack callee m.heap = .ok slots)

/-- The instruction at which the machine stands asks for a sum that is too large. -/
def Exceeds (m : Machine) (program : Program) : Quantity → Prop
  | .nodeSize =>
    (∃ slots, program.code[m.registers.pc]? = some (.enterScope slots) ∧
      wordLimit ≤ headerSize + (slots + 1)) ∨
    ∃ n, (program.code[m.registers.pc]? = some (.call n) ∨
      program.code[m.registers.pc]? = some (.tailCall n)) ∧ m.Overloads n
  | .slotOffset =>
    ∃ a, (program.code[m.registers.pc]? = some (.load a) ∨
      program.code[m.registers.pc]? = some (.assign a)) ∧ m.Lacks a ∧ wordLimit ≤ headerSize + a.slot
  | .headerEnd => False

/-- What a fault says about memory, if it is the fault of the instruction at which the machine stands. A
reference is never stale, a header never corrupt, a word never unexpected and a position never outside the
array. Kinds are mistaken only if a scope is left from inside a call, and offsets only for a slot that is
not there. -/
def Blames (m : Machine) (program : Program) : Fault → Prop
  | .heap (.staleReference _) | .heap (.corruptHeader _) | .heap (.unexpectedWord ..)
  | .heap (.outsideArray ..) => False
  | .heap (.kindMismatch _ expected found) =>
    program.code[m.registers.pc]? = some .exitScope ∧ expected = .blockFrame ∧ found = .callFrame ∧
      m.InCall
  | .heap (.offsetOutOfBounds ..) =>
    ∃ a, (program.code[m.registers.pc]? = some (.load a) ∨
      program.code[m.registers.pc]? = some (.assign a)) ∧ m.Lacks a
  | .heap (.overflow sum) => m.Exceeds program sum
  | _ => True

/-- The machine after `n` turns. It need not be one run: a machine that has stopped is run again. -/
def after (config : Config) (program : Program) (m : Machine) : (n : Nat) → Machine
  | 0 => m
  | n + 1 => ((m.after config program n).turn config program).2

/-- The first `n` turns neither end the program nor fail. -/
def GoesOn (config : Config) (program : Program) (m : Machine) (n : Nat) : Prop :=
  ∀ k < n, ((m.after config program k).turn config program).1 = .ok none

/-- A call that fails for want of memory, or of numbers for the memory that it wants. -/
def CallStarves (config : Config) (program : Program) (m : Machine) : Prop :=
  ∃ i failure, program.code[m.registers.pc]? = some i ∧ i.IsCall ∧
    (m.turn config program).1 = .error failure ∧
      ((∃ requested available, failure.fault = .heap (.outOfMemory requested available)) ∨
        failure.fault = .heap (.overflow .nodeSize))

end Machine

/-! ## Roles and kinds -/

/-- The kinds of nodes that can play a role that places ask for. -/
def Ideal.Role.kinds : Role → List Kind
  | .value => Kind.values
  | .environment => [.environment]
  | .stack => [.operandStack]
  | .frame => Kind.frames
  | .call => [.callFrame]
  | .closure => [.closure]
  | .slots _ | .assigned _ => [.environment]
  | .box _ => [.boxed]
  | .kind k => [k]

theorem Ideal.Node.Plays.kind_mem {role : Role} {n : Node} (h : n.Plays role) :
    n.kind ∈ role.kinds := by
  cases role <;> cases n <;> simp_all [Node.Plays, Role.kinds, Node.kind, Kind.values, Kind.frames]

section

variable {w : World} {h : Heap} {nodes : List Node}

theorem World.Placed.refersTo {r : Ref} {n : Node} (hp : w.Placed h r n) {kinds : List Kind}
    (hk : n.kind ∈ kinds) : h.RefersTo kinds r :=
  ⟨hp.epoch, hp.nodeAt, n.kind, hk, hp.tag⟩

theorem Represents.refersTo (hr : Represents w h nodes) {role : Role} {l : Loc} {r : Ref}
    (hl : w.At r l) (hrole : InRole nodes role l) : h.RefersTo role.kinds r := by
  obtain ⟨n, hn, hplays⟩ := hrole
  exact (hr.placed_of hl hn).refersTo hplays.kind_mem

theorem Represents.holds (hr : Represents w h nodes) {role : Role} {l : Loc} {v : Word}
    (hv : w.Shows (.ref l) v) (hrole : InRole nodes role l) : h.Holds role.kinds v := by
  obtain ⟨r, hl, rfl⟩ := hv
  exact ⟨r, rfl, hr.refersTo hl hrole⟩

/-- A node whose links are set, and lead to nodes of the right roles, is well formed in memory. -/
theorem Represents.formed (hr : Represents w h nodes) {r : Ref} {n : Node} (hp : w.Placed h r n)
    (hs : n.Sorted nodes)
    (hlinked : n.Plays .value ∨ n.Plays .environment ∨ n.Plays .stack ∨ n.Plays .frame) :
    h.Formed r.index n.kind := by
  have hcell := @World.Placed.cells w h r n hp
  rcases n with ⟨slots, outer⟩ | ⟨_ | env, arity, entry, stack⟩ | id |
    ⟨_ | env, _ | stack, address⟩ | ⟨_ | env⟩ | ⟨operands, free⟩ | value <;>
    simp only [Node.Plays, or_self, or_false, or_true] at hlinked
  · refine ⟨slots.length, by rw [hp.childrenAt]; rfl, fun k hk => ?_, ?_⟩
    · have hshow := hcell (k := k) (c := Node.slotCell slots[k])
        (by simp [Node.cells, List.getElem?_append, hk])
      cases hslot : slots[k] with
      | none =>
        rw [hslot] at hshow
        exact .inl hshow
      | some v =>
        rw [hslot] at hshow
        exact .inr (hr.holds hshow (hs.1 v (hslot ▸ List.getElem_mem hk)))
    · have hshow := hcell (k := slots.length) (c := Node.linkCell outer) (by simp [Node.cells])
      cases outer with
      | none => exact .inl hshow
      | some o => exact .inr (hr.holds hshow (hs.2 o rfl))
  · exact ⟨hr.holds (hcell (k := 0) rfl) (hs env rfl), arity, entry, stack, hcell (k := 1) rfl,
      hcell (k := 2) rfl, hcell (k := 3) rfl⟩
  · exact ⟨id, hcell (k := 0) rfl⟩
  · exact ⟨hr.holds (hcell (k := 0) rfl) (hs.1 env rfl), hr.holds (hcell (k := 1) rfl) (hs.2 stack rfl),
      address, hcell (k := 2) rfl⟩
  · exact hr.holds (hcell (k := 0) rfl) (hs env rfl)
  · have hcount : h.childrenAt r.index = operands.length + free := hp.childrenAt
    refine ⟨operands.length, by omega, ?_, fun k hk => ?_, fun k hle hlt => ?_⟩
    · rw [hcount]
      exact hcell (k := operands.length + free) (c := .count operands.length)
        (by rw [Node.cells, List.getElem?_append_right (by simp)]; simp)
    · have hlt : k < operands.reverse.length := by simpa using hk
      refine hr.holds (hcell (k := k) (c := .ref operands.reverse[k]) ?_)
        (hs _ (List.mem_reverse.mp (List.getElem_mem hlt)))
      rw [Node.cells, List.append_assoc, List.getElem?_append_left (by simpa using hk)]
      simp [hk]
    · refine hcell (k := k) (c := .empty) ?_
      rw [Node.cells, List.getElem?_append_left (by simp; omega),
        List.getElem?_append_right (by simpa using hle), List.getElem?_replicate, if_pos]
      simp
      omega
  · obtain ⟨d, hd, _⟩ := hcell (k := 0) rfl
    exact ⟨d, hd⟩

end

/-! ## What the ideal machine can reach -/

namespace Ideal

/-- What a node refers to plays one of the roles that nodes ask for. -/
theorem Node.Sorted.of_mem_refs {nodes : List Node} {n : Node} (hs : n.Sorted nodes) {l : Loc}
    (hl : l ∈ n.refs) :
    InRole nodes .value l ∨ InRole nodes .environment l ∨ InRole nodes .stack l := by
  have hmem := Node.mem_refs.mp hl
  cases n with
  | environment slots outer =>
    rcases List.mem_append.mp hmem with hslot | hlink
    · obtain ⟨v, hv, heq⟩ := List.mem_map.mp hslot
      cases v <;> simp only [Node.slotCell, reduceCtorEq, Node.Cell.ref.injEq] at heq
      exact .inl (hs.1 l (heq ▸ hv))
    · cases outer <;> simp [Node.linkCell] at hlink
      exact .inr (.inl (hs.2 l (by rw [hlink])))
  | closure env arity entry stack =>
    cases env <;> simp [Node.cells, Node.linkCell] at hmem
    exact .inr (.inl (hs l (by rw [hmem])))
  | primitive id => simp [Node.cells] at hmem
  | callFrame env stack address =>
    simp only [Node.cells, List.mem_cons, reduceCtorEq, List.not_mem_nil, or_false] at hmem
    rcases hmem with hmem | hmem
    · cases env <;> simp [Node.linkCell] at hmem
      exact .inr (.inl (hs.1 l (by rw [hmem])))
    · cases stack <;> simp [Node.linkCell] at hmem
      exact .inr (.inr (hs.2 l (by rw [hmem])))
  | blockFrame env =>
    cases env <;> simp [Node.cells, Node.linkCell] at hmem
    exact .inr (.inl (hs l (by rw [hmem])))
  | operandStack operands free => exact .inl (hs l (by simpa [Node.cells] using hmem))
  | boxed value => simp [Node.cells] at hmem

/-- Nodes whose links have not been set are out of reach. -/
theorem State.Sorted.linked {s : State} (hs : s.Sorted) {l : Loc}
    (hl : Reaches s.nodes s.roots l) :
    ∃ n, s.nodes[l]? = some n ∧
      (n.Plays .value ∨ n.Plays .environment ∨ n.Plays .stack ∨ n.Plays .frame) := by
  cases hl with
  | root hmem =>
    simp only [State.roots, List.mem_cons, List.mem_append, List.mem_reverse] at hmem
    rcases hmem with rfl | rfl | hc | hp
    · obtain ⟨n, hn, hplays⟩ := hs.env
      exact ⟨n, hn, .inr (.inl hplays)⟩
    · obtain ⟨n, hn, hplays⟩ := hs.stack
      exact ⟨n, hn, .inr (.inr (.inl hplays))⟩
    · obtain ⟨n, hn, hplays⟩ := hs.control l hc
      exact ⟨n, hn, .inr (.inr (.inr hplays))⟩
    · rcases hs.pinned l hp with ⟨n, hn, hplays⟩ | ⟨n, hn, hplays⟩
      · exact ⟨n, hn, .inr (.inl hplays)⟩
      · exact ⟨n, hn, .inr (.inr (.inl hplays))⟩
  | child _ hn hc =>
    rcases (hs.nodes hn).of_mem_refs hc with ⟨n, hn, hplays⟩ | ⟨n, hn, hplays⟩ | ⟨n, hn, hplays⟩
    · exact ⟨n, hn, .inl hplays⟩
    · exact ⟨n, hn, .inr (.inl hplays)⟩
    · exact ⟨n, hn, .inr (.inr (.inl hplays))⟩

end Ideal

/-! ## From the ideal machine to memory -/

section

variable {room : Nat} {w : World} {m : Machine} {s : State}

/-- The faults of this kind. -/
theorem Fault.cases_outOfMemory {f : Fault} (h : f.kind = .outOfMemory) :
    (∃ requested available, f = .heap (.outOfMemory requested available)) ∨
      f = .heap (.overflow .nodeSize) := by
  cases f with
  | heap e =>
    cases e with
    | outOfMemory requested available => exact .inl ⟨requested, available, rfl⟩
    | overflow sum =>
      cases sum with
      | nodeSize => exact .inr rfl
      | _ => cases h
    | _ => cases h
  | _ => cases h

/-- A machine that follows an ideal one in good order is sound. -/
theorem Rel.memorySound (hrel : Rel room w m s) (hs : s.Sorted) : m.Sound where
  env := hrel.rep.refersTo hrel.env hs.env
  stack := hrel.rep.refersTo hrel.stack hs.stack
  control r hr := by
    obtain ⟨l, hl, hat⟩ := Represents.Rooted.of_mem hrel.control hr
    exact hrel.rep.refersTo hat (hs.control l hl)
  pinned r hr := by
    obtain ⟨l, hl, hat⟩ := Represents.Rooted.of_mem hrel.pinned hr
    rcases hs.pinned l hl with hrole | hrole
    · exact (hrel.rep.refersTo hat hrole).mono (by simp [Role.kinds])
    · exact (hrel.rep.refersTo hat hrole).mono (by simp [Role.kinds])
  nodes r hr := by
    obtain ⟨l, hl, hat⟩ := (hrel.rep.reaches_iff hrel.rooted r).mp hr
    obtain ⟨n, hn, hlinked⟩ := hs.linked hl
    have hp := hrel.rep.placed_of hat hn
    exact ⟨n.kind, hp.refersTo (by simp), hrel.rep.formed hp (hs.nodes hn) hlinked⟩

theorem Rel.inCall (hrel : Rel room w m s) (h : s.InCall) : m.InCall := by
  obtain ⟨frame, rest, hc, hrole⟩ := h
  have hcontrol := hrel.control
  rw [hc] at hcontrol
  cases hcontrol' : m.registers.control.frames with
  | nil =>
    rw [hcontrol'] at hcontrol
    cases hcontrol
  | cons r refs =>
    rw [hcontrol'] at hcontrol
    cases hcontrol with
    | cons hat _ => exact ⟨r, refs, hcontrol', hrel.rep.refersTo hat hrole⟩

theorem Rel.lacks (hrel : Rel room w m s) {a : Address} (h : s.Lacks a) : m.Lacks a := by
  obtain ⟨env, slots, outer, hwalk, hn, hle⟩ := h
  have hsame := heapSim_outward a.frame hrel.env hrel.rep
  rw [hwalk, Actions.lift_look_heap] at hsame
  cases hr : Environment.outward m.registers.env a.frame m.heap with
  | error e =>
    rw [hr] at hsame
    exact hsame.elim
  | ok found =>
    rw [hr] at hsame
    obtain ⟨_, hfound⟩ := hsame
    cases hfound with
    | some hat =>
      exact ⟨_, slots.length, hr, (hrel.rep.placed_of hat hn).environmentSize_eq, hle⟩

theorem Rel.overloads (hrel : Rel room w m s) {n : Nat} (h : s.Overloads n) : m.Overloads n := by
  obtain ⟨slots, hlarge, rfl | ⟨operands, free, callee, outer, arity, entry, hstack, hcallee, hn⟩⟩ := h
  · exact ⟨slots, hlarge, .inl rfl⟩
  · have hpeek := (hrel.rep.placed_of hrel.stack hstack).answers_peek n
    rw [Node.peek, hcallee] at hpeek
    obtain ⟨r, hr, hat⟩ := hpeek.exists_of_ok
    obtain ⟨_, hslots, rfl⟩ := (hrel.rep.placed_of hat hn).answers_capacity.exists_of_ok
    exact ⟨_, hlarge, .inr ⟨r, hr, hslots⟩⟩

section

variable {program : Program} {f : Fault}

/-- Positions in memory do not matter. -/
theorem Machine.blames_anywhere : m.Blames program f.anywhere ↔ m.Blames program f := by
  cases f with
  | heap e => cases e <;> exact Iff.rfl
  | _ => exact Iff.rfl

theorem Ordinary.blames (h : Ordinary f) : m.Blames program f := by
  cases f with
  | heap e =>
    cases e with
    | outOfMemory | operandStackOverflow | operandStackUnderflow => trivial
    | _ => exact h.elim
  | _ => trivial

/-- A slot that is not there is named by an offset that is out of bounds, or by none. -/
theorem Machine.Lacks.blames {a : Address} (h : m.Lacks a)
    (hi : program.code[m.registers.pc]? = some (.load a) ∨
      program.code[m.registers.pc]? = some (.assign a)) :
    m.Blames program (.heap (Node.noSlot a.slot)) := by
  unfold Node.noSlot HeapError.tooLarge
  split
  · exact ⟨a, hi, h, ‹_›⟩
  · exact ⟨a, hi, h⟩

/-- What the ideal machine permits, up to positions in memory. -/
theorem Rel.blames (hrel : Rel room w m s)
    (h : Ordinary f.anywhere ∨ ∃ i, program.code[s.pc]? = some i ∧ s.Permits i f.anywhere) :
    m.Blames program f := by
  rw [← Machine.blames_anywhere]
  rcases h with hord | ⟨i, hi, hpermits⟩
  · exact hord.blames
  rw [← hrel.pc] at hi
  generalize f.anywhere = fault at hpermits
  cases hpermits with
  | ordinary hord => exact hord.blames
  | inCall hcall => exact ⟨hi, rfl, rfl, hrel.inCall hcall⟩
  | load hlacks => exact (hrel.lacks hlacks).blames (.inl hi)
  | assign hlacks => exact (hrel.lacks hlacks).blames (.inr hi)
  | enterScope hlarge => exact .inl ⟨_, hi, hlarge⟩
  | call hlarge => exact .inr ⟨_, .inl hi, hrel.overloads hlarge⟩
  | tailCall hlarge => exact .inr ⟨_, .inr hi, hrel.overloads hlarge⟩

end

end

/-! ## Turn after turn -/

/-- The machine follows an ideal machine that is in good order. -/
def Machine.Tracked (room : Nat) (m : Machine) : Prop := ∃ w s, Rel room w m s ∧ s.Sorted

namespace Machine.Tracked

variable {room : Nat} {m : Machine} {config : Config} {program : Program}

theorem sound (h : m.Tracked room) : m.Sound := by
  obtain ⟨w, s, hrel, hs⟩ := h
  exact hrel.memorySound hs

theorem turn (h : m.Tracked room) : (m.turn config program).2.Tracked room := by
  obtain ⟨w, s, hrel, hs⟩ := h
  obtain ⟨_, w', hrel'⟩ := hrel.turn config program
  exact ⟨w', _, hrel', (hs.turn (some room) config.maxSteps program).1⟩

theorem after (h : m.Tracked room) (n : Nat) : (m.after config program n).Tracked room := by
  induction n with
  | zero => exact h
  | succ n ih => exact ih.turn

theorem blames (h : m.Tracked room) {failure : Failure}
    (hturn : (m.turn config program).1 = .error failure) : m.Blames program failure.fault := by
  obtain ⟨w, s, hrel, hs⟩ := h
  obtain ⟨hsame, _⟩ := hrel.turn config program
  have hfaults := (hs.turn (some room) config.maxSteps program).2.1
  rw [hturn] at hsame
  cases hideal : (Ideal.turn (some room) config.maxSteps program s).1 with
  | ok outcome =>
    rw [hideal] at hsame
    exact hsame.elim
  | error failure' =>
    rw [hideal] at hsame
    have hf := hfaults failure' hideal
    rw [hsame.1] at hf
    exact hrel.blames hf

/-- Nothing stays pinned, unless a call fails for want of memory. -/
theorem pinned (h : m.Tracked room) (hpin : m.registers.pinned = []) :
    (m.turn config program).2.registers.pinned = [] ∨ m.CallStarves config program := by
  obtain ⟨w, s, hrel, hs⟩ := h
  obtain ⟨hsame, w', hrel'⟩ := hrel.turn config program
  have hnone : s.pinned = [] := by
    have hpinned := hrel.pinned
    rw [hpin] at hpinned
    exact List.forall₂_nil_left_iff.mp hpinned
  rcases (hs.turn (some room) config.maxSteps program).2.2 with heq | ⟨i, failure', hi, hcall, hout, hkind⟩
  · have hpinned := hrel'.pinned
    rw [heq, hnone] at hpinned
    exact .inl (List.forall₂_nil_right_iff.mp hpinned)
  · rw [hout] at hsame
    cases hm : (m.turn config program).1 with
    | ok outcome =>
      rw [hm] at hsame
      exact hsame.elim
    | error failure =>
      rw [hm] at hsame
      refine .inr ⟨i, failure, hrel.pc ▸ hi, hcall, hm, Fault.cases_outOfMemory ?_⟩
      rw [← Fault.kind_anywhere, ← hsame.1]
      exact hkind

end Machine.Tracked

/-! ## Runs -/

namespace Machine

variable {config : Config} {program : Program} {m : Machine}

theorem after_turn (n : Nat) :
    (m.turn config program).2.after config program n = m.after config program (n + 1) := by
  induction n with
  | zero => rfl
  | succ n ih =>
    rw [after, ih]
    rfl

theorem after_add (n k : Nat) :
    (m.after config program n).after config program k = m.after config program (n + k) := by
  induction k with
  | zero => rfl
  | succ k ih => rw [after, ih, ← Nat.add_assoc, after]

theorem goesOn_zero : m.GoesOn config program 0 := fun k hk => absurd hk (Nat.not_lt_zero k)

/-- One turn more, at the front. -/
theorem goesOn_of_turn {m₁ : Machine} {n : Nat} (hturn : m.turn config program = (.ok none, m₁))
    (h : m₁.GoesOn config program n) : m.GoesOn config program (n + 1) := by
  intro k hk
  cases k with
  | zero => exact congrArg Prod.fst hturn
  | succ k =>
    rw [← after_turn, hturn]
    exact h k (Nat.lt_of_succ_lt_succ hk)

section

variable {fuel : Nat} {result : Except Failure Answer} {m' : Machine}

/-- A run goes on until its last turn, and ends as this turn does. -/
theorem after_of_follow (h : follow (turn config program) fuel m = some (result, m')) :
    ∃ k, m.GoesOn config program k ∧ m' = m.after config program (k + 1) ∧
      ∀ failure, result = .error failure →
        ((m.after config program k).turn config program).1 = .error failure := by
  induction fuel generalizing m with
  | zero => cases h
  | succ fuel ih =>
    rw [follow] at h
    rcases hturn : m.turn config program with ⟨failure | _ | answer, m₁⟩ <;> rw [hturn] at h
    · cases h
      refine ⟨0, goesOn_zero, by rw [after, after, hturn], fun failure hf => ?_⟩
      rw [after, hturn, ← Except.error.inj hf]
    · obtain ⟨k, hgoes, hm', hlast⟩ := ih h
      have hshift (n : Nat) : m.after config program (n + 1) = m₁.after config program n := by
        rw [← after_turn, hturn]
      refine ⟨k + 1, goesOn_of_turn hturn hgoes, hm'.trans (hshift _).symm, fun failure hf => ?_⟩
      rw [hshift]
      exact hlast failure hf
    · cases h
      exact ⟨0, goesOn_zero, by rw [after, after, hturn], fun failure hf => by cases hf⟩

/-- A run that has not ended has gone on. -/
theorem goesOn_of_follow_none (h : follow (turn config program) fuel m = none) :
    m.GoesOn config program fuel := by
  induction fuel generalizing m with
  | zero => exact goesOn_zero
  | succ fuel ih =>
    rw [follow] at h
    rcases hturn : m.turn config program with ⟨failure | _ | answer, m₁⟩ <;> rw [hturn] at h
    · cases h
    · exact goesOn_of_turn hturn (ih h)
    · cases h

theorem after_of_run {log log' : Log} (h : run config program fuel m log = some (result, m', log')) :
    ∃ k, m.GoesOn config program k ∧ m' = m.after config program (k + 1) ∧
      ∀ failure, result = .error failure →
        ((m.after config program k).turn config program).1 = .error failure := by
  have hfollow := run_eq_follow config program fuel m log
  rw [h, Option.map_some] at hfollow
  exact after_of_follow hfollow.symm

theorem goesOn_of_run {log log' : Log} (h : run config program fuel m log = some (result, m', log')) :
    ∃ n, m.GoesOn config program n ∧ m' = m.after config program (n + 1) := by
  obtain ⟨n, hgoes, hm', -⟩ := after_of_run h
  exact ⟨n, hgoes, hm'⟩

theorem goesOn_of_run_none {log : Log} (h : run config program fuel m log = none) :
    m.GoesOn config program fuel := by
  have hfollow := run_eq_follow config program fuel m log
  rw [h, Option.map_none] at hfollow
  exact goesOn_of_follow_none hfollow.symm

end

/-- A machine that has booted has what was loaded and has done nothing yet. -/
theorem boot_ok {log log' : Log} (h : boot config program log = (.ok m, log')) :
    ∃ registers heap, bootStore config.heapSize program.mainStack = .ok registers heap ∧
      m = ofRegisters heap registers := by
  unfold boot at h
  cases hstore : bootStore config.heapSize program.mainStack with
  | error e heap => simp [hstore] at h
  | ok registers heap =>
    rw [hstore] at h
    exact ⟨registers, heap, rfl, by simpa using (congrArg Prod.fst h).symm⟩

/-- A machine that has booted follows the ideal machine from its beginning. -/
theorem rel_of_boot {log log' : Log} (h : boot config program log = (.ok m, log')) :
    ∃ w, Rel (config.heapSize / 2) w m (Ideal.bootState program) := by
  obtain ⟨registers, heap, hstore, rfl⟩ := boot_ok h
  have hrel := rel_boot config.heapSize program
  have hspec := Ideal.boot_spec (some (config.heapSize / 2)) program
  rw [hstore] at hrel
  cases hideal : Ideal.boot (some (config.heapSize / 2)) program with
  | error e =>
    rw [hideal] at hrel
    exact hrel.elim
  | ok s =>
    rw [hideal] at hrel hspec
    obtain ⟨w, hrel⟩ := hrel
    subst hspec
    exact ⟨w, hrel⟩

theorem tracked_boot {log log' : Log} (h : boot config program log = (.ok m, log')) :
    m.Tracked (config.heapSize / 2) ∧ m.registers.pinned = [] := by
  obtain ⟨w, hrel⟩ := rel_of_boot h
  exact ⟨⟨w, _, hrel, Ideal.sorted_bootState program⟩, List.forall₂_nil_right_iff.mp hrel.pinned⟩

end Machine

/-- Once booted, a machine stays sound: after any number of turns, of one run or of many, also after one that
failed. Runs fail as `Blames` says, and pinned nodes are left behind only by a call for which memory
was too short, or would always be. -/
theorem booted_machine_safe {config : Config} {program : Program} {m : Machine} {log log' : Log}
    (hboot : Machine.boot config program log = (.ok m, log')) (n : Nat) :
    (m.after config program n).Sound ∧
      ((m.after config program n).registers.pinned = [] ∨
        ∃ k < n, (m.after config program k).CallStarves config program) ∧
      ∀ fuel log₁ result m' log₂,
        Machine.run config program fuel (m.after config program n) log₁ = some (result, m', log₂) →
        ∃ k, n ≤ k ∧ m' = m.after config program (k + 1) ∧ ∀ failure, result = .error failure →
          (m.after config program k).Blames program failure.fault := by
  obtain ⟨htracked, hpinned⟩ := Machine.tracked_boot hboot
  refine ⟨(htracked.after n).sound, ?_, ?_⟩
  · induction n with
    | zero => exact .inl hpinned
    | succ n ih =>
      rcases ih with hnone | ⟨k, hk, hstarves⟩
      · exact ((htracked.after n).pinned hnone).imp_right fun h => ⟨n, Nat.lt_succ_self n, h⟩
      · exact .inr ⟨k, Nat.lt_succ_of_lt hk, hstarves⟩
  · intro fuel log₁ result m' log₂ hrun
    obtain ⟨k, -, hm', hlast⟩ := Machine.after_of_run hrun
    rw [Machine.after_add] at hm' hlast
    exact ⟨n + k, Nat.le_add_right n k, hm', fun failure hf =>
      (htracked.after (n + k)).blames (hlast failure hf)⟩

set_option maxRecDepth 100000 in
/-- A program that leaves a scope that it never entered, and is run again and again. -/
theorem booted_machine_safe_stray : ∃ m log, Machine.boot ⟨266, none⟩
    ⟨#[.loadConstant (.boolean true), .exitScope], 1⟩ .silent = (.ok m, log) ∧
      ∀ n, (m.after ⟨266, none⟩ ⟨#[.loadConstant (.boolean true), .exitScope], 1⟩ n).Sound := by
  have hok : (Machine.boot ⟨266, none⟩ ⟨#[.loadConstant (.boolean true), .exitScope], 1⟩
      .silent).1.isOk = true := by
    decide +kernel
  cases hboot : Machine.boot ⟨266, none⟩ ⟨#[.loadConstant (.boolean true), .exitScope], 1⟩ .silent with
  | mk result log =>
    cases result with
    | error failure => simp [hboot, Except.isOk, Except.toBool] at hok
    | ok m => exact ⟨m, log, rfl, fun n => (booted_machine_safe hboot n).1⟩

/-- A program that enters a scope with more slots than there can be words. -/
def vastScope : Program := ⟨#[.enterScope (wordLimit - 1), .done], 1⟩

set_option maxRecDepth 100000 in
/-- Memory is short for the scope, but that is not what is found. -/
theorem run_vastScope : ((Machine.boot ⟨400, none⟩ vastScope .silent).1.toOption.bind fun m =>
      (Machine.run ⟨400, none⟩ vastScope 2 m .silent).map Prod.fst) =
    some (.error ⟨.heap (.overflow .nodeSize), some (0, "ENTER_SCOPE")⟩) := by
  decide +kernel

end ClosureMachine
