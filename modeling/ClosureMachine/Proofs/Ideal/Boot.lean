import ClosureMachine.Proofs.Ideal.Preservation

/-!
# The state in which programs start

Booting makes the environment of the primitives first, then a node for each of them, and the operand stack of
the main program last. So the nodes of a booted machine are known, and the only thing that can go wrong
is that they do not fit.
-/

set_option autoImplicit false

namespace ClosureMachine.Ideal

/-- The environment of `slots` primitives, of which the first `loaded` are there, and their nodes. -/
def globalNodes (slots loaded : Nat) : List Node :=
  .environment ((List.range loaded).map (fun i => some (i + 1)) ++ List.replicate (slots - loaded) none)
    none :: (List.range loaded).map .primitive

/-- The state in which a program starts. -/
def bootState (program : Program) : State where
  nodes := globalNodes Primitive.all.length Primitive.all.length ++ [.operandStack [] program.mainStack]
  pc := 0
  env := 0
  stack := Primitive.all.length + 1
  control := []
  pinned := []
  output := #[]
  steps := 0
  peakDepth := 0

@[simp] theorem length_globalNodes (slots loaded : Nat) :
    (globalNodes slots loaded).length = loaded + 1 := by
  simp [globalNodes]

theorem make_error {room : Option Nat} {roots : List Loc} {n : Node} {nodes nodes' : List Node}
    {e : HeapError} (h : make room roots n nodes = .error e nodes') :
    room ≠ none ∧ Fault.kindOfHeapError e = .outOfMemory := by
  unfold make at h
  split at h
  · simp at h
  · rename_i e' halloc
    obtain ⟨limit, rfl⟩ := allocate_error halloc
    simp at h
    refine ⟨?_, h.1 ▸ kind_shortage ..⟩
    rintro rfl
    cases halloc

theorem make_ok {room : Option Nat} {roots : List Loc} {n : Node} {nodes nodes' : List Node}
    {l : Loc} (h : make room roots n nodes = .ok l nodes') :
    l = nodes.length ∧ nodes' = nodes ++ [n] := by
  unfold make at h
  split at h
  · rename_i nodes₁ halloc
    obtain rfl := allocate_ok halloc
    simp at h
    exact ⟨h.1.symm, h.2.symm⟩
  · simp at h

/-- One more primitive in its slot. -/
theorem setSlot_globalNodes {slots loaded : Nat} (hlt : loaded < slots) :
    change 0 (Node.setSlot loaded (loaded + 1)) (globalNodes slots loaded ++ [.primitive loaded]) =
      .ok () (globalNodes slots (loaded + 1)) := by
  obtain ⟨k, rfl⟩ : ∃ k, slots = loaded + (k + 1) := ⟨slots - loaded - 1, by omega⟩
  have hk : loaded + (k + 1) - (loaded + 1) = k := by omega
  simp [change, alter, globalNodes, Node.setSlot, Except.map, List.range_succ, List.replicate_succ,
    hk]

theorem loadPrimitives_spec (room : Option Nat) (id n : Nat) :
    match loadPrimitives room 0 id n (globalNodes (id + n) id) with
    | .ok _ nodes => nodes = globalNodes (id + n) (id + n)
    | .error e _ => room ≠ none ∧ Fault.kindOfHeapError e = .outOfMemory := by
  induction n generalizing id with
  | zero => rfl
  | succ n ih =>
    rw [loadPrimitives, Actions.bind_apply]
    cases hmake : make room [0] (.primitive id) (globalNodes (id + (n + 1)) id) with
    | error e nodes => exact make_error hmake
    | ok l nodes =>
      obtain ⟨rfl, rfl⟩ := make_ok hmake
      dsimp only
      rw [Actions.bind_apply, length_globalNodes, setSlot_globalNodes (by omega)]
      have hnext := ih (id + 1)
      rwa [show id + 1 + n = id + (n + 1) by omega] at hnext

/-- Booting ends in the same state in any memory, unless it is too small. -/
theorem boot_spec (room : Option Nat) (program : Program) :
    match boot room program with
    | .ok s => s = bootState program
    | .error e => room ≠ none ∧ Fault.kindOfHeapError e = .outOfMemory := by
  unfold boot loadGlobals
  rw [Actions.bind_apply]
  cases hmake : make room [] (.environment (List.replicate Primitive.all.length none) none) [] with
  | error e nodes => exact make_error hmake
  | ok globals nodes =>
    obtain ⟨rfl, rfl⟩ := make_ok hmake
    have hload := loadPrimitives_spec room 0 Primitive.all.length
    dsimp only
    rw [Actions.bind_apply]
    have hstart : ([] ++ [.environment (List.replicate Primitive.all.length none) none] : List Node) =
        globalNodes (0 + Primitive.all.length) 0 := by simp [globalNodes]
    rw [hstart, List.length_nil]
    cases hr : loadPrimitives room 0 0 Primitive.all.length
        (globalNodes (0 + Primitive.all.length) 0) with
    | error e nodes =>
      rw [hr] at hload
      exact hload
    | ok u nodes =>
      rw [hr] at hload
      subst hload
      dsimp only
      rw [Actions.bind_apply]
      cases hstack : make room [0] (.operandStack [] program.mainStack)
          (globalNodes (0 + Primitive.all.length) (0 + Primitive.all.length)) with
      | error e nodes => exact make_error hstack
      | ok stack nodes =>
        obtain ⟨rfl, rfl⟩ := make_ok hstack
        simp [Actions.pure_apply, bootState]

theorem boot_unlimited (program : Program) : boot none program = .ok (bootState program) := by
  -- with the room spelled out, the elaborator would run the whole boot here
  obtain ⟨room, hroom⟩ : ∃ room : Option Nat, room = none := ⟨none, rfl⟩
  rw [← hroom]
  have hspec := boot_spec room program
  cases hboot : boot room program with
  | error e =>
    rw [hboot] at hspec
    exact absurd hroom hspec.1
  | ok s =>
    rw [hboot] at hspec
    rw [hspec]

/-! ## What is there -/

theorem bootState_globals (program : Program) : (bootState program).nodes[0]? =
    some (.environment ((List.range Primitive.all.length).map (fun i => some (i + 1))) none) := by
  simp [bootState, globalNodes]

theorem bootState_primitive (program : Program) {id : Nat} (hid : id < Primitive.all.length) :
    (bootState program).nodes[id + 1]? = some (.primitive id) := by
  simp [bootState, globalNodes, List.getElem?_append, hid]

theorem bootState_stack (program : Program) :
    (bootState program).nodes[Primitive.all.length + 1]? =
      some (.operandStack [] program.mainStack) := by
  simp [bootState, globalNodes]

theorem sorted_bootState (program : Program) : (bootState program).Sorted where
  nodes := by
    intro l n hn
    have hmem := List.mem_of_getElem? hn
    simp only [bootState, globalNodes, Nat.sub_self, List.replicate_zero, List.append_nil,
      List.cons_append, List.mem_cons, List.mem_append, List.mem_map, List.mem_range,
      List.not_mem_nil, or_false] at hmem
    rcases hmem with rfl | ⟨id, _, rfl⟩ | rfl
    · refine ⟨fun v hv => ?_, by rintro _ ⟨⟩⟩
      simp only [List.mem_map, List.mem_range, Option.some.injEq] at hv
      obtain ⟨id, hid, rfl⟩ := hv
      exact ⟨_, bootState_primitive program hid, trivial⟩
    · trivial
    · intro v hv
      simp at hv
  env := ⟨_, bootState_globals program, trivial⟩
  stack := ⟨_, bootState_stack program, trivial⟩
  control := by simp [bootState]
  pinned := by simp [bootState]

end ClosureMachine.Ideal
