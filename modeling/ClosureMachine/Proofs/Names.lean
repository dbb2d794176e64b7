import ClosureMachine.Proofs.MemorySafety

/-!
# Names for nodes

In memory a node has no name. A collection moves it, and later another node stands where it stood. The ideal
machine has names: its nodes are numbered as they are made, and nothing takes a number away. `Names` lets it
run beside the machine in memory, turn after turn, and says at each moment where the node of a name is. Names
do not jump from node to node: between collections they stay where they are, and a collection takes them along.
-/

set_option autoImplicit false

namespace ClosureMachine

open ClosureMachine.Ideal (State Node Loc InRole Role Grows)

namespace Ideal

/-- The ideal machine after `n` turns, in the room that there is. -/
noncomputable def reached (config : Config) (program : Program) : (n : Nat) → State
  | 0 => bootState program
  | n + 1 => (turn (some (config.heapSize / 2)) config.maxSteps program (reached config program n)).2

variable {config : Config} {program : Program} {k n : Nat}

theorem sorted_reached (config : Config) (program : Program) (n : Nat) : (reached config program n).Sorted := by
  induction n with
  | zero => exact sorted_bootState program
  | succ n ih => exact (ih.turn _ _ program).1

theorem grows_reached (h : k ≤ n) :
    Grows (reached config program k).nodes (reached config program n).nodes := by
  induction n, h using Nat.le_induction with
  | base => exact Grows.refl _
  | succ n _ ih => exact ih.trans ((sorted_reached config program n).turn_grows _ _ program)

/-- A box that is found at one time was the same box ever since it was made, and will be. -/
theorem box_reached {l : Loc} {value : Literal}
    (hn : (reached config program n).nodes[l]? = some (.boxed value))
    (hk : l < (reached config program k).nodes.length) :
    (reached config program k).nodes[l]? = some (.boxed value) := by
  rcases Nat.le_total n k with hle | hle
  · have hbox : InRole (reached config program n).nodes (.box value) l := ⟨_, hn, rfl⟩
    obtain ⟨node, hnode, hplays⟩ := grows_reached hle hbox
    cases node with
    | boxed value' =>
      obtain rfl : value' = value := hplays
      exact hnode
    | _ => exact hplays.elim
  · -- what it was before, it still is
    have hnode := List.getElem?_eq_getElem hk
    generalize (reached config program k).nodes[l] = node at hnode
    have hkind : ∀ role, node.Plays role → (Node.boxed value).Plays role := by
      intro role hplays
      obtain ⟨node', hnode', hplays'⟩ := grows_reached hle ⟨node, hnode, hplays⟩
      obtain rfl : Node.boxed value = node' := Option.some.inj (hn.symm.trans hnode')
      exact hplays'
    cases node with
    | boxed value' =>
      obtain rfl : value = value' := hkind (.box value') rfl
      exact hnode
    | _ => exact absurd (hkind (.kind _) rfl) nofun

end Ideal

/-- Where the nodes of the ideal machine are in memory, turn after turn. -/
structure Names (config : Config) (program : Program) (m : Machine) (w : Nat → World) : Prop where
  rel : ∀ n, Rel (config.heapSize / 2) (w n) (m.after config program n) (Ideal.reached config program n)
  trail : ∀ n, (w n).Trail (m.after config program n).heap (w (n + 1)) (m.after config program (n + 1)).heap

/-- From boot on, there are names for all nodes. -/
theorem exists_names {config : Config} {program : Program} {m : Machine} {log log' : Log}
    (hboot : Machine.boot config program log = (.ok m, log')) : ∃ w, Names config program m w := by
  obtain ⟨w₀, hrel₀⟩ := Machine.rel_of_boot hboot
  have hstep : ∀ n w,
      Rel (config.heapSize / 2) w (m.after config program n) (Ideal.reached config program n) →
      ∃ w', Rel (config.heapSize / 2) w' (m.after config program (n + 1)) (Ideal.reached config program (n + 1)) ∧
        w.Trail (m.after config program n).heap w' (m.after config program (n + 1)).heap :=
    fun n w hrel => hrel.turn_trail config program
  choose next hnext using hstep
  let worlds : (n : Nat) →
      { w // Rel (config.heapSize / 2) w (m.after config program n) (Ideal.reached config program n) } :=
    fun n => n.rec ⟨w₀, hrel₀⟩ fun n w => ⟨next n w.1 w.2, (hnext n w.1 w.2).1⟩
  exact ⟨fun n => (worlds n).1, fun n => (worlds n).2, fun n => (hnext n (worlds n).1 (worlds n).2).2⟩

namespace Machine

variable {config : Config} {program : Program} {m : Machine}

/-- A run leaves the machine in one of the states that turn after turn leads to. -/
theorem run_after {fuel n : Nat} {log log' : Log} {result : Except Failure Answer} {m' : Machine}
    (h : run config program fuel (m.after config program n) log = some (result, m', log')) :
    ∃ k, n ≤ k ∧ m' = m.after config program (k + 1) := by
  obtain ⟨k, -, hm', -⟩ := after_of_run h
  rw [after_add] at hm'
  exact ⟨n + k, Nat.le_add_right n k, hm'⟩

end Machine

end ClosureMachine
