import ClosureMachine.Proofs.Names

/-!
# Texts are kept as long as boxes refer to them

A box holds the number of a text, and the text itself is in a table outside the heap. The two know nothing of
each other: a collection leaves texts in the table that no box refers to, and a later sweep releases them by what
words it finds. So it has to be shown that no box is left with a number whose text was released, or was
given to another text since. Boxes are followed by their names (`Names`): the ideal machine has the text in the box
itself, where nothing can take it away.

A sweep also leaves nothing behind. It comes after every instruction during which memory was collected, unless the
run ends there.
-/

set_option autoImplicit false

namespace ClosureMachine

open Heap (headerSize)
open ClosureMachine.Ideal (State Node Loc)

/-- A word in use holds the number of a text. -/
def Heap.Mentions (h : Heap) (i id : Nat) : Prop :=
  h.base ≤ i ∧ i < h.free ∧ h.word i = .datum (.string id)

theorem Heap.Halved.mem_textsInUse_iff {h : Heap} (hh : h.Halved) {id : Nat} :
    id ∈ Machine.textsInUse h ↔ ∃ i, h.Mentions i id := by
  constructor
  · intro hmem
    unfold Machine.textsInUse at hmem
    rw [List.mem_filterMap] at hmem
    obtain ⟨v, hv, hid⟩ := hmem
    rw [Array.mem_toList_iff, Heap.liveWords, Array.mem_iff_getElem?] at hv
    obtain ⟨k, hk⟩ := hv
    have hlt : k < min h.free h.words.size - h.base := by
      by_contra hge
      rw [Array.getElem?_eq_none (by rw [Array.size_extract]; omega)] at hk
      cases hk
    refine ⟨h.base + k, by omega, by omega, ?_⟩
    rw [Array.getElem?_extract, if_pos hlt] at hk
    rw [Heap.word, Array.getD_eq_getD_getElem?, hk]
    split at hid
    · cases hid
      rfl
    · cases hid
  · rintro ⟨i, hlower, hupper, hword⟩
    exact mem_textsInUse hh ⟨hlower, hupper⟩ hword

/-! ## Every number has its text -/

/-- Of all nodes, boxes are those with a value. -/
theorem Ideal.Node.eq_boxed {n : Node} {k : Nat} {x : Literal} (h : n.cells[k]? = some (.literal x)) :
    n = .boxed x ∧ k = 0 := by
  have hmem := List.mem_of_getElem? h
  cases n with
  | boxed value =>
    have hk := (List.getElem?_eq_some_iff.mp h).1
    simp only [Node.cells, List.length_singleton] at hk
    obtain rfl : k = 0 := by omega
    simp only [Node.cells, List.mem_singleton, Node.Cell.literal.injEq] at hmem
    exact ⟨by rw [hmem], rfl⟩
  | environment slots outer =>
    simp only [Node.cells, List.mem_append, List.mem_map, List.mem_singleton] at hmem
    rcases hmem with ⟨slot, -, hslot⟩ | hlink
    · cases slot <;> cases hslot
    · cases outer <;> cases hlink
  | closure env _ _ _ => cases env <;> simp [Node.cells, Node.linkCell] at hmem
  | primitive _ => simp [Node.cells] at hmem
  | callFrame env stack _ => cases env <;> cases stack <;> simp [Node.cells, Node.linkCell] at hmem
  | blockFrame env => cases env <;> simp [Node.cells, Node.linkCell] at hmem
  | operandStack operands room => simp [Node.cells] at hmem

section

variable {room : Nat} {w : World} {m : Machine} {s : State} {i j id id' : Nat}

/-- A number in use stands in a box, and the table holds the text that the box is for. -/
theorem Rel.mentions (hrel : Rel room w m s) (h : m.heap.Mentions i id) :
    ∃ l r text, w.place l = some r ∧ i = r.index + headerSize ∧ m.heap.word r.index = .tag .boxed ∧
      s.nodes[l]? = some (.boxed (.string text)) ∧ m.host.strings.Holds id text := by
  obtain ⟨hlower, hupper, hword⟩ := h
  obtain ⟨l, r, hl, hle, hlt⟩ := hrel.rep.covered hlower hupper
  obtain ⟨n, hn, hp⟩ := hrel.rep.placed hl
  rw [Ideal.wordsOf_eq hn, Node.size] at hlt
  obtain ⟨k, rfl⟩ : ∃ k, i = r.index + k := ⟨i - r.index, by omega⟩
  -- the header has no data
  rcases Heap.cases_header k with rfl | rfl | rfl | ⟨p, rfl⟩
  · cases hp.tag.symm.trans hword
  · cases hp.size.symm.trans hword
  · cases hp.children.symm.trans hword
  · have hlt : p < n.cells.length := by omega
    have hshow := hp.cells (List.getElem?_eq_getElem hlt)
    rw [Nat.add_assoc, hword] at hshow
    have hcell := List.getElem?_eq_getElem hlt
    generalize n.cells[p] = c at hshow hcell
    cases c with
    | literal x =>
      obtain ⟨d, hd, hmeans⟩ := hshow
      cases hd
      obtain ⟨rfl, rfl⟩ := Node.eq_boxed hcell
      cases x with
      | string text => exact ⟨l, r, text, hl, rfl, hp.tag, hn, hrel.texts ▸ hmeans⟩
      | _ => exact hmeans.elim
    | ref l' =>
      obtain ⟨r', -, href⟩ := hshow
      cases href
    | _ => cases hshow

theorem Rel.sound_strings (hrel : Rel room w m s) : m.host.strings.Sound := hrel.texts ▸ hrel.sound

/-- Numbers are equal where texts are. -/
theorem StringTable.Sound.eq_iff {t : StringTable} (ht : t.Sound) {text text' : String}
    (h : t.Holds id text) (h' : t.Holds id' text') : id = id' ↔ text = text' := by
  constructor
  · rintro rfl
    exact h.unique h'
  · rintro rfl
    exact ht.inj h h'

/-! ## Nothing else is held after a sweep -/

/-- To take the answer off the stack collects nothing. -/
theorem Rel.rests_finish (hrel : Rel room w m s) {answer : Answer} {m' : Machine}
    (h : Machine.finish m = .ok answer m') : m.heap.Rests m'.heap := by
  have hpop := heapSim_pop hrel.stack hrel.rep
  simp only [Machine.finish, Machine.pop, Actions.bind_apply, Actions.get_apply, Actions.lift_look_machine] at h
  cases hdepth : OperandStack.depth m.registers.stack m.heap with
  | error e =>
    rw [hdepth] at h
    cases h
  | ok depth =>
    by_cases hone : depth = 1
    · simp only [hdepth, hone, ne_eq, not_true_eq_false, if_false, Actions.bind_apply, Actions.get_apply,
        Actions.lift_look_machine, Actions.lift_heap_machine] at h
      cases hx : OperandStack.pop m.registers.stack m.heap <;>
        cases hy : Ideal.alter s.stack Node.pop s.nodes <;> rw [hx, hy] at hpop <;> simp only [hx] at h
      · -- what is left only looks
        rename_i r h' _ _
        have hm' : m'.heap = h' := by
          cases hof : Operand.of r h' with
          | error e => simp [hof] at h
          | ok operand =>
            simp only [hof] at h
            cases operand <;> cases h <;> rfl
        rw [hm']
        exact hpop.1.2
      · exact hpop.elim
      · cases h
      · cases h
    · simp [hdepth, hone] at h

theorem Machine.heap_countStep {limit : Option Nat} {m' : Machine} (h : Machine.countStep limit m = .ok () m') :
    m'.heap = m.heap := by
  unfold Machine.countStep at h
  cases limit with
  | none =>
    cases h
    rfl
  | some limit =>
    simp only [Actions.bind_apply, Actions.modify_apply, Actions.get_apply] at h
    split at h
    · cases h
    · cases h
      rfl

/-- Only one instruction gives an answer. -/
theorem Machine.execute_answer {i : Instruction} {answer : Answer} {m' : Machine}
    (h : Machine.execute i m = .ok (some answer) m') : Machine.finish m = .ok answer m' := by
  have hquiet : ∀ x : MachineM Unit, (do x; return none : MachineM (Option Answer)) m ≠ .ok (some answer) m' := by
    intro x hx
    rw [Actions.bind_apply] at hx
    cases hr : x m <;> rw [hr] at hx <;> cases hx
  cases i with
  | done =>
    rw [Machine.execute, Actions.bind_apply] at h
    cases hf : Machine.finish m <;> rw [hf] at h <;> cases h
    rfl
  | pop =>
    refine absurd ?_ (hquiet (do let _ ← Machine.pop; Machine.advance))
    rw [bind_assoc]
    exact h
  | _ => exact absurd h (hquiet _)

/-- A turn that ends the program collects nothing. -/
theorem Rel.rests_turn (hrel : Rel room w m s) {config : Config} {program : Program} {answer : Answer}
    (h : (m.turn config program).1 = .ok (some answer)) : m.heap.Rests (m.turn config program).2.heap := by
  unfold Machine.turn at h ⊢
  cases hi : program.code[m.registers.pc]? with
  | none =>
    simp only [hi] at h
    cases h
  | some i =>
    simp only [hi, Actions.bind_apply] at h ⊢
    have hcount := sim_countStep config.maxSteps hrel
    cases hc : Machine.countStep config.maxSteps m with
    | error e m₁ =>
      simp only [hc] at h
      cases h
    | ok _ m₁ =>
      cases hy : Ideal.countStep config.maxSteps s <;> rw [hc, hy] at hcount
      · obtain ⟨w', hrel', -⟩ := hcount
        rw [← Machine.heap_countStep hc]
        simp only [hc] at h ⊢
        cases hx : Machine.execute i m₁ with
        | error e m₂ =>
          simp only [hx] at h
          cases h
        | ok outcome m₂ =>
          cases outcome with
          | none =>
            simp only [hx] at h
            cases h
          | some answer' => exact hrel'.rests_finish (Machine.execute_answer hx)
      · exact hcount.elim

end

section

variable {config : Config} {program : Program} {m : Machine} {w : Nat → World}

/-- The note of the last sweep is never ahead of the collections. -/
theorem Names.sweptAt_le (hn : Names config program m w) (hstart : m.sweptAt ≤ m.heap.collections.size) (n : Nat) :
    (m.after config program n).sweptAt ≤ (m.after config program n).heap.collections.size := by
  induction n with
  | zero => exact hstart
  | succ n ih =>
    obtain ⟨-, w', m', -, hpass, hend⟩ := (hn.rel n).turn_passes config program
    have hle : m'.sweptAt ≤ m'.heap.collections.size := by
      rw [hpass.sweptAt]
      exact Nat.le_trans ih hpass.trail.collections_le
    rw [Machine.after]
    rcases hturn : (m.after config program n).turn config program with ⟨_ | _ | answer, end'⟩ <;>
      rw [hturn] at hend <;> obtain rfl := hend
    · exact hle
    · unfold Machine.sweep
      dsimp only
      split
      · exact hle
      · exact Nat.le_refl _
    · exact hle

/-- After a turn that was completed and collected memory, the table holds no text without a box. -/
theorem Names.swept (hn : Names config program m w) (hstart : m.sweptAt ≤ m.heap.collections.size) {n : Nat}
    {outcome : Option Answer} (hok : ((m.after config program n).turn config program).1 = .ok outcome)
    (hcollected : (m.after config program n).heap.collections.size <
      (m.after config program (n + 1)).heap.collections.size) {id : Nat} {text : String}
    (hholds : (m.after config program (n + 1)).host.strings.Holds id text) :
    ∃ i, (m.after config program (n + 1)).heap.Mentions i id := by
  obtain ⟨-, w', m', hrel', hpass, hend⟩ := (hn.rel n).turn_passes config program
  cases outcome with
  | some answer =>
    have hrests := (hn.rel n).rests_turn hok
    rw [Machine.after, hrests.collections] at hcollected
    exact absurd hcollected (Nat.lt_irrefl _)
  | none =>
    rw [Machine.after] at hcollected hholds ⊢
    rcases hturn : (m.after config program n).turn config program with ⟨turn, end'⟩
    rw [hturn] at hok hend hcollected hholds
    obtain rfl : turn = .ok none := hok
    obtain rfl : end' = m'.sweep := hend
    have hle := hn.sweptAt_le hstart n
    have hne : ¬ m'.heap.collections.size = m'.sweptAt := by
      rw [Machine.heap_sweep] at hcollected
      rw [hpass.sweptAt]
      omega
    rw [Machine.heap_sweep]
    have hstrings : m'.sweep.host.strings = m'.host.strings.retain (Machine.textsInUse m'.heap) := by
      unfold Machine.sweep
      rw [if_neg hne]
    rw [hstrings, (hrel'.sound_strings.retain _).2] at hholds
    exact hrel'.rep.halved.mem_textsInUse_iff.mp hholds.2

end

theorem Machine.sweptAt_of_boot {config : Config} {program : Program} {m : Machine} {log log' : Log}
    (h : Machine.boot config program log = (.ok m, log')) : m.sweptAt = 0 := by
  obtain ⟨registers, heap, -, rfl⟩ := Machine.boot_ok h
  rfl

/-- As long as a box is in memory its text is in the table, under the number in the box; and two boxes have the same
number if and only if they have the same text, as `===` needs it. After a turn that was completed and collected
memory there are no other texts in the table. This holds in every state of a booted machine, whatever it runs and
however often. -/
theorem boxed_texts_safe {config : Config} {program : Program} {m : Machine} {log log' : Log}
    (hboot : Machine.boot config program log = (.ok m, log')) :
    ∃ w, Names config program m w ∧ ∀ n,
      (∀ i id, (m.after config program n).heap.Mentions i id →
        ∃ l r text, (w n).place l = some r ∧ i = r.index + headerSize ∧
          (m.after config program n).heap.word r.index = .tag .boxed ∧
          (m.after config program n).host.strings.Holds id text ∧
          ∀ k, l < (Ideal.reached config program k).nodes.length →
            (Ideal.reached config program k).nodes[l]? = some (.boxed (.string text))) ∧
      (∀ id id' text text', (m.after config program n).host.strings.Holds id text →
        (m.after config program n).host.strings.Holds id' text' →
          (id = id' ↔ text = text') ∧
            Primitive.identical (.datum (.string id)) (.datum (.string id')) = decide (text = text')) ∧
      (∀ outcome, ((m.after config program n).turn config program).1 = .ok outcome →
        (m.after config program n).heap.collections.size <
          (m.after config program (n + 1)).heap.collections.size →
        ∀ id, (∃ text, (m.after config program (n + 1)).host.strings.Holds id text) ↔
          ∃ i, (m.after config program (n + 1)).heap.Mentions i id) ∧
      ∀ fuel log₁ result m' log₂,
        Machine.run config program fuel (m.after config program n) log₁ = some (result, m', log₂) →
        ∃ k, n ≤ k ∧ m' = m.after config program (k + 1) := by
  obtain ⟨w, hn⟩ := exists_names hboot
  have hstart : m.sweptAt ≤ m.heap.collections.size := by
    rw [Machine.sweptAt_of_boot hboot]
    exact Nat.zero_le _
  refine ⟨w, hn, fun n => ⟨?_, ?_, ?_, ?_⟩⟩
  · intro i id hmentions
    obtain ⟨l, r, text, hl, hi, htag, hbox, hholds⟩ := (hn.rel n).mentions hmentions
    exact ⟨l, r, text, hl, hi, htag, hholds, fun k hk => Ideal.box_reached hbox hk⟩
  · intro id id' text text' hholds hholds'
    have hiff := (hn.rel n).sound_strings.eq_iff hholds hholds'
    exact ⟨hiff, by simp [Primitive.identical, hiff]⟩
  · intro outcome hok hcollected id
    constructor
    · rintro ⟨text, hholds⟩
      exact hn.swept hstart hok hcollected hholds
    · rintro ⟨i, hmentions⟩
      obtain ⟨-, -, text, -, -, -, -, hholds⟩ := (hn.rel (n + 1)).mentions hmentions
      exact ⟨text, hholds⟩
  · intro fuel log₁ result m' log₂ hrun
    exact Machine.run_after hrun

/-- A program that makes box after box for two texts. -/
def boxLoop : Program :=
  ⟨#[.loadConstant (.string "a"), .pop, .loadConstant (.string "b"), .pop, .jump 0], 1⟩

set_option maxRecDepth 100000 in
/-- In a memory that holds only few boxes, none of them ever loses its text. -/
theorem boxed_texts_safe_boxLoop : ∃ m log, Machine.boot ⟨290, none⟩ boxLoop .silent = (.ok m, log) ∧
    ∀ n i id, (m.after ⟨290, none⟩ boxLoop n).heap.Mentions i id →
      ∃ text, (m.after ⟨290, none⟩ boxLoop n).host.strings.Holds id text := by
  have hok : (Machine.boot ⟨290, none⟩ boxLoop .silent).1.isOk = true := by
    decide +kernel
  cases hboot : Machine.boot ⟨290, none⟩ boxLoop .silent with
  | mk result log =>
    cases result with
    | error failure => simp [hboot, Except.isOk, Except.toBool] at hok
    | ok m =>
      obtain ⟨w, -, hall⟩ := boxed_texts_safe hboot
      refine ⟨m, log, rfl, fun n i id hmentions => ?_⟩
      obtain ⟨l, r, text, -, -, -, hholds, -⟩ := (hall n).1 i id hmentions
      exact ⟨text, hholds⟩

end ClosureMachine
