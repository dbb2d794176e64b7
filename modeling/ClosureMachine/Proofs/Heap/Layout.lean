import ClosureMachine.Proofs.Heap.Isomorphism

/-!
# What stands in the words of a node

A tidy heap has headers where headers are expected. Here is what the rest of a node looks like. The words of a
node are given by its `Layout`: as many as the kind asks for, and for each the words that may stand in it
(`Field`). An operand stack has operands below its top and empty places from there on, so its layout says how many
there are of both. Every other kind keeps its layout for life.

A heap is `Shaped` if all its nodes have layouts. The setters cannot undo this, whatever references they are given:
before they write they look at the kind of the node, and so they write a word that the field admits, or nothing at
all.
-/

set_option autoImplicit false

namespace ClosureMachine

open Heap (headerSize)
open ClosureMachine.Ideal

/-! ## Layouts -/

/-- What may stand in one word. -/
inductive Field where
  | tag (kind : Kind)
  /-- This number and no other. -/
  | exactly (n : Nat)
  | count
  /-- A value, or none yet. -/
  | slot
  /-- Another node, or none. -/
  | link
  | operand
  | vacant
  | datum
deriving DecidableEq, Repr

def Field.admits : Field → Word → Bool
  | .tag kind, .tag found => found = kind
  | .exactly n, .count found => found = n
  | .count, .count _ => true
  | .slot, .ref _ | .slot, .unassigned => true
  | .link, .ref _ | .link, .nil => true
  | .operand, .ref _ => true
  | .vacant, .empty => true
  | .datum, .datum _ => true
  | _, _ => false

/-- The nodes there are, by kind and number of words. -/
inductive Layout where
  | environment (slots : Nat)
  | closure
  | primitive
  | callFrame
  | blockFrame
  /-- So many operands, and so many empty places above them. -/
  | operandStack (depth room : Nat)
  | boxed
deriving DecidableEq, Repr

namespace Layout

def kind : Layout → Kind
  | .environment _ => .environment
  | .closure => .closure
  | .primitive => .primitive
  | .callFrame => .callFrame
  | .blockFrame => .blockFrame
  | .operandStack .. => .operandStack
  | .boxed => .boxed

/-- The words behind the header. -/
def payload : Layout → List Field
  | .environment slots => List.replicate slots .slot ++ [.link]
  | .closure => [.link, .count, .count, .count]
  | .primitive => [.count]
  | .callFrame => [.link, .link, .count]
  | .blockFrame => [.link]
  | .operandStack depth room =>
    List.replicate depth .operand ++ List.replicate room .vacant ++ [.exactly depth]
  | .boxed => [.datum]

/-- How many of them a collection looks at. -/
def children : Layout → Nat
  | .environment slots => slots + 1
  | .closure => 1
  | .primitive => 0
  | .callFrame => 2
  | .blockFrame => 1
  | .operandStack depth room => depth + room
  | .boxed => 0

/-- The number of words, the header included. -/
def size (layout : Layout) : Nat := headerSize + layout.payload.length

/-- All words, those of the header first. -/
def fields (layout : Layout) : List Field :=
  [.tag layout.kind, .exactly layout.size, .exactly layout.children] ++ layout.payload

theorem length_fields (layout : Layout) : layout.fields.length = layout.size := by
  simp [fields, size, headerSize]
  omega

theorem getElem?_fields (layout : Layout) (k : Nat) :
    layout.fields[headerSize + k]? = layout.payload[k]? := by
  rw [fields, List.getElem?_append_right (by simp [headerSize])]
  congr 1
  simp [headerSize]

theorem header_le_size (layout : Layout) : headerSize ≤ layout.size := Nat.le_add_right _ _

/-- Behind the header no word can be taken for one. -/
theorem plain_of_admits {layout : Layout} {k : Nat} {field : Field} {w : Word} (hpos : 0 < k)
    (hf : layout.fields[k]? = some field) (hw : field.admits w = true) : w.Plain := by
  have hnot : ∀ kind, field ≠ .tag kind := by
    rintro kind rfl
    rcases Heap.cases_header k with rfl | rfl | rfl | ⟨p, rfl⟩
    · exact absurd hpos (Nat.lt_irrefl 0)
    · simp [fields] at hf
    · simp [fields] at hf
    · rw [getElem?_fields] at hf
      have hmem := List.mem_of_getElem? hf
      cases layout <;> simp [payload] at hmem
  cases w with
  | tag found =>
    cases field with
    | tag kind => exact absurd rfl (hnot kind)
    | _ => simp [Field.admits] at hw
  | forward target => cases field <;> simp [Field.admits] at hw
  | _ => trivial

/-- A field that admits a reference is one that a collection looks at. -/
theorem lt_children {layout : Layout} {k : Nat} {field : Field} {r : Ref}
    (hk : layout.payload[k]? = some field) (hr : field.admits (.ref r) = true) : k < layout.children := by
  have hlt : k < layout.payload.length := (List.getElem?_eq_some_iff.mp hk).1
  have hcount : field ≠ .count := by rintro rfl; cases hr
  cases layout with
  | environment slots => simpa [payload, children] using hlt
  | closure => rcases k with _ | _ | _ | _ | k <;> simp_all [payload, children]
  | primitive => rcases k with _ | k <;> simp_all [payload]
  | callFrame => rcases k with _ | _ | _ | k <;> simp_all [payload, children]
  | blockFrame => simpa [payload, children] using hlt
  | operandStack depth room =>
    by_contra hge
    obtain rfl : k = depth + room := by
      simp [payload, children] at hlt hge
      omega
    have hlast : (operandStack depth room).payload[depth + room]? = some (.exactly depth) := by
      simp [payload]
    rw [hlast] at hk
    cases hk
    cases hr
  | boxed =>
    obtain rfl : k = 0 := by simpa [payload] using hlt
    cases hk
    cases hr

end Layout

/-- Where one reference may stand, another one may. -/
theorem Field.admits_mapRef {field : Field} {w : Word} (image : Ref → Ref)
    (hw : field.admits w = true) : field.admits (w.mapRef image) = true := by
  cases w with
  | ref r => cases field <;> first | rfl | exact hw
  | _ => exact hw

namespace Heap

/-- The words from a position on are those of a node. -/
def Stands (h : Heap) (i : Nat) (layout : Layout) : Prop :=
  ∀ ⦃k : Nat⦄ ⦃field : Field⦄, layout.fields[k]? = some field → field.admits (h.word (i + k)) = true

/-- A tidy heap in which all nodes have layouts. -/
structure Shaped (h : Heap) : Prop extends Tidy h where
  layout : ∀ {i}, h.Header i → ∃ layout, h.Stands i layout

section

variable {h h' : Heap} {i j : Nat} {layout : Layout} {r : Ref}

namespace Stands

theorem word_tag (hs : h.Stands i layout) : h.word i = .tag layout.kind := by
  have hw := @hs 0 (.tag layout.kind) rfl
  cases hword : h.word i <;> simp_all [Field.admits]

theorem word_size (hs : h.Stands i layout) : h.word (i + 1) = .count layout.size := by
  have hw := @hs 1 (.exactly layout.size) rfl
  cases hword : h.word (i + 1) <;> simp_all [Field.admits]

theorem word_children (hs : h.Stands i layout) : h.word (i + 2) = .count layout.children := by
  have hw := @hs 2 (.exactly layout.children) rfl
  cases hword : h.word (i + 2) <;> simp_all [Field.admits]

theorem sizeAt (hs : h.Stands i layout) : h.sizeAt i = layout.size := by
  rw [Heap.sizeAt, hs.word_size]

theorem childrenAt (hs : h.Stands i layout) : h.childrenAt i = layout.children := by
  rw [Heap.childrenAt, hs.word_children]

theorem payload (hs : h.Stands i layout) {k : Nat} {field : Field}
    (hk : layout.payload[k]? = some field) : field.admits (h.word (i + (headerSize + k))) = true :=
  hs (by rw [layout.getElem?_fields]; exact hk)

/-- Words that are admitted wherever the old ones were. -/
theorem transfer (hs : h.Stands i layout)
    (hword : ∀ k < layout.size, ∀ field : Field, field.admits (h.word (i + k)) = true →
      field.admits (h'.word (j + k)) = true) : h'.Stands j layout := by
  intro k field hk
  have hlt : k < layout.size := by
    rw [← layout.length_fields]
    exact (List.getElem?_eq_some_iff.mp hk).1
  exact hword k hlt field (hs hk)

theorem congr (hs : h.Stands i layout) (hword : ∀ k < layout.size, h'.word (j + k) = h.word (i + k)) :
    h'.Stands j layout :=
  hs.transfer fun k hk _ hw => by rwa [hword k hk]

end Stands

/-! ## Changes of a node -/

namespace Shaped

/-- New words behind the header of one node, by which it has a layout again. -/
theorem rewrite (hs : h.Shaped) (layout : Layout) (hi : h.Header i) (he : SameExtent h h')
    (hout : ∀ j, j < i + headerSize ∨ i + h.sizeAt i ≤ j → h'.word j = h.word j)
    (hstands : h'.Stands i layout) : h'.Shaped := by
  have hpos := (hs.node hi).size_pos
  have hsize : h'.sizeAt i = h.sizeAt i := sizeAt_congr (hout _ (.inl (by unfold headerSize; omega)))
  have hother : ∀ j, h.Header j → j ≠ i → ∀ k < h.sizeAt j, h'.word (j + k) = h.word (j + k) := by
    intro j hj hne k hk
    refine hout _ ?_
    rcases hs.laid.apart hj hi hne with hle | hle
    · exact .inl (by omega)
    · exact .inr (by omega)
  obtain ⟨htidy, hheader⟩ := hs.toTidy.change he
    (fun j hj k hk => by
      by_cases hji : j = i
      · exact hout _ (.inl (by omega))
      · exact hother j hj hji k (Nat.lt_of_lt_of_le hk (hs.node hj).size_pos))
    (fun j hj k hk hk' => by
      by_cases hji : j = i
      · subst hji
        have hlt : k < layout.fields.length := by
          rw [layout.length_fields, ← hstands.sizeAt, hsize]
          exact hk'
        have hfield := List.getElem?_eq_getElem hlt
        exact Layout.plain_of_admits (by unfold headerSize at hk; omega) hfield (hstands hfield)
      · rw [hother j hj hji k hk']
        exact hs.plain hj k (by unfold headerSize at hk; omega) hk')
  refine ⟨htidy, fun {j} hj => ?_⟩
  have hj' := (hheader j).mp hj
  by_cases hji : j = i
  · exact ⟨layout, hji ▸ hstands⟩
  · obtain ⟨old, hold⟩ := hs.layout hj'
    refine ⟨old, hold.congr fun k hk => hother j hj' hji k ?_⟩
    rwa [hold.sizeAt]

/-- A node lies inside the array. -/
theorem fits (hs : h.Shaped) (hi : h.Header i) (hl : h.Stands i layout) :
    i + layout.size ≤ h.words.size := by
  have hup := (hs.node hi).upper
  have hfree := hs.halved.free_le
  have hhalf := hs.halved.half_le
  rw [hl.sizeAt] at hup
  omega

/-- A word that the field admits leaves the layout as it is. -/
theorem setWord (hs : h.Shaped) (hi : h.Header i) (hl : h.Stands i layout) {k : Nat} {field : Field}
    (hk : layout.payload[k]? = some field) {w : Word} (hw : field.admits w = true) :
    (h.setWord (i + (headerSize + k)) w).Shaped := by
  have hlt : k < layout.payload.length := (List.getElem?_eq_some_iff.mp hk).1
  have hin : i + (headerSize + k) < h.words.size := by
    have := hs.fits hi hl
    unfold Layout.size at this
    omega
  refine hs.rewrite layout hi ⟨setWord_size .., rfl, rfl, rfl⟩ ?_ ?_
  · intro j hj
    rw [hl.sizeAt, Layout.size] at hj
    exact word_setWord_ne _ _ (by omega)
  · intro l field' hl'
    rw [word_setWord _ _ _ _ hin]
    split
    · obtain rfl : l = headerSize + k := by omega
      rw [layout.getElem?_fields, hk] at hl'
      obtain rfl : field = field' := by simpa using hl'
      exact hw
    · exact hl hl'

/-! ## What is found out by looking -/

/-- A node of a kind has a layout of that kind. -/
theorem of_kind (hs : h.Shaped) {kind : Kind} (hok : Heap.kind r h = .ok kind) :
    h.Valid r ∧ ∃ layout : Layout, layout.kind = kind ∧ h.Stands r.index layout := by
  have hv := hs.valid_of_kind hok
  obtain ⟨layout, hl⟩ := hs.layout hv.2
  rw [hs.kind_valid hv hl.word_tag] at hok
  exact ⟨hv, layout, by simpa using hok, hl⟩

theorem of_expect (hs : h.Shaped) {kind : Kind} (hok : Heap.expect r kind h = .ok ()) :
    h.Valid r ∧ ∃ layout : Layout, layout.kind = kind ∧ h.Stands r.index layout := by
  refine hs.of_kind ?_
  simp only [Heap.expect, Actions.look_bind] at hok
  cases hk : Heap.kind r h with
  | error e => simp [hk] at hok
  | ok found =>
    by_cases heq : found = kind
    · rw [heq]
    · simp [hk, heq] at hok

theorem of_frame (hs : h.Shaped) (hok : Frame.expect r h = .ok ()) :
    h.Valid r ∧ ∃ layout : Layout, layout.payload[0]? = some .link ∧ h.Stands r.index layout := by
  simp only [Frame.expect, Actions.look_bind] at hok
  cases hk : Heap.kind r h with
  | error e => simp [hk] at hok
  | ok found =>
    obtain ⟨hv, layout, hkind, hl⟩ := hs.of_kind hk
    refine ⟨hv, layout, ?_, hl⟩
    cases layout <;> simp [Layout.kind] at hkind <;> simp [hk, ← hkind] at hok <;> rfl

theorem childCount (hs : h.Shaped) (hv : h.Valid r) (hl : h.Stands r.index layout) :
    Heap.childCount r h = .ok layout.children := by
  rw [hs.childCount_valid hv, hl.childrenAt]

theorem of_slots (hs : h.Shaped) {slots : Nat} (hok : Environment.size r h = .ok slots) :
    h.Valid r ∧ h.Stands r.index (.environment slots) := by
  simp only [Environment.size, Actions.look_bind] at hok
  cases hexpect : Heap.expect r .environment h with
  | error e => simp [hexpect] at hok
  | ok _ =>
    obtain ⟨hv, layout, hkind, hl⟩ := hs.of_expect hexpect
    cases layout <;> simp [Layout.kind] at hkind
    rename_i n
    obtain rfl : n = slots := by
      simpa [hexpect, hs.childCount hv hl, Layout.children] using hok
    exact ⟨hv, hl⟩

theorem of_slotOffset (hs : h.Shaped) {slot offset : Nat}
    (hok : Environment.slotOffset r slot h = .ok offset) :
    h.Valid r ∧ offset = headerSize + slot ∧ ∃ slots, slot < slots ∧
      h.Stands r.index (.environment slots) := by
  simp only [Environment.slotOffset, Actions.look_bind] at hok
  cases hsize : Environment.size r h with
  | error e => simp [hsize] at hok
  | ok slots =>
    obtain ⟨hv, hl⟩ := hs.of_slots hsize
    by_cases hle : slots ≤ slot
    · simp [hsize, hle] at hok
    · have hoffset : headerSize + slot = offset := by simpa [hsize, hle] using hok
      exact ⟨hv, hoffset.symm, slots, by omega, hl⟩

theorem of_capacity (hs : h.Shaped) {capacity : Nat} (hok : OperandStack.capacity r h = .ok capacity) :
    h.Valid r ∧ ∃ depth room, depth + room = capacity ∧ h.Stands r.index (.operandStack depth room) := by
  simp only [OperandStack.capacity, Actions.look_bind] at hok
  cases hexpect : Heap.expect r .operandStack h with
  | error e => simp [hexpect] at hok
  | ok _ =>
    obtain ⟨hv, layout, hkind, hl⟩ := hs.of_expect hexpect
    cases layout <;> simp [Layout.kind] at hkind
    rename_i depth room
    have hcapacity : depth + room = capacity := by
      simpa [hexpect, hs.childCount hv hl, Layout.children] using hok
    exact ⟨hv, depth, room, hcapacity, hl⟩

theorem read (hs : h.Shaped) (hv : h.Valid r) (hl : h.Stands r.index layout) {k : Nat}
    (hk : k < layout.payload.length) :
    Heap.read r (headerSize + k) h = .ok (h.word (r.index + (headerSize + k))) :=
  hs.read_valid hv (Nat.le_add_right _ _) (by rw [hl.sizeAt, Layout.size]; omega)

end Shaped

/-! ## Operand stacks -/

/-- An operand stack, word by word. -/
theorem stands_operandStack {depth room : Nat} :
    h.Stands i (.operandStack depth room) ↔
      h.word i = .tag .operandStack ∧ h.word (i + 1) = .count (headerSize + (depth + room + 1)) ∧
      h.word (i + 2) = .count (depth + room) ∧
      (∀ p < depth, ∃ value, h.word (i + (headerSize + p)) = .ref value) ∧
      (∀ p, depth ≤ p → p < depth + room → h.word (i + (headerSize + p)) = .empty) ∧
      h.word (i + (headerSize + (depth + room))) = .count depth := by
  have hfield : ∀ p, (Layout.operandStack depth room).payload[p]? =
      if p < depth then some .operand else if p < depth + room then some .vacant
      else if p = depth + room then some (.exactly depth) else none := by
    intro p
    simp only [Layout.payload, List.getElem?_append, List.length_append, List.length_replicate,
      List.getElem?_replicate]
    split
    · split
      · rfl
      · rw [if_pos (by omega)]
    · rw [if_neg (by omega)]
      by_cases heq : p = depth + room
      · simp [heq]
      · rw [if_neg heq, List.getElem?_eq_none_iff.mpr (by simp; omega)]
  have hsize : (Layout.operandStack depth room).size = headerSize + (depth + room + 1) := by
    simp [Layout.size, Layout.payload, Nat.add_assoc]
  constructor
  · intro hl
    refine ⟨hl.word_tag, ?_, hl.word_children, ?_, ?_, ?_⟩
    · rw [hl.word_size, hsize]
    · intro p hp
      have hw := hl.payload (k := p) ((hfield p).trans (if_pos hp))
      cases hword : h.word (i + (headerSize + p)) <;> simp_all [Field.admits]
    · intro p hp hp'
      have hw := hl.payload (k := p) ((hfield p).trans (by rw [if_neg (by omega), if_pos hp']))
      cases hword : h.word (i + (headerSize + p)) <;> simp_all [Field.admits]
    · have hw := hl.payload (k := depth + room) ((hfield _).trans (by simp; rfl))
      cases hword : h.word (i + (headerSize + (depth + room))) <;> simp_all [Field.admits]
  · rintro ⟨htag, hlen, hchildren, hoperands, hvacant, htop⟩ k field hk
    rcases cases_header k with rfl | rfl | rfl | ⟨p, rfl⟩
    · obtain rfl : Field.tag .operandStack = field := by simpa [Layout.fields, Layout.kind] using hk
      rw [Nat.add_zero, htag]
      rfl
    · obtain rfl : Field.exactly _ = field := by simpa [Layout.fields] using hk
      simp [hlen, hsize, Field.admits]
    · obtain rfl : Field.exactly _ = field := by simpa [Layout.fields] using hk
      simp [hchildren, Layout.children, Field.admits]
    · rw [Layout.getElem?_fields, hfield] at hk
      split at hk
      · rename_i hp
        obtain ⟨value, hw⟩ := hoperands p hp
        obtain rfl : Field.operand = field := by simpa using hk
        rw [hw]
        rfl
      · split at hk
        · rename_i hp hp'
          obtain rfl : Field.vacant = field := by simpa using hk
          rw [hvacant p (by omega) hp']
          rfl
        · split at hk
          · rename_i heq
            obtain rfl : Field.exactly depth = field := by simpa using hk
            rw [heq, htop]
            simp [Field.admits]
          · cases hk

/-- The depth that is read is that of the layout. -/
theorem Shaped.readCount_top {depth room : Nat} (hs : h.Shaped) (hv : h.Valid r)
    (hl : h.Stands r.index (.operandStack depth room)) :
    Heap.readCount r (headerSize + (depth + room)) h = .ok depth := by
  obtain ⟨-, -, -, -, -, htop⟩ := stands_operandStack.mp hl
  simp [Heap.readCount, hs.read hv hl (k := depth + room) (by simp [Layout.payload]), htop]

/-! ## Setters -/

/-- What is looked at before a change is found in the heap as it is. -/
theorem Shaped.look {α β : Type} (hs : h.Shaped) {x : Probe α} {f : α → HeapM β}
    (hf : ∀ a, x h = .ok a → (Actions.after (f a) h).Shaped) :
    (Actions.after ((liftM x : HeapM α) >>= f) h).Shaped := by
  rw [Actions.after, Actions.bind_apply, Actions.lift_look_heap]
  cases hx : x h with
  | error e => exact hs
  | ok a => exact hf a hx

namespace Shaped

theorem write (hs : h.Shaped) (hv : h.Valid r) (hl : h.Stands r.index layout) {k : Nat} (field : Field)
    (hk : layout.payload[k]? = some field) {w : Word} (hw : field.admits w = true) :
    (Actions.after (Heap.write r (headerSize + k) w) h).Shaped := by
  have hlt : k < layout.payload.length := (List.getElem?_eq_some_iff.mp hk).1
  have hend : headerSize + k < h.sizeAt r.index := by
    rw [hl.sizeAt, Layout.size]
    omega
  rw [Actions.after, (hs.leads hv hl.word_tag).write_eq (Nat.le_add_right _ _) hend]
  exact hs.setWord hv.2 hl hk hw

theorem setSlot (hs : h.Shaped) (env : Ref) (slot : Nat) (value : Ref) :
    (Actions.after (Environment.setSlot env slot value) h).Shaped := by
  refine hs.look fun offset hoffset => ?_
  obtain ⟨hv, rfl, slots, hlt, hl⟩ := hs.of_slotOffset hoffset
  refine hs.write hv hl .slot ?_ rfl
  simp [Layout.payload, List.getElem?_append, hlt]

theorem setEnclosing (hs : h.Shaped) (env outer : Ref) :
    (Actions.after (Environment.setEnclosing env outer) h).Shaped := by
  refine hs.look fun _ _ => hs.look fun slots hslots => ?_
  obtain ⟨hv, hl⟩ := hs.of_slots hslots
  exact hs.write hv hl .link (by simp [Layout.payload]) rfl

theorem setClosureEnv (hs : h.Shaped) (closure env : Ref) :
    (Actions.after (Closure.setEnv closure env) h).Shaped := by
  refine hs.look fun _ hexpect => hs.look fun _ _ => ?_
  obtain ⟨hv, layout, hkind, hl⟩ := hs.of_expect hexpect
  cases layout <;> simp [Layout.kind] at hkind
  exact hs.write hv hl (k := 0) .link rfl rfl

theorem setFrameEnv (hs : h.Shaped) (frame env : Ref) :
    (Actions.after (Frame.setEnv frame env) h).Shaped := by
  refine hs.look fun _ hexpect => hs.look fun _ _ => ?_
  obtain ⟨hv, layout, hlink, hl⟩ := hs.of_frame hexpect
  exact hs.write hv hl (k := 0) .link hlink rfl

theorem setFrameStack (hs : h.Shaped) (frame stack : Ref) :
    (Actions.after (CallFrame.setStack frame stack) h).Shaped := by
  refine hs.look fun _ hexpect => hs.look fun _ _ => ?_
  obtain ⟨hv, layout, hkind, hl⟩ := hs.of_expect hexpect
  cases layout <;> simp [Layout.kind] at hkind
  exact hs.write hv hl (k := 1) .link rfl rfl

/-- Two words of an operand stack are written: a place, and the top, which then tells the operands from the empty
places again. In between the stack has no layout. -/
theorem restack {depth room p : Nat} (hs : h.Shaped) (hv : h.Valid r)
    (hl : h.Stands r.index (.operandStack depth room)) (depth' room' : Nat) (hsum : depth' + room' = depth + room)
    (hp : p < depth + room) {w : Word}
    (hw : p < depth' ∧ (∃ value, w = .ref value) ∨ depth' ≤ p ∧ w = .empty)
    (hsame : ∀ q, q ≠ p → (q < depth' ↔ q < depth)) :
    ∃ h', (do
        Heap.write r (headerSize + p) w
        Heap.write r (headerSize + (depth + room)) (.count depth') : HeapM Unit) h = .ok () h' ∧
      h'.Shaped := by
  have hsize : h.sizeAt r.index = headerSize + (depth + room + 1) := by
    rw [hl.sizeAt]
    simp [Layout.size, Layout.payload, Nat.add_assoc]
  have hleads := hs.leads hv hl.word_tag
  have hplace := hleads.write_eq (Nat.le_add_right headerSize p) (by omega) w
  have htop := (hleads.setWord (Nat.le_add_right headerSize p) w).write_eq
    (Nat.le_add_right headerSize (depth + room)) (by omega) (.count depth')
  refine ⟨(h.setWord (r.index + (headerSize + p)) w).setWord
    (r.index + (headerSize + (depth + room))) (.count depth'), ?_, ?_⟩
  · rw [Actions.bind_ok hplace, htop]
  · have hfits := hs.fits hv.2 hl
    rw [← hl.sizeAt, hsize] at hfits
    have hother : ∀ k, k ≠ headerSize + p → k ≠ headerSize + (depth + room) →
        ((h.setWord (r.index + (headerSize + p)) w).setWord
          (r.index + (headerSize + (depth + room))) (.count depth')).word (r.index + k) =
            h.word (r.index + k) := by
      intro k hk hk'
      rw [word_setWord_ne _ _ (by omega), word_setWord_ne _ _ (by omega)]
    have hwritten : ((h.setWord (r.index + (headerSize + p)) w).setWord
        (r.index + (headerSize + (depth + room))) (.count depth')).word
          (r.index + (headerSize + p)) = w := by
      rw [word_setWord_ne _ _ (by omega), word_setWord_self _ _ _ (by omega)]
    obtain ⟨htag, hlen, hchildren, hoperands, hvacant, -⟩ := stands_operandStack.mp hl
    refine hs.rewrite (.operandStack depth' room') hv.2 ⟨by simp, rfl, rfl, rfl⟩ ?_
      (stands_operandStack.mpr ?_)
    · intro j hj
      rw [word_setWord_ne _ _ (by omega), word_setWord_ne _ _ (by omega)]
    · rw [hsum]
      refine ⟨(hother 0 (by unfold headerSize; omega) (by unfold headerSize; omega)).trans htag,
        (hother 1 (by unfold headerSize; omega) (by unfold headerSize; omega)).trans hlen,
        (hother 2 (by unfold headerSize; omega) (by unfold headerSize; omega)).trans hchildren,
        fun q hq => ?_, fun q hq hq' => ?_, ?_⟩
      · by_cases heq : q = p
        · obtain ⟨-, value, rfl⟩ := hw.resolve_right (by omega)
          exact ⟨value, heq ▸ hwritten⟩
        · rw [hother _ (by omega) (by omega)]
          exact hoperands q ((hsame q heq).mp hq)
      · by_cases heq : q = p
        · obtain ⟨-, rfl⟩ := hw.resolve_left (by omega)
          exact heq ▸ hwritten
        · rw [hother _ (by omega) (by omega)]
          exact hvacant q (Nat.not_lt.mp fun hlt => by have := (hsame q heq).mpr hlt; omega) hq'
      · rw [word_setWord_self _ _ _ (by simp; omega)]

theorem push (hs : h.Shaped) (stack value : Ref) :
    (Actions.after (OperandStack.push stack value) h).Shaped := by
  refine hs.look fun capacity hcapacity => hs.look fun top htop => ?_
  obtain ⟨hv, depth, room, rfl, hl⟩ := hs.of_capacity hcapacity
  rw [hs.readCount_top hv hl] at htop
  obtain rfl : depth = top := by simpa using htop
  by_cases hfull : depth = depth + room
  · rw [if_pos hfull]
    exact hs
  · rw [if_neg hfull]
    obtain ⟨h', hrun, hs'⟩ := hs.restack (p := depth) (w := .ref value) hv hl (depth + 1)
      (room - 1) (by omega) (by omega) (.inl ⟨by omega, value, rfl⟩) (by omega)
    have hpush : (Actions.after (do
        Heap.write stack (headerSize + depth) (.ref value)
        Heap.write stack (headerSize + (depth + room)) (.count (depth + 1)) : HeapM Unit) h).Shaped := by
      rw [Actions.after, hrun]
      exact hs'
    exact hpush

theorem pop (hs : h.Shaped) (stack : Ref) : (Actions.after (OperandStack.pop stack) h).Shaped := by
  refine hs.look fun capacity hcapacity => hs.look fun top htop => ?_
  obtain ⟨hv, depth, room, rfl, hl⟩ := hs.of_capacity hcapacity
  rw [hs.readCount_top hv hl] at htop
  obtain rfl : depth = top := by simpa using htop
  by_cases hempty : depth = 0
  · rw [if_pos hempty]
    exact hs
  · rw [if_neg hempty]
    refine hs.look fun value _ => ?_
    obtain ⟨h', hrun, hs'⟩ := hs.restack (p := depth - 1) (w := .empty) hv hl (depth - 1)
      (room + 1) (by omega) (by omega) (.inr ⟨Nat.le_refl _, rfl⟩) (by omega)
    have hoffset : headerSize + depth - 1 = headerSize + (depth - 1) := by omega
    rw [hoffset, Actions.after, ← bind_assoc, Actions.bind_ok hrun]
    exact hs'

end Shaped

end

end Heap

end ClosureMachine
