import ClosureMachine.Host.Primitive
import ClosureMachine.Proofs.Heap.Histories
import ClosureMachine.Proofs.Host.StringTable
import Mathlib.Order.Bounds.Basic
import Mathlib.Data.List.Infix

/-!
# The life of a string table

A host is asked for the numbers of texts, and from time to time it is told which numbers are still in use. Whatever the
texts and the lists of numbers are, the table stays sound, and it has no more slots than it needs: a slot is added only
when all others have a text. So the number of slots is the largest number of texts that were ever held together.
-/

set_option autoImplicit false

namespace ClosureMachine

/-! ## Slots -/

namespace StringTable

variable {t : StringTable}

/-- Each slot has a text or is free. -/
def Counted (t : StringTable) : Prop := t.index.size + t.free.length = t.slots.size

theorem empty_counted : Counted empty := rfl

theorem Counted.size_index_le (hc : t.Counted) : t.index.size ≤ t.slots.size := by
  unfold Counted at hc
  omega

/-- A slot is added only when none is free, and none is free then. -/
theorem Counted.intern (hc : t.Counted) (s : String) :
    (t.intern s).2.Counted ∧ t.slots.size ≤ (t.intern s).2.slots.size ∧
      ((t.intern s).2.slots.size = t.slots.size ∨ (t.intern s).2.free = []) := by
  unfold StringTable.intern
  cases hfound : t.index[s]? with
  | some id => exact ⟨hc, Nat.le_refl _, .inl rfl⟩
  | none =>
    have hnew : s ∉ t.index := by
      rw [← Std.HashMap.isSome_getElem?_iff_mem, hfound]
      exact Bool.false_ne_true
    have hsize : ∀ id, (t.index.insert s id).size = t.index.size + 1 := fun id => by
      rw [Std.HashMap.size_insert, if_neg hnew]
    unfold Counted at hc
    cases hfree : t.free with
    | cons id rest =>
      rw [hfree, List.length_cons] at hc
      have hslots : (t.slots.setIfInBounds id (some s)).size = t.slots.size := Array.size_setIfInBounds
      refine ⟨?_, Nat.le_of_eq hslots.symm, .inl hslots⟩
      show (t.index.insert s id).size + rest.length = (t.slots.setIfInBounds id (some s)).size
      rw [hsize, hslots]
      omega
    | nil =>
      rw [hfree, List.length_nil] at hc
      have hslots : (t.slots.push (some s)).size = t.slots.size + 1 := Array.size_push _
      refine ⟨?_, ?_, .inr rfl⟩
      · show (t.index.insert s t.slots.size).size + 0 = (t.slots.push (some s)).size
        rw [hsize, hslots]
        omega
      · exact Nat.le_of_lt (by rw [hslots]; omega)

/-- The slot of a text that is forgotten becomes free. -/
theorem Counted.release (hc : t.Counted) (ht : t.Sound) (id : Nat) :
    (t.release id).Counted ∧ (t.release id).slots.size = t.slots.size := by
  unfold StringTable.release
  cases hslot : (t.slots[id]?).getD none with
  | none => exact ⟨hc, rfl⟩
  | some s =>
    have hmem : s ∈ t.index := by
      rw [← Std.HashMap.isSome_getElem?_iff_mem, (ht.index s id).mpr (holds_of_getD hslot)]
      rfl
    have hpos : t.index.size ≠ 0 := by
      have hempty : t.index.isEmpty = false := Std.HashMap.isEmpty_eq_false_iff_exists_mem.mpr ⟨s, hmem⟩
      simpa [Std.HashMap.isEmpty_eq_size_eq_zero] using hempty
    have hslots : (t.slots.setIfInBounds id none).size = t.slots.size := Array.size_setIfInBounds
    refine ⟨?_, hslots⟩
    show (t.index.erase s).size + (t.free.length + 1) = (t.slots.setIfInBounds id none).size
    rw [hslots, Std.HashMap.size_erase, if_pos hmem, ← hc]
    omega

theorem Counted.releaseAll (hc : t.Counted) (ht : t.Sound) (marked : Nat → Bool) (ids : List Nat) :
    (ids.foldl (fun t id => if marked id then t else t.release id) t).Counted ∧
      (ids.foldl (fun t id => if marked id then t else t.release id) t).slots.size = t.slots.size := by
  induction ids generalizing t with
  | nil => exact ⟨hc, rfl⟩
  | cons i rest ih =>
    rw [List.foldl_cons]
    by_cases hm : marked i = true
    · rw [if_pos hm]
      exact ih hc ht
    · rw [if_neg hm]
      obtain ⟨hcounted, hsize⟩ := hc.release ht i
      rw [← hsize]
      exact ih hcounted (ht.release i).1

theorem Counted.retain (hc : t.Counted) (ht : t.Sound) (live : List Nat) :
    (t.retain live).Counted ∧ (t.retain live).slots.size = t.slots.size :=
  hc.releaseAll ht (fun id => (marks t.slots.size live).getD id false) (List.range t.slots.size)

end StringTable

namespace Host

/-! ## Histories -/

/-- What is asked of a host about texts. -/
inductive StringCall where
  /-- The number of a text. -/
  | intern (s : String)
  /-- To forget all texts but those of the given numbers. -/
  | retain (live : List Nat)

/-- The host after a call. -/
def serve (host : Host) : StringCall → Host
  | .intern s => Actions.after (intern s) host
  | .retain live => { host with strings := host.strings.retain live }

/-- A host that was empty, after a history of calls. -/
def afterCalls (calls : List StringCall) : Host := calls.foldl serve empty

theorem afterCalls_append (calls calls' : List StringCall) :
    afterCalls (calls ++ calls') = calls'.foldl serve (afterCalls calls) := List.foldl_append

theorem afterCalls_concat (calls : List StringCall) (call : StringCall) :
    afterCalls (calls ++ [call]) = (afterCalls calls).serve call := afterCalls_append calls [call]

theorem sound_serve {host : Host} (h : host.strings.Sound) (call : StringCall) :
    (host.serve call).strings.Sound := by
  cases call with
  | intern s => exact (h.intern s).1
  | retain live => exact (h.retain live).1

theorem sound_afterCalls (calls : List StringCall) : (afterCalls calls).strings.Sound := by
  induction calls using List.reverseRecOn with
  | nil => exact StringTable.empty_sound
  | append_singleton calls call ih =>
    rw [afterCalls_concat]
    exact sound_serve ih call

/-- A text stays under its number, unless the host is told that the number is not in use. -/
theorem holds_serve {host : Host} (h : host.strings.Sound) {id : Nat} {s : String} (hid : host.strings.Holds id s)
    {call : StringCall} (hlive : ∀ live, call = .retain live → id ∈ live) : (host.serve call).strings.Holds id s := by
  cases call with
  | intern s' => exact ((h.intern s').2 id s).mpr (.inl hid)
  | retain live => exact ((h.retain live).2 id s).mpr ⟨hid, hlive live rfl⟩

theorem holds_foldl_serve {host : Host} (h : host.strings.Sound) {id : Nat} {s : String}
    (hid : host.strings.Holds id s) {calls : List StringCall} (hlive : ∀ live, .retain live ∈ calls → id ∈ live) :
    (calls.foldl serve host).strings.Holds id s := by
  induction calls generalizing host with
  | nil => exact hid
  | cons call calls ih =>
    have hcall : (host.serve call).strings.Holds id s :=
      holds_serve h hid fun live hlive' => hlive live (hlive' ▸ List.mem_cons_self)
    exact ih (sound_serve h call) hcall fun live hmem => hlive live (List.mem_cons_of_mem _ hmem)

/-- A call that adds a slot leaves none free. -/
theorem counted_serve {host : Host} (h : host.strings.Sound) (hc : host.strings.Counted) (call : StringCall) :
    (host.serve call).strings.Counted ∧ host.strings.slots.size ≤ (host.serve call).strings.slots.size ∧
      ((host.serve call).strings.slots.size = host.strings.slots.size ∨ (host.serve call).strings.free = []) := by
  cases call with
  | intern s => exact hc.intern s
  | retain live =>
    obtain ⟨hcounted, hsize⟩ := hc.retain h live
    exact ⟨hcounted, Nat.le_of_eq hsize.symm, .inl hsize⟩

theorem counted_afterCalls (calls : List StringCall) : (afterCalls calls).strings.Counted := by
  induction calls using List.reverseRecOn with
  | nil => exact StringTable.empty_counted
  | append_singleton calls call ih =>
    rw [afterCalls_concat]
    exact (counted_serve (sound_afterCalls calls) ih call).1

/-- How many texts were held, at each point of a history. -/
def heldCounts (calls : List StringCall) : Set Nat :=
  { n | ∃ earlier, earlier <+: calls ∧ (afterCalls earlier).strings.index.size = n }

/-- There are as many slots as there were texts when there were most. -/
theorem isGreatest_slots (calls : List StringCall) :
    IsGreatest (heldCounts calls) (afterCalls calls).strings.slots.size := by
  induction calls using List.reverseRecOn with
  | nil =>
    refine ⟨⟨[], List.prefix_rfl, rfl⟩, ?_⟩
    rintro n ⟨earlier, hprefix, rfl⟩
    rw [List.prefix_nil.mp hprefix]
    exact Nat.le_refl 0
  | append_singleton calls call ih =>
    obtain ⟨⟨most, hmost, hcount⟩, hupper⟩ := ih
    obtain ⟨hcounted, hgrows, hfull⟩ := counted_serve (sound_afterCalls calls) (counted_afterCalls calls) call
    rw [← afterCalls_concat] at hcounted hgrows hfull
    constructor
    · cases hfull with
      | inl hsame => exact ⟨most, hmost.trans (List.prefix_append _ _), hcount.trans hsame.symm⟩
      | inr hfree =>
        -- all slots have a text, so this is the time at which there are most
        refine ⟨calls ++ [call], List.prefix_rfl, ?_⟩
        unfold StringTable.Counted at hcounted
        rw [← hcounted, hfree]
        rfl
    · rintro n ⟨earlier, hprefix, rfl⟩
      cases List.prefix_concat_iff.mp hprefix with
      | inl hall => exact hall ▸ hcounted.size_index_le
      | inr hearlier => exact (hupper ⟨earlier, hearlier, rfl⟩).trans hgrows

/-! ## Numbers in place of texts -/

/-- What interning gives: the number that the text had, if it had one, and otherwise one that no other text has. -/
theorem intern_gives {host : Host} (h : host.strings.Sound) (s : String) :
    ∃ id, intern s host = .ok id (host.serve (.intern s)) ∧ (host.serve (.intern s)).strings.Holds id s ∧
      (∀ id', host.strings.Holds id' s → id' = id) ∧ ∀ s', host.strings.Holds id s' → s' = s := by
  obtain ⟨hsound, hholds⟩ := h.intern s
  have hgiven : (host.strings.intern s).2.Holds (host.strings.intern s).1 s := h.holds_intern s
  refine ⟨(host.strings.intern s).1, rfl, hgiven, fun id' hid' => ?_, fun s' hs' => ?_⟩
  · exact hsound.inj ((hholds id' s).mpr (.inl hid')) hgiven
  · exact ((hholds _ s').mpr (.inl hs')).unique hgiven

theorem eq_iff_of_holds {host : Host} (h : host.strings.Sound) {x y : Nat} {s s' : String}
    (hx : host.strings.Holds x s) (hy : host.strings.Holds y s') : x = y ↔ s = s' := by
  constructor
  · rintro rfl
    exact hx.unique hy
  · rintro rfl
    exact h.inj hx hy

/-- A literal that is put into a box can be taken out again. -/
theorem literalOf_datumOf {host : Host} (h : host.strings.Sound) (value : Literal) :
    ∃ datum host', datumOf value host = .ok datum host' ∧ host'.literalOf datum = value := by
  cases value with
  | string s =>
    obtain ⟨id, hid, hholds, -, -⟩ := intern_gives h s
    refine ⟨.string id, host.serve (.intern s), ?_, ?_⟩
    · rw [datumOf, Actions.bind_ok hid]
      rfl
    · exact congrArg Literal.string hholds.text
  | _ => exact ⟨_, host, rfl, rfl⟩

/-- Two texts stand in exactly one order. -/
theorem count_orders (s s' : String) : [decide (s < s'), decide (s = s'), decide (s' < s)].count true = 1 := by
  by_cases hlt : s < s'
  · have hne : s ≠ s' := fun heq => String.lt_irrefl s' (heq ▸ hlt)
    simp [hlt, hne, String.lt_asymm hlt]
  · by_cases hgt : s' < s
    · have hne : s ≠ s' := fun heq => String.lt_irrefl s' (heq ▸ hgt)
      simp [hlt, hgt, hne]
    · have heq : s = s' := String.le_antisymm (String.not_lt.mp hgt) (String.not_lt.mp hlt)
      rw [heq, decide_eq_false (String.lt_irrefl s'), decide_eq_true rfl]
      rfl

/-- Texts are compared by their numbers as they are by their characters. -/
theorem comparisons_of_holds {host : Host} (h : host.strings.Sound) {x y : Nat} {s s' : String}
    (hx : host.strings.Holds x s) (hy : host.strings.Holds y s') :
    Primitive.apply .less [.datum (.string x), .datum (.string y)] host = .ok (.boolean (decide (s < s'))) host ∧
      Primitive.apply .same [.datum (.string x), .datum (.string y)] host = .ok (.boolean (decide (s = s'))) host ∧
      Primitive.apply .greater [.datum (.string x), .datum (.string y)] host =
        .ok (.boolean (decide (s' < s))) host := by
  have htexts : host.text x = s ∧ host.text y = s' := ⟨hx.text, hy.text⟩
  refine ⟨?_, ?_, ?_⟩
  · rw [← htexts.1, ← htexts.2]
    rfl
  · show EStateM.Result.ok (Datum.boolean (decide (Datum.string x = Datum.string y))) host = _
    simp [eq_iff_of_holds h hx hy]
  · rw [← htexts.1, ← htexts.2]
    rfl

/-! ## All of it -/

/-- After any history of calls the table is an interner: index and slots are inverse to each other and the free slots are
listed once each. A text gets the number that it has or one that no other text has, and keeps it for as long as the number
is said to be in use. Numbers that are held are equal if their texts are, and exactly one of the three comparisons holds
between them. Literals come back out of boxes. There are as many slots as there were texts when there were most. -/
theorem strings_interned (calls : List StringCall) :
    (afterCalls calls).strings.Sound ∧
    (∀ s, ∃ id, intern s (afterCalls calls) = .ok id (afterCalls (calls ++ [.intern s])) ∧
      (afterCalls (calls ++ [.intern s])).text id = s ∧
      (∀ id', (afterCalls calls).strings.Holds id' s → id' = id) ∧
      ∀ s', (afterCalls calls).strings.Holds id s' → s' = s) ∧
    (∀ later id s, (afterCalls calls).strings.Holds id s → (∀ live, .retain live ∈ later → id ∈ live) →
      (afterCalls (calls ++ later)).strings.Holds id s) ∧
    (∀ x y s s', (afterCalls calls).strings.Holds x s → (afterCalls calls).strings.Holds y s' →
      (x = y ↔ s = s') ∧
      ∃ less same greater : Bool,
        Primitive.apply .less [.datum (.string x), .datum (.string y)] (afterCalls calls) =
          .ok (.boolean less) (afterCalls calls) ∧
        Primitive.apply .same [.datum (.string x), .datum (.string y)] (afterCalls calls) =
          .ok (.boolean same) (afterCalls calls) ∧
        Primitive.apply .greater [.datum (.string x), .datum (.string y)] (afterCalls calls) =
          .ok (.boolean greater) (afterCalls calls) ∧
        (less = true ↔ s < s') ∧ (same = true ↔ s = s') ∧ (greater = true ↔ s' < s) ∧
        [less, same, greater].count true = 1) ∧
    (∀ value, ∃ datum host',
      datumOf value (afterCalls calls) = .ok datum host' ∧ host'.literalOf datum = value) ∧
    IsGreatest (heldCounts calls) (afterCalls calls).strings.slots.size := by
  have hsound := sound_afterCalls calls
  refine ⟨hsound, fun s => ?_, fun later id s hid hlive => ?_, fun x y s s' hx hy => ?_, literalOf_datumOf hsound,
    isGreatest_slots calls⟩
  · rw [afterCalls_concat]
    obtain ⟨id, hid, hholds, hsame, hother⟩ := intern_gives hsound s
    exact ⟨id, hid, hholds.text, hsame, hother⟩
  · rw [afterCalls_append]
    exact holds_foldl_serve hsound hid hlive
  · obtain ⟨hless, hsame, hgreater⟩ := comparisons_of_holds hsound hx hy
    exact ⟨eq_iff_of_holds hsound hx hy, _, _, _, hless, hsame, hgreater, decide_eq_true_iff, decide_eq_true_iff,
      decide_eq_true_iff, count_orders s s'⟩

/-- A text is forgotten, and its number is given to another one. -/
def reuse : List StringCall := [.intern "keep", .intern "gone", .retain [7, 0, 0], .intern "again"]

theorem slots_reuse : (afterCalls reuse).strings.slots = #[some "keep", some "again"] := by
  simp [reuse, afterCalls, serve, Actions.after, intern, empty, StringTable.intern, StringTable.empty,
    StringTable.retain, StringTable.marks, StringTable.release, List.range_succ]

theorem strings_interned_reuse :
    (afterCalls (reuse ++ [.intern "more", .retain [0]])).strings.Holds 0 "keep" ∧
      Primitive.apply .greater [.datum (.string 0), .datum (.string 1)] (afterCalls reuse) =
        .ok (.boolean true) (afterCalls reuse) ∧
      IsGreatest (heldCounts reuse) 2 := by
  have hkeep : (afterCalls reuse).strings.Holds 0 "keep" := by
    simp [StringTable.Holds, slots_reuse]
  have hagain : (afterCalls reuse).strings.Holds 1 "again" := by
    simp [StringTable.Holds, slots_reuse]
  obtain ⟨-, -, hlater, hcompare, -, hslots⟩ := strings_interned reuse
  refine ⟨hlater _ 0 "keep" hkeep (by simp), ?_, ?_⟩
  · obtain ⟨-, less, same, greater, -, -, hgreater, -, -, hiff, -⟩ := hcompare 0 1 _ _ hkeep hagain
    rw [hgreater, hiff.mpr (by decide)]
  · rw [slots_reuse] at hslots
    exact hslots

end Host

end ClosureMachine
