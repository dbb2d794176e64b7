import ClosureMachine.Proofs.Ideal.Relocate

/-!
# Making nodes

An allocation first makes sure that there is room, with a collection if need be, and then writes the
new node behind the others. Among ideal nodes this is to put one more at the end of the list
(`Ideal.allocate`), unless the nodes within reach leave too little of the room that is given. A node that
is too large for any memory is refused before a collection is made.

`Builds.spec` ties the two together for any way to make a node. That the amount of memory in use before
the allocation plays no part in whether it succeeds is the content of `reserve_spec`.
-/

set_option autoImplicit false

namespace ClosureMachine

open Heap (headerSize)
open ClosureMachine.Ideal

/-! ## Ideal allocation -/

namespace Ideal

/-- What is said if `size` words do not fit into the room beside those in use. -/
def shortage (room inUse size : Nat) : HeapError :=
  if room < size then .tooLarge .nodeSize size (.outOfMemory size (room - inUse))
  else .outOfMemory size (room - inUse)

theorem shortage_cases (room inUse size : Nat) :
    shortage room inUse size = .outOfMemory size (room - inUse) ∨
      shortage room inUse size = .overflow .nodeSize ∧ wordLimit ≤ size := by
  unfold shortage HeapError.tooLarge
  split
  · split
    · exact .inr ⟨rfl, ‹_›⟩
    · exact .inl rfl
  · exact .inl rfl

@[simp] theorem kind_shortage (room inUse size : Nat) :
    Fault.kindOfHeapError (shortage room inUse size) = .outOfMemory := by
  rcases shortage_cases room inUse size with h | ⟨h, -⟩ <;> rw [h] <;> rfl

@[simp] theorem anywhere_shortage (room inUse size : Nat) :
    (shortage room inUse size).anywhere = shortage room inUse size := by
  rcases shortage_cases room inUse size with h | ⟨h, -⟩ <;> rw [h] <;> rfl

/-- One more node. If there is a limit to the room, what is within reach of `roots` and the new node
have to stay under it together. -/
noncomputable def allocate (room : Option Nat) (roots : List Loc) (n : Node) (nodes : List Node) :
    Except HeapError (List Node) :=
  match room with
  | none => .ok (nodes ++ [n])
  | some room =>
    if room < live nodes roots + n.size then .error (shortage room (live nodes roots) n.size)
    else .ok (nodes ++ [n])

/-- An allocation fails only for want of memory. -/
theorem allocate_error {room : Option Nat} {roots : List Loc} {n : Node} {nodes : List Node}
    {e : HeapError} (h : allocate room roots n nodes = .error e) :
    ∃ limit, e = shortage limit (live nodes roots) n.size := by
  cases room with
  | none => simp [allocate] at h
  | some room =>
    simp only [allocate] at h
    split at h
    · exact ⟨room, by simpa using h.symm⟩
    · simp at h

theorem allocate_ok {room : Option Nat} {roots : List Loc} {n : Node} {nodes nodes' : List Node}
    (h : allocate room roots n nodes = .ok nodes') : nodes' = nodes ++ [n] := by
  cases room with
  | none => simpa [allocate] using h.symm
  | some room =>
    simp only [allocate] at h
    split at h
    · simp at h
    · simpa using h.symm

end Ideal

/-! ## Roots -/

/-- To replace the references of roots is to give them others, as many as there were, and nothing else. -/
class LawfulRootSet (ρ : Type) [RootSet ρ] : Prop where
  replace_toList : ∀ roots : ρ, RootSet.replace roots (RootSet.toList roots) = roots
  toList_replace : ∀ (roots : ρ) (refs : List Ref), refs.length = (RootSet.toList roots).length →
    RootSet.toList (RootSet.replace roots refs) = refs

instance : LawfulRootSet Unit where
  replace_toList _ := rfl
  toList_replace _ _ hlen := (List.length_eq_zero_iff.mp hlen).symm

instance : LawfulRootSet Ref where
  replace_toList _ := rfl
  toList_replace _ refs hlen := by
    obtain ⟨r, rfl⟩ := List.length_eq_one_iff.mp hlen
    rfl

instance : LawfulRootSet (Array Ref) where
  replace_toList _ := rfl
  toList_replace _ _ _ := rfl

instance : LawfulRootSet Registers where
  replace_toList r := by
    obtain ⟨pc, env, stack, control, pinned⟩ := r
    have hlen : control.depth = control.frames.reverse.length := by simp [control.depth_eq]
    simp only [RootSet.toList, RootSet.replace, Registers.mk.injEq, true_and]
    rw [hlen, List.take_left, List.drop_left, List.reverse_reverse, List.reverse_reverse]
    exact ⟨ControlStack.ext_frames rfl, rfl⟩
  toList_replace r refs hlen := by
    obtain ⟨pc, env, stack, control, pinned⟩ := r
    match refs with
    | [] => simp [RootSet.toList] at hlen
    | [_] => simp [RootSet.toList] at hlen
    | env' :: stack' :: rest =>
      simp [RootSet.toList, RootSet.replace, ControlStack.ofList, List.take_append_drop]

/-- The nodes and the roots have other places now, the texts are the same, and so is the room. -/
structure Kept (w : World) (h : Heap) (w' : World) (h' : Heap) (refs : List Ref) (locs : List Loc)
    (nodes : List Node) : Prop where
  rep : Represents w' h' nodes
  rooted : Represents.Rooted w' refs locs
  texts : w'.texts = w.texts
  semispace : h'.semispace = h.semispace
  trail : w.Trail h w' h'

/-! ## Making room -/

section Reserve

variable {ρ : Type} [RootSet ρ] {w : World} {h : Heap} {nodes : List Node}
  {roots : ρ} {locs : List Loc}

/-- A collection keeps what can be reached and leaves as much room as there can be. -/
theorem Store.collect_kept (hr : Represents w h nodes)
    (hroots : Represents.Rooted w (RootSet.toList roots) locs) :
    ∃ w' h' refs, Store.collect ⟨h, roots⟩ = .ok () ⟨h', RootSet.replace roots refs⟩ ∧
      Kept w h w' h' refs locs nodes ∧ h'.available = h.semispace - live nodes locs := by
  obtain ⟨h', order, hrun, hc⟩ :=
    Store.collect_eq hr.halved hr.closed roots (hr.into_of_rooted hroots)
  have hrep := hr.collected hroots hc
  refine ⟨_, h', _, hrun, ⟨hrep, hroots.moved hc, rfl, hc.semispace, .moved w hc⟩, ?_⟩
  have hused := hr.used_moved hroots hc
  have hbase := hrep.halved.base_le
  rw [Heap.available, hc.semispace, ← hused, Heap.used]
  omega

/-- Whether there is room depends on what is within reach only. -/
theorem Store.reserve_spec [LawfulRootSet ρ] (hr : Represents w h nodes)
    (hroots : Represents.Rooted w (RootSet.toList roots) locs) (size : Nat) :
    ∃ w' h' refs, Kept w h w' h' refs locs nodes ∧
      if h.semispace < live nodes locs + size then
        Store.reserve size ⟨h, roots⟩ =
          .error (.outOfMemory size (h.semispace - live nodes locs)) ⟨h', RootSet.replace roots refs⟩
      else
        Store.reserve size ⟨h, roots⟩ = .ok () ⟨h', RootSet.replace roots refs⟩ ∧
          h'.free + size ≤ h'.base + h'.semispace := by
  have hlive := hr.live_le_used hroots
  have hbase := hr.halved.base_le
  have hfree := hr.halved.free_le
  rw [Heap.used] at hlive
  rcases Store.reserve_cases size ⟨h, roots⟩ with ⟨hrun, havail⟩ | hcollected
  · -- there is room as it is, also for what is out of reach
    refine ⟨w, h, RootSet.toList roots, ⟨hr, hroots, rfl, rfl, .refl w h⟩, ?_⟩
    dsimp only [Heap.available] at havail
    rw [if_neg (by omega), LawfulRootSet.replace_toList]
    exact ⟨hrun, by omega⟩
  · obtain ⟨w', h', refs, hcollect, hkept, hleft⟩ := Store.collect_kept hr hroots
    refine ⟨w', h', refs, hkept, ?_⟩
    have hbase' := hkept.rep.halved.base_le
    have hfree' := hkept.rep.halved.free_le
    have hsemi := hkept.semispace
    rcases hcollected with ⟨e, s, hfail, -⟩ | ⟨s, hdone, hend⟩
    · rw [hcollect] at hfail
      cases hfail
    · rw [hcollect] at hdone
      cases hdone
      rcases hend with ⟨hrun, hshort⟩ | ⟨hrun, henough⟩
      · dsimp only at hrun hshort
        rw [hleft] at hrun hshort
        rw [if_pos (by omega)]
        exact hrun
      · dsimp only [Heap.available] at henough hleft
        rw [if_neg (by omega)]
        exact ⟨hrun, by omega⟩

end Reserve

/-! ## Writing a node -/

/-- A word that shows a cell still does when there are more places and more texts. -/
theorem World.Shows.mono {w w' : World} {c : Node.Cell} {v : Word} (h : w.Shows c v)
    (hplace : ∀ {l r}, w.place l = some r → w'.place l = some r)
    (htexts : ∀ {id s}, w.texts.Holds id s → w'.texts.Holds id s) : w'.Shows c v := by
  cases c with
  | ref l =>
    obtain ⟨r, hp, hv⟩ := h
    exact ⟨r, hplace hp, hv⟩
  | literal x =>
    obtain ⟨d, hv, hm⟩ := h
    refine ⟨d, hv, ?_⟩
    cases d <;> cases x <;> simp only [World.Means] at hm ⊢ <;> first | exact hm | exact htexts hm
  | count n => exact h
  | nil => exact h
  | unassigned => exact h
  | empty => exact h

/-- `h'` is `h` with a node behind the others. The node refers to nothing: it is shown in a world
without places. -/
structure Adds (texts : StringTable) (h h' : Heap) (n : Node) : Prop where
  words : h'.words.size = h.words.size
  semispace : h'.semispace = h.semispace
  base : h'.base = h.base
  free : h'.free = h.free + n.size
  epoch : h'.epoch = h.epoch
  collections : h'.collections = h.collections
  below : ∀ j < h.free, h'.word j = h.word j
  tag : h'.word h.free = .tag n.kind
  size : h'.word (h.free + 1) = .count n.size
  children : h'.word (h.free + 2) = .count n.children
  cells : ∀ {k : Nat} {c : Node.Cell}, n.cells[k]? = some c →
    World.Shows ⟨fun _ => none, texts⟩ c (h'.word (h.free + headerSize + k))

/-- The world with a place for one more node. -/
def World.extended (w : World) (l : Loc) (r : Ref) : World where
  place l' := if l' = l then some r else w.place l'
  texts := w.texts

theorem World.Placed.mono {w w' : World} {h h' : Heap} {r : Ref} {n : Node} (hp : w.Placed h r n)
    (hplace : ∀ {l r}, w.place l = some r → w'.place l = some r)
    (htexts : ∀ {id s}, w.texts.Holds id s → w'.texts.Holds id s)
    (hepoch : h'.epoch = h.epoch) (hbase : h'.base = h.base) (hfree : h.free ≤ h'.free)
    (hinside : h'.free ≤ h'.words.size) (hword : ∀ j < h.free, h'.word j = h.word j) :
    w'.Placed h' r n := by
  have hupper := hp.upper
  have hin : ∀ k < n.size, h'.word (r.index + k) = h.word (r.index + k) :=
    fun k hk => hword _ (by omega)
  have hpos := n.header_le_size
  refine ⟨hp.toLeads.mono hepoch hbase hfree hinside fun k hk => hin k (by omega), ?_⟩
  intro k c hk
  have hlt : k < n.cells.length := (List.getElem?_eq_some_iff.mp hk).1
  rw [Nat.add_assoc, hin (headerSize + k) (by unfold Node.size; omega), ← Nat.add_assoc]
  exact (hp.cells hk).mono hplace htexts

namespace Represents

variable {w : World} {h h' : Heap} {nodes : List Node} {n : Node}

theorem extended_place (hr : Represents w h nodes) {r' : Ref} {l : Loc} {r : Ref}
    (hl : w.place l = some r) : (w.extended nodes.length r').place l = some r := by
  have hlt := hr.lt_length hl
  simp only [World.extended]
  rw [if_neg (Nat.ne_of_lt hlt)]
  exact hl

theorem halved_extended (hr : Represents w h nodes) (ha : Adds w.texts h h' n)
    (hroom : h.free + n.size ≤ h.base + h.semispace) : h'.Halved := by
  have hh := hr.halved
  exact ⟨by rw [ha.words, ha.semispace, hh.size], by rw [ha.base, ha.semispace]; exact hh.base,
    by rw [ha.base, ha.free]; exact Nat.le_trans hh.base_le (Nat.le_add_right _ _),
    by rw [ha.free, ha.base, ha.semispace]; exact hroom⟩

/-- A node that is written behind the others is represented, and so are the others. -/
theorem extended (hr : Represents w h nodes) (ha : Adds w.texts h h' n)
    (hroom : h.free + n.size ≤ h.base + h.semispace) :
    Represents (w.extended nodes.length ⟨h.free, h.epoch⟩) h' (nodes ++ [n]) where
  halved := hr.halved_extended ha hroom
  placed := by
    have hinside := (hr.halved_extended ha hroom).free_inside
    intro l r hl
    simp only [World.extended] at hl
    by_cases heq : l = nodes.length
    · subst heq
      obtain rfl : (⟨h.free, h.epoch⟩ : Ref) = r := by simpa using hl
      refine ⟨n, by simp, ⟨ha.epoch.symm, ha.tag, ha.size, ha.children, Nat.le_add_right _ _, ?_, ?_,
        hinside⟩, ?_⟩
      · rw [ha.base]
        exact hr.halved.base_le
      · rw [ha.free]
      · intro k c hk
        exact (ha.cells hk).mono (by simp) (fun hh => hh)
    · rw [if_neg heq] at hl
      obtain ⟨n', hn', hp⟩ := hr.placed hl
      refine ⟨n', by rw [List.getElem?_append_left (hr.lt_length hl)]; exact hn', ?_⟩
      exact hp.mono (fun hp' => hr.extended_place hp') (fun hh => hh) ha.epoch ha.base
        (by rw [ha.free]; omega) hinside ha.below
  apart := by
    have hold : ∀ {l r}, w.place l = some r →
        r.index + wordsOf (nodes ++ [n]) l ≤ h.free ∧ wordsOf (nodes ++ [n]) l = wordsOf nodes l := by
      intro l r hl
      obtain ⟨n', hn', hp⟩ := hr.placed hl
      have hn'' : (nodes ++ [n])[l]? = some n' := by
        rw [List.getElem?_append_left (hr.lt_length hl)]
        exact hn'
      rw [wordsOf_eq hn', wordsOf_eq hn'']
      exact ⟨hp.upper, rfl⟩
    intro l l' r r' hl hl' hne
    simp only [World.extended] at hl hl'
    by_cases heq : l = nodes.length <;> by_cases heq' : l' = nodes.length
    · exact absurd (heq.trans heq'.symm) hne
    · rw [if_pos heq] at hl
      rw [if_neg heq'] at hl'
      obtain rfl : (⟨h.free, h.epoch⟩ : Ref) = r := by simpa using hl
      exact .inr (hold hl').1
    · rw [if_neg heq] at hl
      rw [if_pos heq'] at hl'
      obtain rfl : (⟨h.free, h.epoch⟩ : Ref) = r' := by simpa using hl'
      exact .inl (hold hl).1
    · rw [if_neg heq] at hl
      rw [if_neg heq'] at hl'
      rw [(hold hl).2, (hold hl').2]
      exact hr.apart hl hl' hne
  covered := by
    intro i hlower hupper
    rw [ha.base] at hlower
    rw [ha.free] at hupper
    by_cases hold : i < h.free
    · obtain ⟨l, r, hl, hle, hlt⟩ := hr.covered hlower hold
      refine ⟨l, r, hr.extended_place hl, hle, ?_⟩
      rwa [wordsOf, List.getElem?_append_left (hr.lt_length hl)]
    · refine ⟨nodes.length, ⟨h.free, h.epoch⟩, by simp [World.extended], Nat.not_lt.mp hold, ?_⟩
      rwa [wordsOf_eq (n := n) (by simp)]

theorem trail_extended (hr : Represents w h nodes) (ha : Adds w.texts h h' n) :
    w.Trail h (w.extended nodes.length ⟨h.free, h.epoch⟩) h' := by
  refine .still ⟨ha.semispace, ha.epoch, ha.collections⟩ (fun hl => hr.extended_place hl) fun {l r} hl => ?_
  simp only [World.extended] at hl
  by_cases heq : l = nodes.length
  · rw [if_pos heq] at hl
    cases hl
    exact .inr (Nat.le_refl _)
  · rw [if_neg heq] at hl
    exact .inl hl

end Represents

/-! ## The ways to make a node -/

/-- No heap has room for so many words, and this one does not. -/
abbrev Heap.Oversized (h : Heap) (size : Nat) : Prop := h.semispace < size ∧ wordLimit ≤ size

/-- The action makes the node, if there is room for it. -/
def Builds {ρ : Type} [RootSet ρ] (texts : StringTable) (make : StoreM ρ Ref) (n : Node) : Prop :=
  ∀ s : Store ρ, if s.heap.Oversized n.size then make s = .error (.overflow .nodeSize) s
    else match Store.reserve n.size s with
      | .error e s' => make s = .error e s'
      | .ok _ s' => s'.heap.base ≤ s'.heap.free → s'.heap.free + n.size ≤ s'.heap.words.size →
        ∃ h', make s = .ok ⟨s'.heap.free, s'.heap.epoch⟩ ⟨h', s'.roots⟩ ∧ Adds texts s'.heap h' n

section Builds

variable {ρ : Type} [RootSet ρ] {texts : StringTable}

/-- Words that are written behind the header of a blank node make it the node that they show. -/
theorem Adds.ofBlank {h h' : Heap} {n : Node} (hfit : h.free + n.size ≤ h.words.size)
    (hwords : h'.words.size = h.words.size) (hsemi : h'.semispace = h.semispace)
    (hbase : h'.base = h.base) (hfree : h'.free = h.free + n.size) (hepoch : h'.epoch = h.epoch)
    (hcollections : h'.collections = h.collections)
    (houter : ∀ j < h.free + headerSize,
      h'.word j = (h.blank n.kind n.size n.children).word j)
    (hcells : ∀ {k : Nat} {c : Node.Cell}, n.cells[k]? = some c →
      World.Shows ⟨fun _ => none, texts⟩ c (h'.word (h.free + headerSize + k))) :
    Adds texts h h' n := by
  have hsize := n.header_le_size
  have hheader : ∀ {k : Nat} {v : Word},
      [Word.tag n.kind, .count n.size, .count n.children][k]? = some v → h'.word (h.free + k) = v := by
    intro k v hk
    have hlt : k < 3 := by simpa using (List.getElem?_eq_some_iff.mp hk).1
    rw [houter _ (by unfold headerSize; omega)]
    exact Heap.word_blank_header hfit hsize hk
  refine ⟨hwords, hsemi, hbase, hfree, hepoch, hcollections, ?_, ?_, ?_, ?_, hcells⟩
  · intro j hj
    rw [houter j (by omega), Heap.word_blank_below hj]
  · exact @hheader 0 _ rfl
  · exact @hheader 1 _ rfl
  · exact @hheader 2 _ rfl

theorem Adds.ofPayload {h : Heap} {n : Node} (payload : List Word)
    (hfit : h.free + n.size ≤ h.words.size) (hlen : payload.length = n.cells.length)
    (hshow : ∀ {k : Nat} {c : Node.Cell} {v : Word}, n.cells[k]? = some c → payload[k]? = some v →
      World.Shows ⟨fun _ => none, texts⟩ c v) :
    Adds texts h ((h.blank n.kind n.size n.children).setWords (h.free + headerSize) payload) n := by
  obtain ⟨hb₁, hb₂, hb₃, hb₄, hb₅⟩ :=
    @Heap.blank_fields h n.kind n.size n.children
  refine Adds.ofBlank hfit (by simp [hb₁]) (by simp [hb₂]) (by simp [hb₃]) (by simp [hb₄])
    (by simp [hb₅]) (by simp) ?_ ?_
  · intro j hj
    exact Heap.word_setWords_outside _ _ _ (.inl hj)
  · intro k c hk
    have hlt : k < payload.length := by
      rw [hlen]
      exact (List.getElem?_eq_some_iff.mp hk).1
    have hv := List.getElem?_eq_getElem hlt
    rw [Heap.word_setWords_inside _ _ _ (by rw [hb₁, hlen]; unfold Node.size at hfit; omega) hv]
    exact hshow hk hv

/-- A blank node that is then filled in. -/
theorem Builds.ofBlank {n : Node} {make : StoreM ρ Ref} (fillIn : Ref → HeapM Unit)
    (hmake : ∀ s : Store ρ, make s = if s.heap.Oversized n.size then .error (.overflow .nodeSize) s
      else (do
        let node ← Store.allocate n.kind n.size n.children
        fillIn node
        return node : StoreM ρ Ref) s)
    (hfill : ∀ {h : Heap}, h.base ≤ h.free → h.free + n.size ≤ h.words.size →
      ∃ h', fillIn ⟨h.free, h.epoch⟩ (h.blank n.kind n.size n.children) = .ok () h' ∧ Adds texts h h' n) :
    Builds texts make n := by
  intro s
  rw [hmake s]
  by_cases hover : s.heap.Oversized n.size
  · rw [if_pos hover, if_pos hover]
  · rw [if_neg hover, if_neg hover]
    cases hroom : Store.reserve n.size s with
    | error e s' => simp [Store.allocate_short hroom]
    | ok _ s' =>
      intro hbase hfit
      obtain ⟨h', hrun, hadds⟩ := hfill hbase hfit
      refine ⟨h', ?_, hadds⟩
      rw [Actions.bind_ok (Store.allocate_eq n.header_le_size hroom hfit)]
      simp [hrun]

/-- A node whose words are given one by one. -/
theorem Builds.initialise {n : Node} {make : StoreM ρ Ref} (payload : List Word)
    (hmake : ∀ s : Store ρ, make s = if s.heap.Oversized n.size then .error (.overflow .nodeSize) s
      else (do
        let node ← Store.allocate n.kind n.size n.children
        Heap.writeWords node headerSize payload
        return node : StoreM ρ Ref) s)
    (hlen : payload.length = n.cells.length)
    (hshow : ∀ {k : Nat} {c : Node.Cell} {v : Word}, n.cells[k]? = some c → payload[k]? = some v →
      World.Shows ⟨fun _ => none, texts⟩ c v) :
    Builds texts make n := by
  refine .ofBlank (fun node => Heap.writeWords node headerSize payload) hmake ?_
  intro h hbase hfit
  have hleads : (h.blank n.kind n.size n.children).Leads ⟨h.free, h.epoch⟩ n.kind n.size n.children :=
    Heap.leads_blank hbase n.header_le_size hfit
  exact ⟨_, hleads.writeWords_eq (Nat.le_refl _) (by rw [hlen]; exact Nat.le_refl _),
    Adds.ofPayload payload hfit hlen hshow⟩

/-- A node of a fixed and small size. -/
theorem Builds.fixed {n : Node} (payload : List Word) (hsmall : payload.length ≤ 4)
    (hlen : payload.length = n.cells.length)
    (hshow : ∀ {k : Nat} {c : Node.Cell} {v : Word}, n.cells[k]? = some c → payload[k]? = some v →
      World.Shows ⟨fun _ => none, texts⟩ c v) :
    Builds texts (do
      let node ← Store.allocate n.kind n.size n.children
      Heap.writeWords node headerSize payload
      return node : StoreM ρ Ref) n := by
  refine .initialise payload (fun s => ?_) hlen hshow
  rw [if_neg fun hover => Node.small_of_cells (hlen ▸ hsmall) hover.2]

theorem builds_closure (arity entry stack : Nat) :
    Builds texts (Closure.new arity entry stack : StoreM ρ Ref) (.closure none arity entry stack) := by
  refine Builds.fixed [.nil, .count arity, .count entry, .count stack] (by simp) rfl ?_
  intro k c v hk hv
  rcases k with _ | _ | _ | _ | k <;> simp [Node.cells, Node.linkCell] at hk hv <;> subst hk hv <;> rfl

theorem builds_primitive (id : Nat) :
    Builds texts (PrimitiveFunction.new id : StoreM ρ Ref) (.primitive id) := by
  refine Builds.fixed [.count id] (by simp) rfl ?_
  intro k c v hk hv
  rcases k with _ | k <;> simp [Node.cells] at hk hv
  subst hk hv
  rfl

theorem builds_boxed {d : Datum} {x : Literal} (h : World.Means ⟨fun _ => none, texts⟩ d x) :
    Builds texts (Boxed.new d : StoreM ρ Ref) (.boxed x) := by
  refine Builds.fixed [.datum d] (by simp) rfl ?_
  intro k c v hk hv
  rcases k with _ | k <;> simp [Node.cells] at hk hv
  subst hk hv
  exact ⟨d, rfl, h⟩

theorem builds_callFrame (returnAddress : Nat) :
    Builds texts (CallFrame.new returnAddress : StoreM ρ Ref) (.callFrame none none returnAddress) := by
  refine Builds.fixed [.nil, .nil, .count returnAddress] (by simp) rfl ?_
  intro k c v hk hv
  rcases k with _ | _ | _ | k <;> simp [Node.cells, Node.linkCell] at hk hv <;> subst hk hv <;> rfl

theorem builds_blockFrame : Builds texts (BlockFrame.new : StoreM ρ Ref) (.blockFrame none) := by
  refine Builds.fixed [.nil] (by simp) rfl ?_
  intro k c v hk hv
  rcases k with _ | k <;> simp [Node.cells, Node.linkCell] at hk hv
  subst hk hv
  rfl

omit [RootSet ρ] in
/-- A size is known before there is a node. -/
theorem Store.nodeSize_bind {α : Type} (payload : Nat) (f : Nat → StoreM ρ α) (s : Store ρ) :
    (Store.nodeSize payload >>= f) s =
      if s.heap.Oversized (headerSize + payload) then .error (.overflow .nodeSize) s
      else f (headerSize + payload) s := by
  simp only [Store.nodeSize, Actions.bind_apply, Actions.get_apply]
  by_cases hover : s.heap.Oversized (headerSize + payload)
  · rw [if_pos hover, if_pos hover]
    rfl
  · rw [if_neg hover, if_neg hover]
    rfl

theorem builds_environment (slots : Nat) :
    Builds texts (Environment.new slots : StoreM ρ Ref)
      (.environment (List.replicate slots none) none) := by
  have hsize : (Node.environment (List.replicate slots none) none).size = headerSize + (slots + 1) := by
    simp [Node.size, Node.cells]
  refine Builds.initialise (List.replicate slots .unassigned ++ [.nil]) (fun s => ?_)
    (by simp [Node.cells]) ?_
  · rw [Environment.new, Store.nodeSize_bind, hsize]
    simp [Node.kind, Node.children]
  · intro k c v hk hv
    simp only [Node.cells, List.map_replicate, Node.slotCell, Node.linkCell] at hk
    rcases Nat.lt_trichotomy k slots with hlt | rfl | hgt
    · rw [List.getElem?_append_left (by simpa using hlt), List.getElem?_replicate, if_pos hlt] at hk hv
      cases hk
      cases hv
      rfl
    · simp at hk hv
      subst hk hv
      rfl
    · have hlen := (List.getElem?_eq_some_iff.mp hk).1
      simp at hlen
      omega

/-- The places are empty as they are, and only the top is written. -/
theorem Adds.ofTop {h : Heap} {capacity : Nat}
    (hfit : h.free + (Node.operandStack [] capacity).size ≤ h.words.size) :
    Adds texts h ((h.blank .operandStack (Node.operandStack [] capacity).size capacity).setWord
      (h.free + (headerSize + capacity)) (.count 0)) (.operandStack [] capacity) := by
  have hsize : (Node.operandStack [] capacity).size = headerSize + (capacity + 1) := by
    simp [Node.size, Node.cells]
  obtain ⟨hb₁, hb₂, hb₃, hb₄, hb₅⟩ := @Heap.blank_fields h .operandStack
    (Node.operandStack [] capacity).size capacity
  refine Adds.ofBlank hfit (by simp [hb₁]) (by simp [hb₂]) (by simp [hb₃]) (by simp [hb₄])
    (by simp [hb₅]) (by simp) ?_ ?_
  · intro j hj
    rw [Heap.word_setWord_ne _ _ (by omega)]
    simp [Node.kind, Node.children]
  · intro k c hk
    simp only [Node.cells, List.reverse_nil, List.map_nil, List.nil_append, List.length_nil] at hk
    by_cases hlast : k = capacity
    · subst hlast
      rw [Nat.add_assoc, Heap.word_setWord_self _ _ _ (by rw [hb₁]; omega)]
      simp at hk
      subst hk
      rfl
    · have hlt : k < capacity := by
        have := (List.getElem?_eq_some_iff.mp hk).1
        simp at this
        omega
      rw [List.getElem?_append_left (by simpa using hlt), List.getElem?_replicate, if_pos hlt] at hk
      obtain rfl : Node.Cell.empty = c := by simpa using hk
      rw [Heap.word_setWord_ne _ _ (by omega), Heap.word_blank_behind hfit (by omega)]
      rfl

theorem builds_operandStack (capacity : Nat) :
    Builds texts (OperandStack.new capacity : StoreM ρ Ref) (.operandStack [] capacity) := by
  have hsize : (Node.operandStack [] capacity).size = headerSize + (capacity + 1) := by
    simp [Node.size, Node.cells]
  refine .ofBlank (fun stack => Heap.write stack (headerSize + capacity) (.count 0)) (fun s => ?_) ?_
  · rw [OperandStack.new, Store.nodeSize_bind, hsize]
    simp [Node.kind, Node.children]
  · intro h hbase hfit
    have hleads : (h.blank .operandStack (Node.operandStack [] capacity).size capacity).Leads
        ⟨h.free, h.epoch⟩ .operandStack (Node.operandStack [] capacity).size capacity :=
      Heap.leads_blank hbase (Node.header_le_size _) hfit
    have hrun := hleads.write_eq (Nat.le_add_right headerSize capacity) (by rw [hsize]; omega) (.count 0)
    refine ⟨_, ?_, Adds.ofTop hfit⟩
    simpa only [Node.kind, Node.children, List.length_nil, Nat.zero_add] using hrun

end Builds

/-! ## Allocation -/

/-- To make a node is to put one more at the end of the list, under the limit of one half of the
memory. Where it fails, nothing is lost. -/
theorem Builds.spec {ρ : Type} [RootSet ρ] [LawfulRootSet ρ] {w : World} {h : Heap}
    {nodes : List Node} {roots : ρ} {locs : List Loc} {make : StoreM ρ Ref} {n : Node}
    (hb : Builds w.texts make n) (hr : Represents w h nodes)
    (hroots : Represents.Rooted w (RootSet.toList roots) locs) :
    match allocate (some h.semispace) locs n nodes with
    | .ok nodes' => ∃ w' h' refs r, make ⟨h, roots⟩ = .ok r ⟨h', RootSet.replace roots refs⟩ ∧
        Kept w h w' h' refs locs nodes' ∧ w'.place nodes.length = some r
    | .error e => ∃ w' h' refs, make ⟨h, roots⟩ = .error e ⟨h', RootSet.replace roots refs⟩ ∧
        Kept w h w' h' refs locs nodes := by
  obtain ⟨w', h', refs, hkept, hres⟩ := Store.reserve_spec hr hroots n.size
  have hmake := hb ⟨h, roots⟩
  unfold allocate
  by_cases hshort : h.semispace < live nodes locs + n.size
  · simp only [hshort, if_true]
    by_cases hover : h.Oversized n.size
    · -- nothing has been done yet
      rw [if_pos hover] at hmake
      refine ⟨w, h, RootSet.toList roots, ?_, hr, hroots, rfl, rfl, .refl w h⟩
      rw [LawfulRootSet.replace_toList, hmake, shortage, if_pos hover.1, HeapError.tooLarge,
        if_pos hover.2]
    · have hshortage : shortage h.semispace (live nodes locs) n.size =
          .outOfMemory n.size (h.semispace - live nodes locs) := by
        unfold shortage HeapError.tooLarge
        split
        · rw [if_neg fun hle => hover ⟨‹_›, hle⟩]
        · rfl
      rw [if_pos hshort] at hres
      rw [if_neg hover, hres] at hmake
      rw [hshortage]
      exact ⟨w', h', refs, hmake, hkept⟩
  · have hfits : ¬ h.Oversized n.size := fun hover => hshort (Nat.lt_of_lt_of_le hover.1 (Nat.le_add_left _ _))
    rw [if_neg hshort] at hres
    rw [if_neg hfits, hres.1] at hmake
    obtain ⟨h'', hrun, hadds⟩ := hmake hkept.rep.halved.base_le (hres.2.trans hkept.rep.halved.half_le)
    simp only [hshort, if_false]
    have hrep := hkept.rep.extended (hkept.texts ▸ hadds) hres.2
    refine ⟨_, h'', refs, _, hrun, ⟨hrep, ?_, hkept.texts, ?_, ?_⟩, by simp [World.extended]⟩
    · exact hkept.rooted.imp fun _ _ hl => hkept.rep.extended_place hl
    · rw [hadds.semispace, hkept.semispace]
    · exact hkept.trail.trans (hkept.rep.trail_extended (hkept.texts ▸ hadds))

end ClosureMachine
