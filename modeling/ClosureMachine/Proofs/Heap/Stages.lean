import ClosureMachine.Proofs.Heap.Tidy

/-!
# A collection, step by step

`Store.collect` says what a collection comes to in the end. Here it is taken apart: `Work` is a collection that is
under way, and `Work.next` carries out its next step, which is to visit a root, to look whether the cursor has caught
up, or to put one child right. Beside memory there is an account of which references were met, which nodes were
copied and how many rounds of the loop have begun. Nothing that is done depends on the account
(`Work.start_ends`).

Each stage finds what the steps before it have left, in terms of the heap before the collection (`Work.Proper`), and
every step passes this on. The loop ends because a node is copied once and a round is spent on each copy.
-/

set_option autoImplicit false

namespace ClosureMachine.Heap

/-! ## The steps -/

/-- What a collection turns to next. -/
inductive Stage where
  /-- The roots that have not been visited. -/
  | roots (waiting : List Ref)
  /-- The head of the loop, where the cursor is compared with the end. -/
  | loop (cursor : Nat)
  /-- A round of the loop: `count` children from `start` on, and behind the node the next one. -/
  | children (start count next : Nat)
  /-- The cursor has caught up. -/
  | finished (cursor : Nat)
  | failed (e : HeapError)

/-- A collection under way, and an account of it. -/
structure Work where
  stage : Stage
  /-- Memory, and the roots so far. -/
  pass : RootPass
  /-- The references met so far, in order. -/
  met : List Ref
  /-- The nodes copied so far, in order, by their old positions. -/
  copied : List Nat
  /-- The rounds of the loop that have begun. -/
  rounds : Nat

/-- The node that is copied when a reference is followed: the one that it leads to, if it is still there. -/
def copiedBy (old : FromSpace) (r : Ref) (h : Heap) : List Nat :=
  match evacuate old r h with
  | .error _ _ => []
  | .ok _ _ =>
    match h.word r.index with
    | .tag _ => [r.index]
    | _ => []

namespace Work

/-- The beginning: the halves have changed roles. -/
def start (h : Heap) (roots : List Ref) : Work := ⟨.roots roots, ⟨h.flip, #[], none⟩, [], [], 0⟩

/-- The account of a reference that is met. -/
def meet (old : FromSpace) (r : Ref) (w : Work) : Work :=
  { w with met := w.met ++ [r], copied := w.copied ++ copiedBy old r w.pass.heap }

/-- The account of a word that may be a reference. -/
def meetAt (old : FromSpace) (i : Nat) (w : Work) : Work :=
  match w.pass.heap.word i with
  | .ref r => w.meet old r
  | _ => w

/-- The step that a stage takes. -/
def next (old : FromSpace) (w : Work) : Work :=
  match w.stage with
  | .roots (r :: waiting) => { w.meet old r with stage := .roots waiting, pass := w.pass.visit old r }
  | .roots [] =>
    match w.pass.failure with
    | some e => { w with stage := .failed e }
    | none => { w with stage := .loop w.pass.heap.base }
  | .loop cursor =>
    if cursor < w.pass.heap.free then
      match countAt (cursor + 1) w.pass.heap, countAt (cursor + 2) w.pass.heap with
      | .ok size, .ok children =>
        { w with
          stage := .children (cursor + headerSize) children (cursor + size)
          rounds := w.rounds + 1 }
      | .error e, _ => { w with stage := .failed e }
      | _, .error e => { w with stage := .failed e }
    else { w with stage := .finished cursor }
  | .children start (count + 1) next =>
    match stepChild old start w.pass.heap with
    | .ok _ h =>
      { w.meetAt old start with
        stage := .children (start + 1) count next
        pass := { w.pass with heap := h } }
    | .error e h => { w.meetAt old start with stage := .failed e, pass := { w.pass with heap := h } }
  | .children _ 0 next => { w with stage := .loop next }
  | .finished _ | .failed _ => w

/-! ## Where the steps lead -/

/-- Some number of steps leads from `w` to `w'`. -/
def Leads (old : FromSpace) (w w' : Work) : Prop := ∃ n, (next old)^[n] w = w'

section Leads

variable {old : FromSpace} {w w' w'' : Work}

theorem Leads.refl : Leads old w w := ⟨0, rfl⟩

theorem Leads.step (h : Leads old (w.next old) w') : Leads old w w' := by
  obtain ⟨n, rfl⟩ := h
  exact ⟨n + 1, rfl⟩

theorem Leads.trans (h : Leads old w w') (h' : Leads old w' w'') : Leads old w w'' := by
  obtain ⟨n, rfl⟩ := h
  obtain ⟨m, rfl⟩ := h'
  exact ⟨m + n, Function.iterate_add_apply _ _ _ _⟩

@[simp] theorem meetAt_rounds (i : Nat) : (w.meetAt old i).rounds = w.rounds := by
  unfold meetAt
  split <;> rfl

/-- All roots are visited, one after the other. -/
theorem leads_roots (old : FromSpace) (waiting : List Ref) : ∀ {w : Work}, w.stage = .roots waiting →
    ∃ w', Leads old w w' ∧ w'.stage = .roots [] ∧ w'.pass = waiting.foldl (RootPass.visit old) w.pass := by
  induction waiting with
  | nil => exact fun {w} hw => ⟨w, .refl, hw, rfl⟩
  | cons r rest ih =>
    intro w hw
    have hnext : w.next old = { w.meet old r with stage := .roots rest, pass := w.pass.visit old r } := by
      rw [next, hw]
    obtain ⟨w', hleads, hstage, hpass⟩ := ih (w := w.next old) (by rw [hnext])
    refine ⟨w', hleads.step, hstage, ?_⟩
    rw [hpass, hnext, List.foldl_cons]

/-- The children of a node are put right, one after the other. -/
theorem leads_children (old : FromSpace) (next count : Nat) : ∀ {w : Work} {start : Nat},
    w.stage = .children start count next →
    ∃ w', Leads old w w' ∧ w'.rounds = w.rounds ∧
      match scanChildren old start count w.pass.heap with
      | .ok _ h => w'.stage = .loop next ∧ w'.pass = { w.pass with heap := h }
      | .error e h => w'.stage = .failed e ∧ w'.pass = { w.pass with heap := h } := by
  induction count with
  | zero =>
    intro w start hw
    have hnext : w.next old = { w with stage := .loop next } := by rw [Work.next, hw]
    refine ⟨w.next old, Leads.refl.step, by rw [hnext], by rw [hnext], by rw [hnext]⟩
  | succ count ih =>
    intro w start hw
    rw [scanChildren_succ, Actions.bind_apply]
    cases hrun : stepChild old start w.pass.heap with
    | error e h =>
      have hnext : w.next old =
          { w.meetAt old start with stage := .failed e, pass := { w.pass with heap := h } } := by
        simp only [Work.next, hw, hrun]
      refine ⟨w.next old, Leads.refl.step, by simp [hnext], by rw [hnext], by rw [hnext]⟩
    | ok _ h =>
      have hnext : w.next old = { w.meetAt old start with
          stage := .children (start + 1) count next, pass := { w.pass with heap := h } } := by
        simp only [Work.next, hw, hrun]
      have hstage : (w.next old).stage = .children (start + 1) count next := by rw [hnext]
      obtain ⟨w', hleads, hrounds, hend⟩ := ih hstage
      refine ⟨w', hleads.step, by simpa [hnext] using hrounds, ?_⟩
      rw [hnext] at hend
      exact hend

/-- The loop goes on until the cursor has caught up, or a child leads nowhere, or there were as many rounds as are
asked for. -/
theorem leads_loop (old : FromSpace) (rounds : Nat) : ∀ {w : Work} {cursor : Nat}, w.stage = .loop cursor →
    ∃ w', Leads old w w' ∧
      match scan old cursor rounds w.pass.heap with
      | .ok _ h => w'.pass = { w.pass with heap := h } ∧
          ((∃ cursor', w'.stage = .finished cursor') ∨
            ∃ cursor', w'.stage = .loop cursor' ∧ w'.rounds = w.rounds + rounds)
      | .error e h => w'.stage = .failed e ∧ w'.pass = { w.pass with heap := h } := by
  induction rounds with
  | zero => exact fun {w cursor} hw => ⟨w, .refl, rfl, .inr ⟨cursor, hw, rfl⟩⟩
  | succ rounds ih =>
    intro w cursor hw
    by_cases hlt : cursor < w.pass.heap.free
    · cases hsize : countAt (cursor + 1) w.pass.heap with
      | error e =>
        have hnext : w.next old = { w with stage := .failed e } := by simp [next, hw, hlt, hsize]
        refine ⟨w.next old, Leads.refl.step, ?_⟩
        simp [scan, hlt, hsize, hnext]
      | ok size =>
        cases hchildren : countAt (cursor + 2) w.pass.heap with
        | error e =>
          have hnext : w.next old = { w with stage := .failed e } := by
            simp [next, hw, hlt, hsize, hchildren]
          refine ⟨w.next old, Leads.refl.step, ?_⟩
          simp [scan, hlt, hsize, hchildren, hnext]
        | ok children =>
          have hnext : w.next old = { w with
              stage := .children (cursor + headerSize) children (cursor + size)
              rounds := w.rounds + 1 } := by
            simp [next, hw, hlt, hsize, hchildren]
          have hstage : (w.next old).stage = .children (cursor + headerSize) children (cursor + size) := by
            rw [hnext]
          -- one round, and by induction the rounds that are left after it
          obtain ⟨w₁, hfirst, hrounds, hround⟩ := leads_children old (cursor + size) children hstage
          rw [scan_succ rounds hlt hsize hchildren, Actions.bind_apply]
          rw [hnext] at hround hrounds
          dsimp only at hround hrounds
          cases hrun : scanChildren old (cursor + headerSize) children w.pass.heap with
          | error e h =>
            rw [hrun] at hround
            exact ⟨w₁, hfirst.step, hround⟩
          | ok _ h =>
            rw [hrun] at hround
            obtain ⟨w₂, hrest, hend⟩ := ih hround.1
            refine ⟨w₂, (hfirst.step).trans hrest, ?_⟩
            rw [hround.2, hrounds] at hend
            rw [Nat.add_right_comm] at hend
            exact hend
    · have hnext : w.next old = { w with stage := .finished cursor } := by simp [next, hw, hlt]
      refine ⟨w.next old, Leads.refl.step, ?_⟩
      simp [scan, hlt, hnext]

end Leads

end Work

/-! ## What each stage finds -/

/-- The first of the references that leads nowhere. -/
def FirstStray (h : Heap) (met : List Ref) (r : Ref) : Prop :=
  ∃ before after, met = before ++ r :: after ∧ (∀ r' ∈ before, h.Valid r') ∧ ¬ h.Valid r

theorem FirstStray.append {h : Heap} {met : List Ref} {r : Ref} (hr : h.FirstStray met r) (more : List Ref) :
    h.FirstStray (met ++ more) r := by
  obtain ⟨before, after, rfl, hbefore, hstray⟩ := hr
  exact ⟨before, after ++ more, by simp, hbefore, hstray⟩

theorem FirstStray.last {h : Heap} {met : List Ref} {r : Ref} (hmet : ∀ r' ∈ met, h.Valid r')
    (hr : ¬ h.Valid r) : h.FirstStray (met ++ [r]) r :=
  ⟨met, [], rfl, hmet, hr⟩

namespace Work

/-- Memory is that of a collection of `h` that has copied the nodes of the account and whose cursor is here. -/
def Copies (h : Heap) (w : Work) (cursor : Nat) : Prop :=
  Copying h h.Header w.pass.heap w.copied cursor

/-- Some of the roots have been visited. -/
structure AtRoots (h : Heap) (roots : List Ref) (w : Work) (waiting : List Ref) : Prop where
  copies : w.Copies h h.flip.base
  met : roots = w.met ++ waiting
  rounds : w.rounds = 0
  quiet : w.pass.failure = none → ∀ r ∈ w.met, h.Valid r
  noticed : ∀ e, w.pass.failure = some e → ∃ r, h.FirstStray w.met r ∧ e = .staleReference r.index

/-- There was one round for each node before the cursor. -/
structure AtLoop (h : Heap) (w : Work) (cursor : Nat) : Prop where
  copies : w.Copies h cursor
  valid : ∀ r ∈ w.met, h.Valid r
  passed : ∃ before rest, w.copied = before ++ rest ∧ before.length = w.rounds ∧
    cursor = h.flip.base + total h.sizeAt before

/-- The cursor is among the children of a node, for which there is a round. -/
structure InRound (h : Heap) (w : Work) (start count next : Nat) : Prop where
  copies : w.Copies h start
  valid : ∀ r ∈ w.met, h.Valid r
  passed : ∃ before i rest k, w.copied = before ++ i :: rest ∧ before.length + 1 = w.rounds ∧
    start = h.flip.base + total h.sizeAt before + headerSize + k ∧ k + count = h.childrenAt i ∧
    next = h.flip.base + total h.sizeAt (before ++ [i])

/-- A reference that leads nowhere was met: one of the roots, or else the child that was looked at last. -/
structure Failed (h : Heap) (roots : List Ref) (w : Work) (e : HeapError) : Prop where
  copies : ∃ cursor, w.Copies h cursor
  stray : ∃ r, h.FirstStray w.met r ∧ e = .staleReference r.index ∧
    (w.rounds = 0 ∧ w.met = roots ∨ 0 < w.rounds ∧ w.met.getLast? = some r)

/-- What is true of a collection of `h` at each of its stages. -/
def Proper (h : Heap) (roots : List Ref) (w : Work) : Prop :=
  match w.stage with
  | .roots waiting => w.AtRoots h roots waiting
  | .loop cursor => w.AtLoop h cursor
  | .children start count next => w.InRound h start count next
  | .finished cursor => w.AtLoop h cursor ∧ cursor = w.pass.heap.free
  | .failed e => w.Failed h roots e

end Work

section

variable {h₀ h : Heap} {order : List Nat} {cursor : Nat} {r : Ref}

/-- A reference to a node is followed, and the account tells whether the node was copied. -/
theorem Copying.follow (hcp : Copying h₀ h₀.Header h order cursor) (ht : h₀.Tidy) (hv : h₀.Valid r) :
    ∃ h', Heap.evacuate h₀.fromSpace r h =
        .ok (h₀.newRef (order ++ copiedBy h₀.fromSpace r h) r.index) h' ∧
      Copying h₀ h₀.Header h' (order ++ copiedBy h₀.fromSpace r h) cursor ∧
      r.index ∈ order ++ copiedBy h₀.fromSpace r h := by
  by_cases hin : r.index ∈ order
  · obtain ⟨hword, hrun⟩ := hcp.evacuate_again ht.halved ht.laid hv hin
    have hnone : copiedBy h₀.fromSpace r h = [] := by simp [copiedBy, hrun, hword]
    refine ⟨h, ?_, ?_, ?_⟩
    · rw [hnone, List.append_nil, hrun]
    · rwa [hnone, List.append_nil]
    · rwa [hnone, List.append_nil]
  · obtain ⟨⟨kind, hword⟩, hrun⟩ := hcp.evacuate_first ht.halved ht.laid hv hin
    have hone : copiedBy h₀.fromSpace r h = [r.index] := by simp [copiedBy, hrun, hword]
    rw [hone]
    exact ⟨_, hrun, hcp.move ht.halved ht.laid hv.2 hin, by simp⟩

/-- A reference that leads nowhere is noticed, and nothing happens. -/
theorem Copying.notice (hcp : Copying h₀ h₀.Header h order cursor) (ht : h₀.Tidy) (hv : ¬ h₀.Valid r) :
    Heap.evacuate h₀.fromSpace r h = .error (.staleReference r.index) h ∧
      copiedBy h₀.fromSpace r h = [] := by
  have hrun := (ht.rejected (fun i (hi : h₀.Header i) => hi) hv).2 hcp
  exact ⟨hrun, by simp [copiedBy, hrun]⟩

end

namespace Work

variable {h : Heap} {roots : List Ref} {w : Work}

theorem proper_start : (start h roots).Proper h roots where
  copies := Copying.start
  met := rfl
  rounds := rfl
  quiet := by simp [start]
  noticed := by simp [start]

theorem AtRoots.visit {r : Ref} {waiting : List Ref} (hw : w.AtRoots h roots (r :: waiting)) (ht : h.Tidy) :
    AtRoots h roots { w.meet h.fromSpace r with stage := .roots waiting, pass := w.pass.visit h.fromSpace r }
      waiting := by
  have hmet : roots = (w.met ++ [r]) ++ waiting := by simpa using hw.met
  by_cases hv : h.Valid r
  · obtain ⟨h', hrun, hcp, -⟩ := Copying.follow hw.copies ht hv
    have hpass : w.pass.visit h.fromSpace r =
        ⟨h', w.pass.moved.push (h.newRef (w.copied ++ copiedBy h.fromSpace r w.pass.heap) r.index),
          w.pass.failure⟩ := by
      rw [RootPass.visit, hrun]
    refine ⟨?_, hmet, hw.rounds, ?_, ?_⟩
    · rw [Copies, hpass]
      exact hcp
    · intro hnone r' hr'
      rw [hpass] at hnone
      rcases List.mem_append.mp hr' with hm | hm
      · exact hw.quiet hnone r' hm
      · exact List.mem_singleton.mp hm ▸ hv
    · intro e he
      rw [hpass] at he
      obtain ⟨r', hfirst, rfl⟩ := hw.noticed e he
      exact ⟨r', hfirst.append [r], rfl⟩
  · -- the visit goes on with the other roots, and the first failure is the one that is kept
    obtain ⟨hrun, hnone⟩ := Copying.notice hw.copies ht hv
    have hpass : w.pass.visit h.fromSpace r =
        ⟨w.pass.heap, w.pass.moved.push r, w.pass.failure.or (some (.staleReference r.index))⟩ := by
      rw [RootPass.visit, hrun]
      rfl
    refine ⟨?_, hmet, hw.rounds, ?_, ?_⟩
    · simp only [Copies, hpass, meet, hnone, List.append_nil]
      exact hw.copies
    · intro hquiet
      simp [hpass] at hquiet
    · intro e he
      rw [hpass] at he
      cases hfail : w.pass.failure with
      | some e' =>
        obtain rfl : e' = e := by simpa [hfail] using he
        obtain ⟨r', hfirst, rfl⟩ := hw.noticed e' hfail
        exact ⟨r', hfirst.append [r], rfl⟩
      | none =>
        obtain rfl : HeapError.staleReference r.index = e := by simpa [hfail] using he
        exact ⟨r, .last (hw.quiet hfail) hv, rfl⟩

/-- The cursor has not caught up, so there is a node under it, and its header can be read. -/
theorem AtLoop.opens {cursor : Nat} (hw : w.AtLoop h cursor) (ht : h.Tidy)
    (hlt : cursor < w.pass.heap.free) :
    ∃ before i rest, w.copied = before ++ i :: rest ∧ before.length = w.rounds ∧
      cursor = h.flip.base + total h.sizeAt before ∧
      countAt (cursor + 1) w.pass.heap = .ok (h.sizeAt i) ∧
      countAt (cursor + 2) w.pass.heap = .ok (h.childrenAt i) := by
  obtain ⟨before, rest, hcopied, hlen, rfl⟩ := hw.passed
  have hcp := hw.copies
  rw [Copies, hcopied] at hcp
  cases rest with
  | nil =>
    rw [hcp.free, List.append_nil] at hlt
    exact absurd hlt (Nat.lt_irrefl _)
  | cons i rest =>
    obtain ⟨-, hsize, hchildren⟩ := hcp.counts_ahead ht.halved ht.laid
    exact ⟨before, i, rest, hcopied, hlen, rfl, hsize, hchildren⟩

/-- Where the cursor has caught up there is no node left without a round. -/
theorem AtLoop.rounds_eq (hw : w.AtLoop h w.pass.heap.free) (ht : h.Tidy) :
    w.rounds = w.copied.length := by
  obtain ⟨before, rest, hcopied, hlen, hend⟩ := hw.passed
  have hcp := hw.copies
  rw [Copies, hcopied] at hcp
  cases rest with
  | nil => rw [hcopied, List.append_nil, hlen]
  | cons i rest =>
    -- a node without a round would have its words between the cursor and the end
    have hpos := (ht.node (hcp.among i (by simp))).size_pos
    unfold headerSize at hpos
    rw [hcp.free, total_append, total] at hend
    omega

theorem InRound.stepChild {start count next : Nat} (hw : w.InRound h start (count + 1) next) (ht : h.Tidy)
    (roots : List Ref) :
    match Heap.stepChild h.fromSpace start w.pass.heap with
    | .ok _ h' => InRound h { w.meetAt h.fromSpace start with
        stage := .children (start + 1) count next
        pass := { w.pass with heap := h' } } (start + 1) count next
    | .error e h' => Failed h roots { w.meetAt h.fromSpace start with
        stage := .failed e
        pass := { w.pass with heap := h' } } e := by
  obtain ⟨before, i, rest, k, hcopied, hlen, rfl, hcount, hnext⟩ := hw.passed
  have hcp : Copying h h.Header w.pass.heap w.copied _ := hw.copies
  have hi : i ∈ w.copied := by simp [hcopied]
  have hplace : (h.newRef w.copied i).index = h.flip.base + total h.sizeAt before := by
    have hn := hcp.nodup
    rw [hcopied] at hn ⊢
    exact index_newRef hn
  have hcur : (h.newRef w.copied i).index + headerSize + k =
      h.flip.base + total h.sizeAt before + headerSize + k := by rw [hplace]
  have hword := hcp.word_child hi (by omega) hcur ht.laid
  have hlook := hcp.look_child hi (by omega) hcur ht.halved ht.laid
  -- what is copied on the way goes behind `rest`, so the node that the round is for stays where it is
  have hon : ∀ more, ∃ before' i' rest' k', w.copied ++ more = before' ++ i' :: rest' ∧
      before'.length + 1 = w.rounds ∧
      h.flip.base + total h.sizeAt before + headerSize + k + 1 =
        h.flip.base + total h.sizeAt before' + headerSize + k' ∧
      k' + count = h.childrenAt i' ∧ next = h.flip.base + total h.sizeAt (before' ++ [i']) :=
    fun more => ⟨before, i, rest ++ more, k + 1, by simp [hcopied], hlen, by omega, by omega, hnext⟩
  rw [Heap.stepChild]
  by_cases href : ∃ r, h.word (i + headerSize + k) = .ref r
  · obtain ⟨r, hr⟩ := href
    have hmeet : w.meetAt h.fromSpace (h.flip.base + total h.sizeAt before + headerSize + k) =
        w.meet h.fromSpace r := by
      rw [meetAt, hword, hr]
    by_cases hv : h.Valid r
    · obtain ⟨h', hrun, hcp', hmem⟩ := hcp.follow ht hv
      have hi' := List.mem_append_left (copiedBy h.fromSpace r w.pass.heap) hi
      have hcur' : (h.newRef (w.copied ++ copiedBy h.fromSpace r w.pass.heap) i).index + headerSize + k =
          h.flip.base + total h.sizeAt before + headerSize + k := by rw [newRef_append _ hi, hcur]
      have hturn := hcp'.turn_ref hi' (by omega) hcur' ht.halved ht.laid hr ⟨hv.1, hmem⟩
      have hput := put_eq (hcp'.child_inside hi' (by omega) hcur' ht.halved ht.laid)
      simp only [Actions.bind_apply, Actions.lift_look_heap, hlook, hr, hrun, hput, hmeet]
      refine ⟨hturn, ?_, hon _⟩
      intro r' hr'
      rcases List.mem_append.mp hr' with hm | hm
      · exact hw.valid r' hm
      · exact List.mem_singleton.mp hm ▸ hv
    · obtain ⟨hrun, hnone⟩ := hcp.notice ht hv
      simp only [Actions.bind_apply, Actions.lift_look_heap, hlook, hr, hrun, hmeet]
      refine ⟨⟨h.flip.base + total h.sizeAt before + headerSize + k, ?_⟩, r, .last hw.valid hv, rfl,
        .inr ⟨?_, by simp [meet]⟩⟩
      · simp only [Copies, meet, hnone, List.append_nil]
        exact hcp
      · simp only [meet]
        omega
  · have hplain : ∀ r, h.word (i + headerSize + k) ≠ .ref r := fun r hr => href ⟨r, hr⟩
    have hmeet : w.meetAt h.fromSpace (h.flip.base + total h.sizeAt before + headerSize + k) = w := by
      rw [meetAt, hword]
      split
      · rename_i r hr
        exact absurd hr (hplain r)
      · rfl
    have hturn := hcp.turn_plain hi (by omega) hcur ht.halved ht.laid hplain
    have hnext' := hon []
    rw [List.append_nil] at hnext'
    cases hw' : h.word (i + headerSize + k) with
    | ref r => exact absurd hw' (hplain r)
    | _ =>
      simp only [Actions.bind_apply, Actions.lift_look_heap, hlook, hw', Actions.pure_apply, hmeet]
      exact ⟨hturn, hw.valid, hnext'⟩

/-- The next step passes on what it has found. -/
theorem Proper.next (hw : w.Proper h roots) (ht : h.Tidy) : (w.next h.fromSpace).Proper h roots := by
  cases hstage : w.stage with
  | roots waiting =>
    rw [Proper, hstage] at hw
    cases waiting with
    | cons r waiting =>
      simp only [Work.next, hstage]
      exact hw.visit ht
    | nil =>
      have hmet : roots = w.met := by simpa using hw.met
      cases hfail : w.pass.failure with
      | some e =>
        obtain ⟨r, hfirst, rfl⟩ := hw.noticed e hfail
        simp only [Work.next, hstage, hfail]
        exact ⟨⟨_, hw.copies⟩, r, hfirst, rfl, .inl ⟨hw.rounds, hmet.symm⟩⟩
      | none =>
        simp only [Work.next, hstage, hfail]
        refine ⟨?_, hw.quiet hfail, [], w.copied, rfl, hw.rounds.symm, hw.copies.base⟩
        have hcp := hw.copies
        rwa [Copies, ← hcp.base] at hcp
  | loop cursor =>
    rw [Proper, hstage] at hw
    by_cases hlt : cursor < w.pass.heap.free
    · obtain ⟨before, i, rest, hcopied, hlen, rfl, hsize, hchildren⟩ := hw.opens ht hlt
      simp only [Work.next, hstage, if_pos hlt, hsize, hchildren]
      refine ⟨?_, hw.valid, before, i, rest, 0, hcopied, by simp [hlen], rfl, by simp, ?_⟩
      · have hcp := hw.copies
        rw [Copies, hcopied] at hcp
        rw [Copies]
        dsimp only
        rw [hcopied]
        exact hcp.enter ht.halved ht.laid
      · rw [total_append, total_singleton, Nat.add_assoc]
    · have hle := hw.copies.cursor_le
      simp only [Work.next, hstage, if_neg hlt]
      exact ⟨⟨hw.copies, hw.valid, hw.passed⟩, Nat.le_antisymm hle (Nat.not_lt.mp hlt)⟩
  | children start count next =>
    rw [Proper, hstage] at hw
    cases count with
    | zero =>
      obtain ⟨before, i, rest, k, hcopied, hlen, rfl, hcount, rfl⟩ := hw.passed
      obtain rfl : k = h.childrenAt i := by omega
      simp only [Work.next, hstage]
      refine ⟨?_, hw.valid, before ++ [i], rest, by simp [hcopied], by simp [hlen], rfl⟩
      have hcp := hw.copies
      rw [Copies, hcopied] at hcp
      rw [Copies]
      dsimp only
      rw [hcopied]
      exact hcp.leave ht.halved ht.laid
    | succ count =>
      have hstep := hw.stepChild ht roots
      cases hrun : Heap.stepChild h.fromSpace start w.pass.heap with
      | ok _ h' =>
        rw [hrun] at hstep
        simp only [Work.next, hstage, hrun]
        exact hstep
      | error e h' =>
        rw [hrun] at hstep
        simp only [Work.next, hstage, hrun]
        exact hstep
  | finished cursor => simpa only [Work.next, hstage] using hw
  | failed e => simpa only [Work.next, hstage] using hw

theorem proper_iterate (ht : h.Tidy) (n : Nat) :
    ((next h.fromSpace)^[n] (start h roots)).Proper h roots := by
  induction n with
  | zero => exact proper_start
  | succ n ih =>
    rw [Function.iterate_succ_apply']
    exact ih.next ht

theorem Leads.proper (hl : Leads h.fromSpace (start h roots) w) (ht : h.Tidy) : w.Proper h roots := by
  obtain ⟨n, rfl⟩ := hl
  exact proper_iterate ht n

/-! ## The end -/

/-- The loop has no more rounds than a half has words, unless it has none. -/
theorem AtLoop.caught_up {cursor : Nat} (hw : w.AtLoop h cursor) (ht : h.Tidy)
    (hrounds : w.rounds = h.words.size) : ¬ cursor < w.pass.heap.free := by
  obtain ⟨before, rest, hcopied, hlen, rfl⟩ := hw.passed
  have hcp := hw.copies
  rw [Copies, hcopied] at hcp
  have hsmall : headerSize * before.length ≤ total h.sizeAt before :=
    mul_length_le_total fun i hi => (ht.node (hcp.among i (List.mem_append_left rest hi))).size_pos
  have htotal := ht.laid.total_le hcp.nodup hcp.among
  have hle := ht.halved.free_le
  have hsize := ht.halved.size
  rw [hcp.free]
  rw [total_append] at htotal ⊢
  rw [hlen, hrounds, hsize] at hsmall
  unfold headerSize at hsmall
  omega

/-- The steps come to an end, and what is there then is what the collection comes to. -/
theorem start_ends {ρ : Type} [RootSet ρ] (ht : h.Tidy) (roots : ρ) :
    ∃ w, Leads h.fromSpace (start h (RootSet.toList roots)) w ∧
      ((∃ cursor, w.stage = .finished cursor ∧ Store.collect ⟨h, roots⟩ =
          .ok () ⟨w.pass.heap.settle h.fromSpace, RootSet.replace roots w.pass.moved.toList⟩) ∨
        ∃ e, w.stage = .failed e ∧ Store.collect ⟨h, roots⟩ =
          .error e ⟨w.pass.heap, RootSet.replace roots w.pass.moved.toList⟩) := by
  have hstage : (start h (RootSet.toList roots)).stage = .roots (RootSet.toList roots) := rfl
  obtain ⟨w₁, hroots, hstage₁, hpass₁⟩ := leads_roots h.fromSpace (RootSet.toList roots) hstage
  have hproper₁ := hroots.proper ht
  rw [Proper, hstage₁] at hproper₁
  unfold Store.collect
  rw [start] at hpass₁
  simp only [← hpass₁]
  cases hfail : w₁.pass.failure with
  | some e =>
    have hnext : w₁.next h.fromSpace = { w₁ with stage := .failed e } := by
      simp only [next, hstage₁, hfail]
    refine ⟨w₁.next h.fromSpace, hroots.trans Leads.refl.step, .inr ⟨e, ?_, ?_⟩⟩ <;> rw [hnext]
  | none =>
    have hnext : w₁.next h.fromSpace = { w₁ with stage := .loop w₁.pass.heap.base } := by
      simp only [next, hstage₁, hfail]
    have hloopStage : (w₁.next h.fromSpace).stage = .loop w₁.pass.heap.base := by rw [hnext]
    obtain ⟨w₂, hloop, hend⟩ := leads_loop h.fromSpace w₁.pass.heap.words.size hloopStage
    have hleads := hroots.trans hloop.step
    rw [hnext] at hend
    dsimp only at hend ⊢
    cases hrun : scan h.fromSpace w₁.pass.heap.base w₁.pass.heap.words.size w₁.pass.heap with
    | error e h' =>
      rw [hrun] at hend
      exact ⟨w₂, hleads, .inr ⟨e, hend.1, by simp [complete, hrun, hend.2]⟩⟩
    | ok _ h' =>
      rw [hrun] at hend
      have hproper₂ := hleads.proper ht
      have hretire : ∀ {cursor : Nat}, w₂.Copies h cursor → retire h.fromSpace h' = .ok () (h'.settle h.fromSpace) := by
        intro cursor hcp
        rw [Copies, hend.1] at hcp
        exact hcp.retire ht.halved
      obtain ⟨hpass₂, ⟨cursor, hstage₂⟩ | ⟨cursor, hstage₂, hrounds⟩⟩ := hend
      · rw [Proper, hstage₂] at hproper₂
        exact ⟨w₂, hleads, .inl ⟨cursor, hstage₂, by simp [complete, hrun, hretire hproper₂.1.copies, hpass₂]⟩⟩
      · rw [Proper, hstage₂] at hproper₂
        rw [hproper₁.rounds, Nat.zero_add, hproper₁.copies.size] at hrounds
        have hfinished : w₂.next h.fromSpace = { w₂ with stage := .finished cursor } := by
          simp only [next, hstage₂, if_neg (hproper₂.caught_up ht hrounds)]
        refine ⟨w₂.next h.fromSpace, hleads.trans Leads.refl.step, .inl ⟨cursor, ?_, ?_⟩⟩
        · rw [hfinished]
        · simp [complete, hrun, hretire hproper₂.copies, hfinished, hpass₂]

end Work

end ClosureMachine.Heap
