import ClosureMachine.Proofs.Compile.Code
import ClosureMachine.Proofs.Ideal.Instructions
import ClosureMachine.Proofs.Ideal.Later
import ClosureMachine.Proofs.Source.Evaluate

/-!
# Where an evaluation is in memory

An evaluation knows frames and closures by number, the machine by node. A `Layout` says which node is which.
It only grows, and it is all that has to be kept in mind about an evaluation in order to follow it on the
machine: with a layout, values are at nodes (`IsAt`), scopes in sight are chains of environments
(`InSight`), and the memory of the evaluation is the content of the environments (`Layout.Fits`).

Nodes do change while a program runs, but only as `Later` allows. So values remain values and scopes stay in
sight, whatever happens in between.
-/

set_option autoImplicit false

namespace ClosureMachine

open ClosureMachine.Ideal (Node Loc Core HasArgument Later outward)

namespace Source

/-! ## Layouts -/

/-- The node of each frame, with the names of its cells, and the node of each closure. -/
structure Layout where
  frames : List (Loc × List String)
  closures : List Loc

/-- What the first layout says, the second one says too. -/
structure Layout.Grows (w w' : Layout) : Prop where
  frames ⦃f : Nat⦄ ⦃x : Loc × List String⦄ : w.frames[f]? = some x → w'.frames[f]? = some x
  closures ⦃k : Nat⦄ ⦃l : Loc⦄ : w.closures[k]? = some l → w'.closures[k]? = some l

theorem Layout.Grows.refl (w : Layout) : w.Grows w := ⟨fun _ _ h => h, fun _ _ h => h⟩

theorem Layout.Grows.trans {w w' w'' : Layout} (h : w.Grows w') (h' : w'.Grows w'') : w.Grows w'' :=
  ⟨fun _ _ hx => h'.frames (h.frames hx), fun _ _ hx => h'.closures (h.closures hx)⟩

/-- The scopes of the compiler are those frames of the evaluation, and the chain of environments from the
node on. -/
inductive InSight (w : Layout) (nodes : List Node) : Scopes → List Nat → Option Loc → Prop
  | nil : InSight w nodes [] [] none
  | cons {scope : Scope} {scopes : Scopes} {f : Nat} {chain : List Nat} {env : Loc}
      {slots : List (Option Loc)} {outer : Option Loc} :
      w.frames[f]? = some (env, scope.map (·.name)) → nodes[env]? = some (.environment slots outer) →
      InSight w nodes scopes chain outer → InSight w nodes (scope :: scopes) (f :: chain) (some env)

/-- At the address is what a closure with these parameters and this body has to run. -/
def BodyAt (program : Program) (scopes : Scopes) (parameters : List String) (body : Tree)
    (entry : Nat) : Prop :=
  ∃ code, bodyCode ((⟨scopes, true⟩ : Context).enterFunction parameters) entry body = .ok code ∧
    CodeAt program entry (code ++ [.pop, .loadConstant .undefined, .ret])

/-- The value is at the node. -/
inductive IsAt (program : Program) (w : Layout) (nodes : List Node) : Value → Loc → Prop
  | literal {value : Literal} {l : Loc} : nodes[l]? = some (.boxed value) →
      IsAt program w nodes (.literal value) l
  | primitive {p : Primitive} {l : Loc} : nodes[l]? = some (.primitive p.id) →
      IsAt program w nodes (.primitive p) l
  | closure {identity : Nat} {parameters : List String} {body : Tree} {chain : List Nat} {l env : Loc}
      {entry : Nat} {scopes : Scopes} : w.closures[identity]? = some l →
      nodes[l]? = some (.closure (some env) parameters.length entry body.bodyDemand) →
      InSight w nodes scopes chain (some env) → BodyAt program scopes parameters body entry →
      IsAt program w nodes (.closure identity parameters body chain) l

/-- The cell is the slot. -/
inductive CellAt (program : Program) (w : Layout) (nodes : List Node) : Option Value → Option Loc → Prop
  | unassigned : CellAt program w nodes none none
  | assigned {v : Value} {l : Loc} : IsAt program w nodes v l → CellAt program w nodes (some v) (some l)

/-- The frame is at the node, cell by cell. -/
def FrameAt (program : Program) (w : Layout) (nodes : List Node) (frame : Frame)
    (x : Loc × List String) : Prop :=
  frame.map (·.1) = x.2 ∧ ∃ slots outer, nodes[x.1]? = some (.environment slots outer) ∧
    List.Forall₂ (CellAt program w nodes) (frame.map (·.2)) slots

/-- The memory of the evaluation is that of the machine. -/
structure Layout.Fits (w : Layout) (program : Program) (m : Memory) (nodes : List Node)
    (output : Array String) : Prop where
  frames : List.Forall₂ (FrameAt program w nodes) m.frames w.frames
  apart : (w.frames.map (·.1)).Nodup
  closures : w.closures.length = m.closures
  distinct : w.closures.Nodup
  made : ∀ l ∈ w.closures, l < nodes.length
  output : output = m.output

/-! ### What stays as it is -/

section

variable {program : Program} {w w' : Layout} {nodes nodes' : List Node} {written : Prop}
  {used : List Loc}

theorem InSight.later {scopes : Scopes} {chain : List Nat} {env : Option Loc}
    (h : InSight w nodes scopes chain env) (hg : w.Grows w') (hl : Later written used nodes nodes') :
    InSight w' nodes' scopes chain env := by
  induction h with
  | nil => exact .nil
  | cons hf hn _ ih =>
    obtain ⟨slots', -, hn'⟩ := hl.keep_environment hn
    exact .cons (hg.frames hf) hn' ih

theorem InSight.environment {scopes : Scopes} {chain : List Nat} {env : Loc}
    (h : InSight w nodes scopes chain (some env)) :
    ∃ slots outer, nodes[env]? = some (.environment slots outer) := by
  cases h with
  | cons _ hn _ => exact ⟨_, _, hn⟩

theorem IsAt.later {v : Value} {l : Loc} (h : IsAt program w nodes v l) (hg : w.Grows w')
    (hl : Later written used nodes nodes') : IsAt program w' nodes' v l := by
  cases h with
  | literal hn => exact .literal (hl.keep hn (by simp [Node.kind]) (by simp [Node.kind]))
  | primitive hn => exact .primitive (hl.keep hn (by simp [Node.kind]) (by simp [Node.kind]))
  | closure hk hn hs hb =>
    exact .closure (hg.closures hk) (hl.keep hn (by simp [Node.kind]) (by simp [Node.kind]))
      (hs.later hg hl) hb

theorem IsAt.literal_eq {value : Literal} {l : Loc} (h : IsAt program w nodes (.literal value) l) :
    nodes[l]? = some (.boxed value) := by
  cases h with
  | literal hn => exact hn

theorem IsAt.primitive_eq {p : Primitive} {l : Loc} (h : IsAt program w nodes (.primitive p) l) :
    nodes[l]? = some (.primitive p.id) := by
  cases h with
  | primitive hn => exact hn

theorem CellAt.later {cell : Option Value} {slot : Option Loc} (h : CellAt program w nodes cell slot)
    (hg : w.Grows w') (hl : Later written used nodes nodes') : CellAt program w' nodes' cell slot := by
  cases h with
  | unassigned => exact .unassigned
  | assigned hv => exact .assigned (hv.later hg hl)

theorem FrameAt.later {frame : Frame} {x : Loc × List String} (h : FrameAt program w nodes frame x)
    (hg : w.Grows w') (hl : Later False used nodes nodes') : FrameAt program w' nodes' frame x := by
  obtain ⟨hnames, slots, outer, hn, hcells⟩ := h
  exact ⟨hnames, slots, outer, hl.keep_quiet hn (by simp [Node.kind]),
    hcells.imp fun _ _ hcell => hcell.later hg hl⟩

/-- Steps that assign to nothing keep the layout. -/
theorem Layout.Fits.later {m : Memory} {output : Array String} (h : w.Fits program m nodes output)
    (hl : Later False used nodes nodes') : w.Fits program m nodes' output where
  frames := h.frames.imp fun _ _ hf => hf.later (.refl w) hl
  apart := h.apart
  closures := h.closures
  distinct := h.distinct
  made := fun l hmem => Nat.lt_of_lt_of_le (h.made l hmem) hl.length_le
  output := h.output

end

/-! ## Corresponding lists -/

/-- Entries of a list without repetitions are in one place each. -/
theorem place_unique {α : Type} {xs : List α} {i j : Nat} {x : α} (h : xs.Nodup)
    (hi : xs[i]? = some x) (hj : xs[j]? = some x) : i = j :=
  (List.getElem?_inj (List.getElem?_eq_some_iff.mp hi).1 h).mp (hi.trans hj.symm)

section

variable {α β : Type} {R S : α → β → Prop} {xs : List α} {ys : List β}

/-- An entry is replaced, and the others have to correspond in another way from now on. -/
theorem forall₂_set {k : Nat} {x : α} (h : List.Forall₂ R xs ys) (hat : ∀ y, ys[k]? = some y → S x y)
    (hother : ∀ i x y, i ≠ k → ys[i]? = some y → R x y → S x y) : List.Forall₂ S (xs.set k x) ys := by
  refine List.forall₂_iff_get.mpr ⟨by simpa using h.length_eq, fun i hx hy => ?_⟩
  rw [List.get_eq_getElem, List.get_eq_getElem]
  by_cases hi : k = i
  · subst hi
    rw [List.getElem_set_self]
    exact hat _ (List.getElem?_eq_getElem hy)
  · rw [List.getElem_set_ne hi]
    exact hother i _ _ (Ne.symm hi) (List.getElem?_eq_getElem hy) (h.get (by simpa using hx) hy)

/-- Two entries in the same place are replaced. -/
theorem forall₂_set_set {k : Nat} {x : α} {y : β} (h : List.Forall₂ R xs ys)
    (himp : ∀ x y, R x y → S x y) (hxy : S x y) : List.Forall₂ S (xs.set k x) (ys.set k y) := by
  induction h generalizing k with
  | nil => exact .nil
  | cons hR hrest ih =>
    cases k with
    | zero => exact .cons hxy (hrest.imp himp)
    | succ k => exact .cons (himp _ _ hR) ih

end

/-! ## Names -/

/-- A scope and a frame with the same names have them in the same places. -/
theorem findIdx?_eq {scope : Scope} {frame : Frame} (name : String)
    (hnames : frame.map (·.1) = scope.map (·.name)) :
    frame.findIdx? (·.1 = name) = (Scope.find name scope).map (·.1) := by
  induction scope generalizing frame with
  | nil =>
    obtain rfl : frame = [] := by simpa using hnames
    rfl
  | cons b scope ih =>
    obtain ⟨cell, rest, rfl, hcell, hrest⟩ := List.map_eq_cons_iff.mp hnames
    rw [List.findIdx?_cons, Scope.find, ih hrest, hcell]
    by_cases hb : b.name = name
    · simp [hb]
    · simp [hb, Option.map_map, Function.comp_def]

section

variable {program : Program} {w : Layout} {m : Memory} {nodes : List Node} {output : Array String}
  {scopes : Scopes} {chain : List Nat} {env : Loc} {name : String} {a : Address} {b : Binding}

theorem Layout.Fits.frame {f : Nat} {x : Loc × List String} (h : w.Fits program m nodes output)
    (hf : w.frames[f]? = some x) :
    ∃ frame, m.frames[f]? = some frame ∧ FrameAt program w nodes frame x := by
  rcases World.forall₂_getElem? h.frames f with ⟨-, hnone⟩ | ⟨frame, x', hframe, hx, hat⟩
  · rw [hnone] at hf
    cases hf
  · rw [hx] at hf
    cases hf
    exact ⟨frame, hframe, hat⟩

/-- An address is the way to the cell that the name has. -/
theorem InSight.locate (h : InSight w nodes scopes chain (some env)) (hfits : w.Fits program m nodes output)
    (hlook : scopes.lookup name = some (a, b)) :
    ∃ f l names, m.locate name chain = some (f, a.slot) ∧ w.frames[f]? = some (l, names) ∧
      names[a.slot]? = some name ∧ outward env a.frame nodes = .ok (some l) nodes := by
  induction scopes generalizing chain env a with
  | nil => cases hlook
  | cons scope scopes ih =>
    cases h with
    | cons hf hn hrest =>
    rename_i f chain slots outer
    obtain ⟨frame, hframe, hnames, -⟩ := hfits.frame hf
    rw [Scopes.lookup] at hlook
    rw [Memory.locate, Memory.frame, hframe, Option.getD_some, findIdx?_eq name hnames]
    cases hfind : Scope.find name scope with
    | some found =>
      -- The innermost scope has the name.
      obtain ⟨slot, b'⟩ := found
      rw [hfind] at hlook
      cases hlook
      exact ⟨f, env, _, rfl, hf, name_of_find hfind, rfl⟩
    | none =>
      rw [hfind] at hlook
      obtain ⟨⟨a', b'⟩, hlook', heq⟩ := Option.map_eq_some_iff.mp hlook
      cases heq
      cases outer with
      | none =>
        cases hrest
        cases hlook'
      | some outer =>
        obtain ⟨f', l, names, hloc, hw, hname, hwalk⟩ := ih hrest hlook'
        exact ⟨f', l, names, hloc, hw, hname, (Ideal.outward_enclosed hn _).trans hwalk⟩

/-- What is read under a name is in the slot of its address. -/
theorem InSight.read (h : InSight w nodes scopes chain (some env)) (hfits : w.Fits program m nodes output)
    (hlook : scopes.lookup name = some (a, b)) :
    ∃ l slots outer slot, outward env a.frame nodes = .ok (some l) nodes ∧
      nodes[l]? = some (.environment slots outer) ∧ slots[a.slot]? = some slot ∧
      CellAt program w nodes (m.read chain name) slot := by
  obtain ⟨f, l, names, hloc, hw, hname, hwalk⟩ := h.locate hfits hlook
  obtain ⟨frame, hframe, hnames, slots, outer, hn, hcells⟩ := hfits.frame hw
  rcases World.forall₂_getElem? hcells a.slot with ⟨hnone, -⟩ | ⟨cell, slot, hcell, hslot, hat⟩
  · -- The frame has a cell there, because it has a name there.
    have hlen : frame.length = names.length := by simpa using congrArg List.length hnames
    rw [List.getElem?_eq_none_iff, List.length_map, hlen, ← List.getElem?_eq_none_iff, hname] at hnone
    cases hnone
  · refine ⟨l, slots, outer, slot, hwalk, hn, hslot, ?_⟩
    rw [List.getElem?_map] at hcell
    obtain ⟨entry, hentry, rfl⟩ := Option.map_eq_some_iff.mp hcell
    have hread : m.read chain name = entry.2 := by
      simp [Memory.read, Memory.frame, hloc, hframe, hentry]
    rwa [hread]

/-- What is assigned to a name goes to the slot of its address. -/
theorem InSight.write {v : Value} {lv : Loc} (h : InSight w nodes scopes chain (some env))
    (hfits : w.Fits program m nodes output) (hlook : scopes.lookup name = some (a, b))
    (hv : IsAt program w nodes v lv) :
    ∃ l slots outer, outward env a.frame nodes = .ok (some l) nodes ∧
      nodes[l]? = some (.environment slots outer) ∧ a.slot < slots.length ∧
      w.Fits program (m.write chain name v)
        (nodes.set l (.environment (slots.set a.slot (some lv)) outer)) output := by
  obtain ⟨f, l, names, hloc, hw, hname, hwalk⟩ := h.locate hfits hlook
  obtain ⟨frame, hframe, hnames, slots, outer, hn, hcells⟩ := hfits.frame hw
  have hnames : frame.map (·.1) = names := hnames
  have hn : nodes[l]? = some (.environment slots outer) := hn
  have hlt : a.slot < slots.length := by
    have hlen : names.length = slots.length := by
      rw [← hcells.length_eq, ← hnames, List.length_map, List.length_map]
    exact hlen ▸ (List.getElem?_eq_some_iff.mp hname).1
  have hlater : Later True [] nodes (nodes.set l (.environment (slots.set a.slot (some lv)) outer)) :=
    .set hn (.slots trivial (List.length_set ..))
  have hwrite : m.write chain name v =
      { m with frames := m.frames.set f (frame.set a.slot (name, some v)) } := by
    simp [Memory.write, Memory.frame, hloc, hframe]
  refine ⟨l, slots, outer, hwalk, hn, hlt, ?_⟩
  rw [hwrite]
  refine { hfits with frames := forall₂_set hfits.frames ?_ ?_, made := by simpa using hfits.made }
  · -- The frame that has the name.
    intro x hx
    obtain rfl : (l, names) = x := Option.some.inj (hw.symm.trans hx)
    refine ⟨?_, slots.set a.slot (some lv), outer,
      List.getElem?_set_self (List.getElem?_eq_some_iff.mp hn).1, ?_⟩
    · obtain ⟨hi, hget⟩ := List.getElem?_eq_some_iff.mp hname
      rw [List.map_set, hnames, ← hget, List.set_getElem_self]
    · rw [List.map_set]
      exact forall₂_set_set hcells (fun _ _ hcell => hcell.later (.refl w) hlater)
        (.assigned (hv.later (.refl w) hlater))
  · -- All other frames are at other nodes.
    intro i frame' x hi hx hat
    obtain ⟨hnames', slots', outer', hn', hcells'⟩ := hat
    have hne : l ≠ x.1 := by
      intro heq
      have hw' : (w.frames.map (·.1))[f]? = some l := by rw [List.getElem?_map, hw]; rfl
      have hx' : (w.frames.map (·.1))[i]? = some l := by rw [List.getElem?_map, hx, heq]; rfl
      exact hi (place_unique hfits.apart hx' hw')
    exact ⟨hnames', slots', outer', (List.getElem?_set_ne hne).trans hn',
      hcells'.imp fun _ _ hcell => hcell.later (.refl w) hlater⟩

end

/-! ## New frames and closures -/

def Layout.addFrame (w : Layout) (l : Loc) (names : List String) : Layout :=
  { w with frames := w.frames ++ [(l, names)] }

def Layout.addClosure (w : Layout) (l : Loc) : Layout := { w with closures := w.closures ++ [l] }

theorem Layout.grows_addFrame (w : Layout) (l : Loc) (names : List String) :
    w.Grows (w.addFrame l names) where
  frames _ _ hx := (List.getElem?_append_left (List.getElem?_eq_some_iff.mp hx).1).trans hx
  closures _ _ hx := hx

theorem Layout.grows_addClosure (w : Layout) (l : Loc) : w.Grows (w.addClosure l) where
  frames _ _ hx := hx
  closures _ _ hx := (List.getElem?_append_left (List.getElem?_eq_some_iff.mp hx).1).trans hx

section

variable {program : Program} {w : Layout} {m : Memory} {nodes : List Node} {output : Array String}

/-- Frames are at nodes that exist. -/
theorem Layout.Fits.not_mem_frames (h : w.Fits program m nodes output) {l : Loc}
    (hl : nodes.length ≤ l) : l ∉ w.frames.map (·.1) := by
  intro hmem
  obtain ⟨x, hx, rfl⟩ := List.mem_map.mp hmem
  obtain ⟨f, hf⟩ := List.mem_iff_getElem?.mp hx
  obtain ⟨frame, -, -, slots, outer, hn, -⟩ := h.frame hf
  exact absurd (List.getElem?_eq_some_iff.mp hn).1 (Nat.not_lt.mpr hl)

theorem Layout.Fits.enter {frame : Frame} {l : Loc} {slots : List (Option Loc)} {outer : Option Loc}
    (h : w.Fits program m nodes output) (hl : l ∉ w.frames.map (·.1))
    (hn : nodes[l]? = some (.environment slots outer))
    (hcells : List.Forall₂ (CellAt program w nodes) (frame.map (·.2)) slots) :
    (w.addFrame l (frame.map (·.1))).Fits program { m with frames := m.frames ++ [frame] } nodes
      output := by
  have hg := w.grows_addFrame l (frame.map (·.1))
  refine { h with frames := ?_, apart := ?_ }
  · refine List.rel_append (h.frames.imp fun _ _ hf => hf.later hg (.refl False [] nodes)) ?_
    refine .cons ⟨rfl, slots, outer, hn, ?_⟩ .nil
    exact hcells.imp fun _ _ hcell => hcell.later hg (.refl False [] nodes)
  · rw [Layout.addFrame, List.map_append, List.nodup_append]
    refine ⟨h.apart, by simp, fun x hx y hy heq => ?_⟩
    obtain rfl : y = l := by simpa using hy
    exact hl (heq ▸ hx)

theorem Layout.Fits.build {nodes' : List Node} {used : List Loc} {l : Loc}
    (h : w.Fits program m nodes output) (hlater : Later False used nodes nodes')
    (hl : nodes.length ≤ l) (hlt : l < nodes'.length) :
    (w.addClosure l).Fits program { m with closures := m.closures + 1 } nodes' output := by
  have hg := w.grows_addClosure l
  have hfits := h.later hlater
  refine { hfits with frames := ?_, closures := ?_, distinct := ?_, made := ?_ }
  · exact hfits.frames.imp fun _ _ hf => hf.later hg (.refl False [] nodes')
  · rw [Layout.addClosure, List.length_append, h.closures]
    rfl
  · rw [Layout.addClosure, List.nodup_append]
    refine ⟨h.distinct, by simp, fun x hx y hy heq => ?_⟩
    obtain rfl : y = l := by simpa using hy
    exact absurd (h.made x hx) (Nat.not_lt.mpr (heq ▸ hl))
  · intro x hx
    rcases List.mem_append.mp hx with hx | hx
    · exact hfits.made x hx
    · obtain rfl : x = l := by simpa using hx
      exact hlt

theorem Layout.Fits.shows (h : w.Fits program m nodes output) (shown : Array String) :
    w.Fits program { m with output := m.output ++ shown } nodes (output ++ shown) :=
  { h with output := by rw [h.output] }

/-! ## Values as arguments -/

/-- The names that closures have on both sides. -/
def Layout.Names (w : Layout) (identity : Nat) (l : Nat) : Prop := w.closures[identity]? = some l

theorem Layout.Fits.names (h : w.Fits program m nodes output) : Argument.OneToOne w.Names := by
  intro x y x' y' hx hx'
  constructor
  · rintro rfl
    exact Option.some.inj (hx.symm.trans hx')
  · rintro rfl
    exact place_unique h.distinct hx hx'

theorem IsAt.argument {v : Value} {l : Loc} (h : IsAt program w nodes v l) :
    ∃ a, HasArgument nodes l a ∧ Argument.Alike w.Names v.argument a := by
  cases h with
  | literal hn => exact ⟨_, ⟨_, hn, rfl⟩, .literal _⟩
  | primitive hn => exact ⟨_, ⟨_, hn, rfl⟩, .primitive _⟩
  | closure hk hn hs hb => exact ⟨_, ⟨_, hn, rfl⟩, .function _ hk⟩

theorem IsAt.arguments {vs : List Value} {ls : List Loc} (h : List.Forall₂ (IsAt program w nodes) vs ls) :
    ∃ args, List.Forall₂ (HasArgument nodes) ls args ∧
      List.Forall₂ (Argument.Alike w.Names) (vs.map Value.argument) args := by
  induction h with
  | nil => exact ⟨[], .nil, .nil⟩
  | cons hv _ ih =>
    obtain ⟨a, ha, ha'⟩ := hv.argument
    obtain ⟨args, hargs, hargs'⟩ := ih
    exact ⟨a :: args, .cons ha hargs, .cons ha' hargs'⟩

end

end Source

end ClosureMachine
