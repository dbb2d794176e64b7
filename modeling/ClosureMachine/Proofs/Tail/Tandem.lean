import ClosureMachine.Proofs.Tail.Control

/-!
# Side by side

`Tracks` is what holds between the plain machine and the one with tail calls whenever they are at addresses that
agree. A move of the second is one or more of the plain one: more than one where it returns to a caller of
which the plain machine is kept apart by idle ones (`Tracks.move`). What the one refuses the other refuses as
well, and they give the same answer.
-/

set_option autoImplicit false

namespace ClosureMachine.Ideal

/-- The first core is that of the plain machine, and the second that of the one with tail calls. -/
structure Tracks (plain program : Program) (w saved : List Loc) (c c' : Core) : Prop where
  nodes : SameNodes plain program w c.nodes c'.nodes
  env : Image w c.env c'.env
  stack : Image w c.stack c'.stack
  control : SameControl plain w c.nodes c.control c'.control saved
  apart : (c.stack :: saved).Nodup
  output : c.output = c'.output
  pc : Agree plain program c.pc c'.pc

/-- The plain machine gets from the core to one that tracks the other. -/
def KeepsUp (plain program : Program) (c d' : Core) : Prop :=
  ∃ k w saved d, Steps plain (k + 1) c d ∧ Tracks plain program w saved d d'

section

variable {plain program : Program} {w saved : List Loc} {c c' d d' : Core}

theorem KeepsUp.of_move (hm : Move plain c d) (h : Tracks plain program w saved d d') :
    KeepsUp plain program c d' :=
  ⟨0, w, saved, d, hm.step.steps, h⟩

theorem KeepsUp.after (hm : Move plain c d) (h : KeepsUp plain program d d') :
    KeepsUp plain program c d' := by
  obtain ⟨k, w, saved, e, hsteps, h⟩ := h
  exact ⟨k + 1, w, saved, e, ⟨d, hm.step, hsteps⟩, h⟩

namespace Tracks

/-- The operand stacks of the callers are not the current one. -/
theorem unused (h : Tracks plain program w saved c c') : ∀ l ∈ saved, l ∉ [c.stack] := by
  intro l hmem
  rw [List.mem_singleton]
  exact fun heq => (List.nodup_cons.mp h.apart).1 (heq ▸ hmem)

/-- A new operand stack is none of those that are there. -/
theorem apart_new (h : Tracks plain program w saved c c') :
    ((c.nodes.length + 1) :: c.stack :: saved).Nodup := by
  refine List.nodup_cons.mpr ⟨fun hmem => ?_, h.apart⟩
  have hlt : ∀ l ∈ c.stack :: saved, l < c.nodes.length :=
    List.forall_mem_cons.mpr ⟨(h.nodes.lt h.stack).1, h.control.saved_lt⟩
  exact absurd (hlt _ hmem) (Nat.not_lt.mpr (Nat.le_succ _))

/-- Both machines go on with other operands. -/
theorem operate (h : Tracks plain program w saved c c') {ops ops' operands : List Loc} {free : Nat}
    (free' : Nat) (hs : c.nodes[c.stack]? = some (.operandStack ops free)) (hops : Images w operands ops')
    {pc pc' : Nat} (hpc : Agree plain program pc pc') {output output' : Array String}
    (hout : output = output') :
    Tracks plain program w saved
      ⟨c.nodes.set c.stack (.operandStack operands free'), pc, c.env, c.stack, c.control, output⟩
      ⟨c'.nodes.set c'.stack (.operandStack ops' free'), pc', c'.env, c'.stack, c'.control, output'⟩ := by
  have hl : Later True [c.stack] c.nodes (c.nodes.set c.stack (.operandStack operands free')) :=
    .use hs (List.mem_singleton_self _)
  exact
    { nodes := h.nodes.set h.stack (.operandStack free' hops)
      env := h.env
      stack := h.stack
      control := h.control.later hl h.unused
      apart := h.apart
      output := hout
      pc := hpc }

/-- Both machines make a node. -/
theorem add (h : Tracks plain program w saved c c') {n n' : Node}
    (hn : SameNode plain program (w ++ [c.nodes.length]) n n') :
    Tracks plain program (w ++ [c.nodes.length]) saved { c with nodes := c.nodes ++ [n] }
      { c' with nodes := c'.nodes ++ [n'] } where
  nodes := h.nodes.add hn
  env := h.env.mono _
  stack := h.stack.mono _
  control := (h.control.mono _).later (Later.append True [] _ _) (by simp)
  apart := h.apart
  output := h.output
  pc := h.pc

end Tracks

/-! ## Operands and slots -/

/-- The operands of a call and their images. -/
theorem images_call {ops locs' rest' : List Loc} {callee' : Loc}
    (h : Images w ops (locs' ++ callee' :: rest')) :
    ∃ locs callee rest, ops = locs ++ callee :: rest ∧ locs.length = locs'.length ∧
      Images w locs locs' ∧ Image w callee callee' ∧ Images w rest rest' := by
  have hlocs := List.forall₂_take_append _ _ _ h
  have hrest := List.forall₂_drop_append _ _ _ h
  obtain ⟨callee, rest, hcallee, hrest, heq⟩ := List.forall₂_cons_right_iff.mp hrest
  refine ⟨ops.take locs'.length, callee, rest, ?_, hlocs.length_eq, hlocs, hcallee, hrest⟩
  rw [← heq, List.take_append_drop]

theorem slot_image {slots slots' : List (Option Loc)} {k : Nat} {o' : Option Loc}
    (h : List.Forall₂ (Option.Rel (Image w)) slots slots') (hv : slots'[k]? = some o') :
    ∃ o, slots[k]? = some o ∧ Option.Rel (Image w) o o' := by
  obtain ⟨hlt', rfl⟩ := List.getElem?_eq_some_iff.mp hv
  have hlt : k < slots.length := h.length_eq ▸ hlt'
  exact ⟨slots[k], List.getElem?_eq_getElem hlt, h.get hlt hlt'⟩

theorem set_images {slots slots' : List (Option Loc)} {o o' : Option Loc} (k : Nat)
    (h : List.Forall₂ (Option.Rel (Image w)) slots slots') (ho : Option.Rel (Image w) o o') :
    List.Forall₂ (Option.Rel (Image w)) (slots.set k o) (slots'.set k o') := by
  induction h generalizing k with
  | nil => exact .nil
  | cons hslot hrest ih =>
    cases k with
    | zero => exact .cons ho hrest
    | succ k => exact .cons hslot (ih k)

/-- Arguments become slots. -/
theorem images_slots {locs locs' : List Loc} (h : Images w locs locs') :
    List.Forall₂ (Option.Rel (Image w)) (locs.reverse.map some) (locs'.reverse.map some) := by
  rw [List.forall₂_map_left_iff, List.forall₂_map_right_iff, List.forall₂_reverse_iff]
  exact h.imp fun _ _ him => .some him

theorem images_unassigned (n : Nat) :
    List.Forall₂ (Option.Rel (Image w)) (List.replicate n none) (List.replicate n none) := by
  induction n with
  | zero => exact .nil
  | succ n ih => exact .cons .none ih

/-! ## Moves -/

namespace Tracks

variable {operands' : List Loc} {free : Nat}

theorem loadConstant (h : Tracks plain program w saved c c') {value : Literal}
    (hi : program.code[c'.pc]? = some (.loadConstant value))
    (hs : c'.nodes[c'.stack]? = some (.operandStack operands' (free + 1))) :
    KeepsUp plain program c { c' with
      nodes := (c'.nodes ++ [Node.boxed value]).set c'.stack
        (.operandStack (c'.nodes.length :: operands') free)
      pc := c'.pc + 1 } := by
  obtain ⟨hp, hnext⟩ := h.pc.of_straight hi trivial
  obtain ⟨operands, hs, hops⟩ := h.nodes.operands h.stack hs
  have hadd := h.add (.boxed value)
  exact .of_move (.loadConstant hp hs)
    (hadd.operate _ (append_old hs) (.cons (h.nodes.image_new (k := 0) rfl) (hops.mono _)) hnext h.output)

theorem load (h : Tracks plain program w saved c c') {a : Address} {env' v' : Loc}
    {slots' : List (Option Loc)} {outer' : Option Loc} (hi : program.code[c'.pc]? = some (.load a))
    (hwalk : outward c'.env a.frame c'.nodes = .ok (some env') c'.nodes)
    (henv : c'.nodes[env']? = some (.environment slots' outer')) (hv : slots'[a.slot]? = some (some v'))
    (hs : c'.nodes[c'.stack]? = some (.operandStack operands' (free + 1))) :
    KeepsUp plain program c { c' with
      nodes := c'.nodes.set c'.stack (.operandStack (v' :: operands') free)
      pc := c'.pc + 1 } := by
  obtain ⟨hp, hnext⟩ := h.pc.of_straight hi trivial
  obtain ⟨operands, hs, hops⟩ := h.nodes.operands h.stack hs
  obtain ⟨env, hwalk, him⟩ := h.nodes.outward h.env hwalk
  obtain ⟨slots, outer, henv, hslots, -⟩ := h.nodes.environment him henv
  obtain ⟨o, ho, hrel⟩ := slot_image hslots hv
  cases hrel with
  | some hv => exact .of_move (.load hp hwalk henv ho hs) (h.operate _ hs (.cons hv hops) hnext h.output)

theorem assign (h : Tracks plain program w saved c c') {a : Address} {env' v' : Loc}
    {slots' : List (Option Loc)} {outer' : Option Loc} (hi : program.code[c'.pc]? = some (.assign a))
    (hwalk : outward c'.env a.frame c'.nodes = .ok (some env') c'.nodes)
    (henv : c'.nodes[env']? = some (.environment slots' outer')) (hlt : a.slot < slots'.length)
    (hs : c'.nodes[c'.stack]? = some (.operandStack (v' :: operands') free)) :
    KeepsUp plain program c { c' with
      nodes := c'.nodes.set env' (.environment (slots'.set a.slot (some v')) outer')
      pc := c'.pc + 1 } := by
  obtain ⟨hp, hnext⟩ := h.pc.of_straight hi trivial
  obtain ⟨operands, hs, hops⟩ := h.nodes.operands h.stack hs
  obtain ⟨v, rest, hv, -, rfl⟩ := List.forall₂_cons_right_iff.mp hops
  obtain ⟨env, hwalk, him⟩ := h.nodes.outward h.env hwalk
  obtain ⟨slots, outer, henv, hslots, houter⟩ := h.nodes.environment him henv
  have hl : Later True [] c.nodes (c.nodes.set env (.environment (slots.set a.slot (some v)) outer)) :=
    .set henv (.slots trivial (List.length_set ..))
  exact .of_move (.assign hp hwalk henv (hslots.length_eq ▸ hlt) hs)
    { nodes := h.nodes.set him (.environment (set_images a.slot hslots (.some hv)) houter)
      env := h.env
      stack := h.stack
      control := h.control.later hl (by simp)
      apart := h.apart
      output := h.output
      pc := hnext }

theorem pop (h : Tracks plain program w saved c c') {v' : Loc} (hi : program.code[c'.pc]? = some .pop)
    (hs : c'.nodes[c'.stack]? = some (.operandStack (v' :: operands') free)) :
    KeepsUp plain program c { c' with
      nodes := c'.nodes.set c'.stack (.operandStack operands' (free + 1))
      pc := c'.pc + 1 } := by
  obtain ⟨hp, hnext⟩ := h.pc.of_straight hi trivial
  obtain ⟨operands, hs, hops⟩ := h.nodes.operands h.stack hs
  obtain ⟨v, rest, -, hrest, rfl⟩ := List.forall₂_cons_right_iff.mp hops
  exact .of_move (.pop hp hs) (h.operate _ hs hrest hnext h.output)

theorem jump (h : Tracks plain program w saved c c') {target' : Nat}
    (hi : program.code[c'.pc]? = some (.jump target')) :
    KeepsUp plain program c { c' with pc := target' } := by
  obtain ⟨target, hp, hnext⟩ := h.pc.of_jump hi
  exact .of_move (.jump hp) { h with pc := hnext }

theorem jumpIfFalse (h : Tracks plain program w saved c c') {target' : Nat} {l' : Loc} {b : Bool}
    (hi : program.code[c'.pc]? = some (.jumpIfFalse target'))
    (hs : c'.nodes[c'.stack]? = some (.operandStack (l' :: operands') free))
    (hl : c'.nodes[l']? = some (.boxed (.boolean b))) :
    KeepsUp plain program c { c' with
      nodes := c'.nodes.set c'.stack (.operandStack operands' (free + 1))
      pc := if b then c'.pc + 1 else target' } := by
  obtain ⟨target, hp, hnext, hother⟩ := h.pc.of_jumpIfFalse hi
  obtain ⟨operands, hs, hops⟩ := h.nodes.operands h.stack hs
  obtain ⟨l, rest, him, hrest, rfl⟩ := List.forall₂_cons_right_iff.mp hops
  refine .of_move (.jumpIfFalse hp hs (h.nodes.boxed him hl)) (h.operate _ hs hrest ?_ h.output)
  cases b with
  | true => exact hnext
  | false => exact hother

theorem loadFunction (h : Tracks plain program w saved c c') {arity entry' capacity : Nat}
    {names' : List (Option Loc)} {outer' : Option Loc}
    (hi : program.code[c'.pc]? = some (.loadFunction arity entry' capacity))
    (henv : c'.nodes[c'.env]? = some (.environment names' outer'))
    (hs : c'.nodes[c'.stack]? = some (.operandStack operands' (free + 1))) :
    KeepsUp plain program c { c' with
      nodes := (c'.nodes ++ [Node.closure (some c'.env) arity entry' capacity]).set c'.stack
        (.operandStack (c'.nodes.length :: operands') free)
      pc := c'.pc + 1 } := by
  obtain ⟨entry, hp, hbody, hnext⟩ := h.pc.of_loadFunction hi
  obtain ⟨operands, hs, hops⟩ := h.nodes.operands h.stack hs
  obtain ⟨names, outer, henv, -, -⟩ := h.nodes.environment h.env henv
  have hadd := h.add (.closure arity capacity (.some (h.env.mono _)) hbody)
  exact .of_move (.loadFunction hp henv hs)
    (hadd.operate _ (append_old hs) (.cons (h.nodes.image_new (k := 0) rfl) (hops.mono _)) hnext h.output)

/-! ### Scopes -/

theorem enterScope (h : Tracks plain program w saved c c') {slots : Nat} {names' : List (Option Loc)}
    {outer' : Option Loc} (hi : program.code[c'.pc]? = some (.enterScope slots))
    (henv : c'.nodes[c'.env]? = some (.environment names' outer')) :
    KeepsUp plain program c { c' with
      nodes := c'.nodes ++ [.blockFrame (some c'.env),
        .environment (List.replicate slots none) (some c'.env)]
      pc := c'.pc + 1
      env := c'.nodes.length + 1
      control := c'.nodes.length :: c'.control } := by
  obtain ⟨hp, hnext⟩ := h.pc.of_straight hi trivial
  obtain ⟨names, outer, henv, -, -⟩ := h.nodes.environment h.env henv
  have hframe := h.add (.blockFrame (.some (h.env.mono _)))
  have hscope := hframe.add (.environment (images_unassigned slots) (.some (hframe.env.mono _)))
  have hnodes := hscope.nodes
  simp only [List.length_append, List.length_singleton, List.append_assoc, List.singleton_append] at hnodes
  have hblock : (c.nodes ++ [.blockFrame (some c.env),
      .environment (List.replicate slots none) (some c.env)])[c.nodes.length]? =
        some (.blockFrame (some c.env)) := by simp
  have hcontrol := (h.control.mono [c.nodes.length, c.nodes.length + 1]).later
    (Later.append True [] c.nodes [.blockFrame (some c.env),
      .environment (List.replicate slots none) (some c.env)]) (by simp)
  exact .of_move (.enterScope hp henv)
    { nodes := hnodes
      env := h.nodes.image_new (k := 1) rfl
      stack := h.stack.mono _
      control := .block (h.nodes.image_new (k := 0) rfl) hblock hcontrol
      apart := h.apart
      output := h.output
      pc := hnext }

/-- Block frames come off on both sides. -/
theorem unwind (h : Tracks plain program w saved c c') {blocks' rest' : List Loc}
    (hc : c'.control = blocks' ++ rest')
    (hb : ∀ l' ∈ blocks', ∃ env, c'.nodes[l']? = some (.blockFrame env)) :
    ∃ blocks rest, c.control = blocks ++ rest ∧ Images w blocks blocks' ∧
      (∀ l ∈ blocks, ∃ env, c.nodes[l]? = some (.blockFrame env)) ∧
      SameControl plain w c.nodes rest rest' saved := by
  have hcontrol := h.control
  rw [hc] at hcontrol
  exact hcontrol.unwind fun l' hmem l him => h.nodes.isBlock him (hb l' hmem)

theorem exitScope (h : Tracks plain program w saved c c') {frame' env' : Loc} {rest' : List Loc}
    (hi : program.code[c'.pc]? = some .exitScope) (hc : c'.control = frame' :: rest')
    (hframe : c'.nodes[frame']? = some (.blockFrame (some env'))) :
    KeepsUp plain program c { c' with pc := c'.pc + 1, env := env', control := rest' } := by
  obtain ⟨hp, hnext⟩ := h.pc.of_straight hi trivial
  have hblock : c'.control = [frame'] ++ rest' := hc
  obtain ⟨blocks, rest, hcontrol, himages, -, hrest⟩ := h.unwind hblock (by simpa using ⟨_, hframe⟩)
  obtain ⟨frame, _, him, hnil, rfl⟩ := List.forall₂_cons_right_iff.mp himages
  cases hnil
  obtain ⟨env, hframe, henv⟩ := h.nodes.blockFrame him hframe
  exact .of_move (.exitScope hp hcontrol hframe)
    { nodes := h.nodes
      env := henv
      stack := h.stack
      control := hrest
      apart := h.apart
      output := h.output
      pc := hnext }

/-! ### Calls -/

section

variable {callee' : Loc} {locs' : List Loc}

theorem callPrimitive (h : Tracks plain program w saved c c') {args' : List Argument} {p : Primitive}
    {id : Nat} {value : Literal} (hi : program.code[c'.pc]? = some (.call locs'.length))
    (hs : c'.nodes[c'.stack]? = some (.operandStack (locs' ++ callee' :: operands') free))
    (hcallee : c'.nodes[callee']? = some (.primitive id)) (hid : Primitive.ofId? id = some p)
    (harity : p.arity = locs'.length) (hargs : List.Forall₂ (HasArgument c'.nodes) locs' args')
    (hm : p.meaning args'.reverse = .ok value) :
    KeepsUp plain program c { c' with
      nodes := (c'.nodes ++ [Node.boxed value]).set c'.stack
        (.operandStack (c'.nodes.length :: operands') (free + locs'.length))
      pc := c'.pc + 1
      output := c'.output ++ p.shows args'.reverse } := by
  obtain ⟨hp, hnext⟩ := h.pc.of_straight hi trivial
  obtain ⟨operands, hs, hops⟩ := h.nodes.operands h.stack hs
  obtain ⟨locs, callee, rest, rfl, hlen, hlocs, him, hrest⟩ := images_call hops
  obtain ⟨args, hargs, hmeaning, hshows⟩ := h.nodes.arguments hlocs hargs p
  rw [← hmeaning] at hm
  rw [← hlen] at hp harity ⊢
  have hadd := h.add (.boxed value)
  refine .of_move (.callPrimitive hp hs (h.nodes.primitive him hcallee) hid harity hargs hm)
    (hadd.operate _ (append_old hs) (.cons (h.nodes.image_new (k := 0) rfl) (hrest.mono _)) hnext ?_)
  rw [hshows, h.output]

/-- A new environment for the arguments, and a new operand stack. -/
theorem activation {nodes nodes' : List Node} (h : SameNodes plain program w nodes nodes')
    {locs : List Loc} (hlocs : Images w locs locs') {env env' : Loc} (henv : Image w env env')
    (capacity : Nat) :
    SameNodes plain program (w ++ [nodes.length, nodes.length + 1])
      (nodes ++ [.environment (locs.reverse.map some) (some env), .operandStack [] capacity])
      (nodes' ++ [.environment (locs'.reverse.map some) (some env'), .operandStack [] capacity]) := by
  have hadd := (h.add (.environment (images_slots (hlocs.mono _)) (.some (henv.mono _)))).add
    (.operandStack capacity .nil)
  simpa using hadd

theorem callClosure (h : Tracks plain program w saved c c') {env' : Loc} {entry' capacity : Nat}
    {slots' slots'' : List (Option Loc)} {outer' outer'' : Option Loc}
    (hi : program.code[c'.pc]? = some (.call locs'.length))
    (hs : c'.nodes[c'.stack]? = some (.operandStack (locs' ++ callee' :: operands') free))
    (hcallee : c'.nodes[callee']? = some (.closure (some env') locs'.length entry' capacity))
    (henv : c'.nodes[env']? = some (.environment slots' outer'))
    (hcurrent : c'.nodes[c'.env]? = some (.environment slots'' outer'')) :
    KeepsUp plain program c { c' with
      nodes := c'.nodes.set c'.stack (.operandStack operands' (free + locs'.length + 1)) ++
        [.environment (locs'.reverse.map some) (some env'), .operandStack [] capacity,
          .callFrame (some c'.env) (some c'.stack) (c'.pc + 1)]
      pc := entry'
      env := c'.nodes.length
      stack := c'.nodes.length + 1
      control := (c'.nodes.length + 2) :: c'.control } := by
  obtain ⟨hp, hnext⟩ := h.pc.of_straight hi trivial
  obtain ⟨operands, hs, hops⟩ := h.nodes.operands h.stack hs
  obtain ⟨locs, callee, rest, rfl, hlen, hlocs, him, hrest⟩ := images_call hops
  rw [← hlen] at hp hcallee ⊢
  obtain ⟨env, entry, hcallee, hclosure, hentry⟩ := h.nodes.closure him hcallee
  obtain ⟨_, _, henv, -, -⟩ := h.nodes.environment hclosure henv
  obtain ⟨_, _, hcurrent, -, -⟩ := h.nodes.environment h.env hcurrent
  let nodes₁ := c.nodes.set c.stack (.operandStack rest (free + locs.length + 1)) ++
    [.environment (locs.reverse.map some) (some env), .operandStack [] capacity,
      .callFrame (some c.env) (some c.stack) (c.pc + 1)]
  have hleft := h.nodes.set h.stack (.operandStack (free + locs.length + 1) hrest)
  have hnodes := (activation hleft hlocs hclosure capacity).add
    (.callFrame (.some ((h.env.mono _).mono _)) (.some ((h.stack.mono _).mono _)) hnext)
  simp only [List.length_append, List.length_set, List.length_cons, List.length_nil, Nat.zero_add,
    Nat.reduceAdd, List.append_assoc, List.cons_append, List.nil_append] at hnodes
  have hframe : nodes₁[c.nodes.length + 2]? =
      some (.callFrame (some c.env) (some c.stack) (c.pc + 1)) := by simp [nodes₁]
  have hl : Later True [c.stack] c.nodes nodes₁ :=
    (Later.use hs (List.mem_singleton_self _)).trans (.append _ _ _ _)
  have hcontrol := (h.control.mono [c.nodes.length, c.nodes.length + 1, c.nodes.length + 2]).later hl h.unused
  have hlt : c.stack < nodes₁.length := Nat.lt_of_lt_of_le (h.nodes.lt h.stack).1 hl.length_le
  exact .of_move (.callClosure hp hs hcallee henv hcurrent)
    { nodes := hnodes
      env := h.nodes.image_new (k := 0) rfl
      stack := h.nodes.image_new (k := 1) rfl
      control := .call (h.nodes.image_new (k := 2) rfl) hframe hlt hcontrol
      apart := h.apart_new
      output := h.output
      pc := hentry }

/-- The other machine gives its frames up, and the caller in the plain one becomes idle. -/
theorem tailCallClosure (h : Tracks plain program w saved c c') {env' frame' : Loc}
    {entry' capacity : Nat} {slots' slots'' : List (Option Loc)} {outer' outer'' : Option Loc}
    {blocks' rest' : List Loc} {n' : Node} (hi : program.code[c'.pc]? = some (.tailCall locs'.length))
    (hs : c'.nodes[c'.stack]? = some (.operandStack (locs' ++ callee' :: operands') free))
    (hcallee : c'.nodes[callee']? = some (.closure (some env') locs'.length entry' capacity))
    (henv : c'.nodes[env']? = some (.environment slots' outer'))
    (hcurrent : c'.nodes[c'.env]? = some (.environment slots'' outer''))
    (hc : c'.control = blocks' ++ frame' :: rest')
    (hb : ∀ l ∈ blocks', ∃ env, c'.nodes[l]? = some (.blockFrame env))
    (hframe : c'.nodes[frame']? = some n') (hk : n'.kind = .callFrame) :
    KeepsUp plain program c { c' with
      nodes := c'.nodes.set c'.stack (.operandStack operands' (free + locs'.length + 1)) ++
        [.environment (locs'.reverse.map some) (some env'), .operandStack [] capacity]
      pc := entry'
      env := c'.nodes.length
      stack := c'.nodes.length + 1
      control := frame' :: rest' } := by
  obtain ⟨hp, hreturns⟩ := h.pc.of_tailCall hi
  obtain ⟨operands, hs, hops⟩ := h.nodes.operands h.stack hs
  obtain ⟨locs, callee, rest, rfl, hlen, hlocs, him, hrest⟩ := images_call hops
  rw [← hlen] at hp hcallee ⊢
  obtain ⟨env, entry, hcallee, hclosure, hentry⟩ := h.nodes.closure him hcallee
  obtain ⟨_, _, henv, -, -⟩ := h.nodes.environment hclosure henv
  obtain ⟨_, _, hcurrent, -, -⟩ := h.nodes.environment h.env hcurrent
  obtain ⟨blocks, control, hcontrol, -, hblocks, hsame⟩ := h.unwind hc hb
  obtain ⟨caller, himage⟩ := h.nodes.image hframe
  obtain ⟨n, hcaller, hnode⟩ := h.nodes.node himage hframe
  have hkind : n.kind = .callFrame := hnode.kind.trans hk
  let nodes₁ := c.nodes.set c.stack (.operandStack rest (free + locs.length + 1)) ++
    [.environment (locs.reverse.map some) (some env), .operandStack [] capacity,
      .callFrame (some c.env) (some c.stack) (c.pc + 1)]
  have hleft := h.nodes.set h.stack (.operandStack (free + locs.length + 1) hrest)
  have hnodes := (activation hleft hlocs hclosure capacity).extra
    [.callFrame (some c.env) (some c.stack) (c.pc + 1)]
  simp only [List.length_set, List.append_assoc, List.cons_append, List.nil_append] at hnodes
  have hidle : nodes₁[c.nodes.length + 2]? =
      some (.callFrame (some c.env) (some c.stack) (c.pc + 1)) := by simp [nodes₁]
  have hl : Later True [c.stack] c.nodes nodes₁ :=
    (Later.use hs (List.mem_singleton_self _)).trans (.append _ _ _ _)
  have hstack : nodes₁[c.stack]? = some (.operandStack rest (free + locs.length + 1)) :=
    append_old (List.getElem?_set_self (List.getElem?_eq_some_iff.mp hs).1)
  have hblocks₁ : ∀ l ∈ blocks, ∃ env, nodes₁[l]? = some (.blockFrame env) := fun l hmem =>
    (hblocks l hmem).imp fun env hn => hl.keep hn (by simp [Node.kind]) (by simp [Node.kind])
  have hsame₁ := (hsame.mono [c.nodes.length, c.nodes.length + 1]).later hl h.unused
  have hcontrol₁ := SameControl.idle hidle hreturns hstack hblocks₁ (himage.mono _)
    (hl.keep hcaller (by simp [hkind]) (by simp [hkind])) hkind hsame₁
  rw [← hcontrol] at hcontrol₁
  exact .of_move (.callClosure hp hs hcallee henv hcurrent)
    { nodes := hnodes
      env := h.nodes.image_new (k := 0) rfl
      stack := h.nodes.image_new (k := 1) rfl
      control := hcontrol₁
      apart := h.apart_new
      output := h.output
      pc := hentry }

/-! ### Returns -/

section

variable {v' env' stack' frame' : Loc} {address' free' : Nat} {blocks' rest' operands'' : List Loc}

/-- The plain machine has a value to return, and no more to do before it gets to the caller of the other one. -/
theorem return_to (h : Tracks plain program w saved c c') {pc : Nat} (hret : Returns plain pc)
    (hs : c'.nodes[c'.stack]? = some (.operandStack (v' :: operands') free))
    (hc : c'.control = blocks' ++ frame' :: rest')
    (hb : ∀ l ∈ blocks', ∃ env, c'.nodes[l]? = some (.blockFrame env))
    (hframe : c'.nodes[frame']? = some (.callFrame (some env') (some stack') address'))
    (hstack : c'.nodes[stack']? = some (.operandStack operands'' (free' + 1))) :
    KeepsUp plain program { c with pc := pc } { c' with
      nodes := (c'.nodes.set c'.stack (.operandStack operands' (free + 1))).set stack'
        (.operandStack (v' :: operands'') free')
      pc := address'
      env := env'
      stack := stack'
      control := rest' } := by
  obtain ⟨operands, hs, hops⟩ := h.nodes.operands h.stack hs
  obtain ⟨v, rest, hv, hrest, rfl⟩ := List.forall₂_cons_right_iff.mp hops
  obtain ⟨blocks, control, hcontrol, -, hblocks, hsame⟩ := h.unwind hc hb
  obtain ⟨frame, himage⟩ := h.nodes.image hframe
  obtain ⟨env, stack, address, hframe, henv, himstack, haddress⟩ := h.nodes.callFrame himage hframe
  obtain ⟨operands₂, hstack, hops₂⟩ := h.nodes.operands himstack hstack
  obtain ⟨k, rest₁, saved₁, hsteps, hsame₁, hapart⟩ := hsame.returns (c := { c with pc := pc })
    (Later.refl True [] _) (by simp) rfl himage hframe hstack hret hs hcontrol hblocks h.apart
  exact ⟨k, w, saved₁, _, hsteps,
    { nodes := (h.nodes.set h.stack (.operandStack _ hrest)).set himstack
        (.operandStack _ (.cons hv hops₂))
      env := henv
      stack := himstack
      control := hsame₁
      apart := hapart
      output := h.output
      pc := haddress }⟩

theorem ret (h : Tracks plain program w saved c c') (hi : program.code[c'.pc]? = some .ret)
    (hs : c'.nodes[c'.stack]? = some (.operandStack (v' :: operands') free))
    (hc : c'.control = blocks' ++ frame' :: rest')
    (hb : ∀ l ∈ blocks', ∃ env, c'.nodes[l]? = some (.blockFrame env))
    (hframe : c'.nodes[frame']? = some (.callFrame (some env') (some stack') address'))
    (hstack : c'.nodes[stack']? = some (.operandStack operands'' (free' + 1))) :
    KeepsUp plain program c { c' with
      nodes := (c'.nodes.set c'.stack (.operandStack operands' (free + 1))).set stack'
        (.operandStack (v' :: operands'') free')
      pc := address'
      env := env'
      stack := stack'
      control := rest' } :=
  h.return_to (h.pc.of_ret hi) hs hc hb hframe hstack

/-- The plain machine calls the primitive first, and returns the result. -/
theorem tailCallPrimitive (h : Tracks plain program w saved c c') {args' : List Argument} {p : Primitive}
    {id : Nat} {value : Literal} (hi : program.code[c'.pc]? = some (.tailCall locs'.length))
    (hs : c'.nodes[c'.stack]? = some (.operandStack (locs' ++ callee' :: operands') free))
    (hcallee : c'.nodes[callee']? = some (.primitive id)) (hid : Primitive.ofId? id = some p)
    (harity : p.arity = locs'.length) (hargs : List.Forall₂ (HasArgument c'.nodes) locs' args')
    (hm : p.meaning args'.reverse = .ok value) (hc : c'.control = blocks' ++ frame' :: rest')
    (hb : ∀ l ∈ blocks', ∃ env, c'.nodes[l]? = some (.blockFrame env))
    (hframe : c'.nodes[frame']? = some (.callFrame (some env') (some stack') address'))
    (hstack : c'.nodes[stack']? = some (.operandStack operands'' (free' + 1))) (hne : c'.stack ≠ stack') :
    KeepsUp plain program c { c' with
      nodes := ((c'.nodes ++ [Node.boxed value]).set c'.stack
        (.operandStack operands' (free + locs'.length + 1))).set stack'
          (.operandStack (c'.nodes.length :: operands'') free')
      pc := address'
      env := env'
      stack := stack'
      control := rest'
      output := c'.output ++ p.shows args'.reverse } := by
  obtain ⟨hp, hreturns⟩ := h.pc.of_tailCall hi
  obtain ⟨operands, hs₀, hops⟩ := h.nodes.operands h.stack hs
  obtain ⟨locs, callee, rest, rfl, hlen, hlocs, him, hrest⟩ := images_call hops
  obtain ⟨args, hargs, hmeaning, hshows⟩ := h.nodes.arguments hlocs hargs p
  rw [← hmeaning] at hm
  rw [← hlen] at hp harity
  rw [← hlen, ← hshows]
  -- the machines with the result on the operand stack, as if the other one had stayed for it
  have hresult := (h.add (.boxed value)).operate (free + locs.length) (append_old hs₀)
    (.cons (h.nodes.image_new (k := 0) rfl) (hrest.mono _)) h.pc
    (congrArg (· ++ p.shows args.reverse) h.output)
  have hother : ∀ {l : Loc} {n m : Node}, c'.stack ≠ l → c'.nodes[l]? = some n →
      ((c'.nodes ++ [Node.boxed value]).set c'.stack m)[l]? = some n :=
    fun hl hn => (List.getElem?_set_ne hl).trans (append_old hn)
  have hback := hresult.return_to hreturns
    (List.getElem?_set_self (List.getElem?_eq_some_iff.mp (append_old hs)).1) hc
    (fun l hl => (hb l hl).imp fun env hn => hother (ne_of_kind hs hn (by simp [Node.kind])) hn)
    (hother (ne_of_kind hs hframe (by simp [Node.kind])) hframe) (hother hne hstack)
  simp only [List.set_set] at hback
  exact .after (.callPrimitive hp hs₀ (h.nodes.primitive him hcallee) hid harity hargs hm) hback

end

end

/-! ### Every move -/

/-- **Each move of the machine with tail calls is one or more of the plain one.** -/
theorem move (h : Tracks plain program w saved c c') (hm : Move program c' d') :
    KeepsUp plain program c d' := by
  cases hm with
  | loadConstant hi hs => exact h.loadConstant hi hs
  | load hi hwalk henv hv hs => exact h.load hi hwalk henv hv hs
  | assign hi hwalk henv hlt hs => exact h.assign hi hwalk henv hlt hs
  | pop hi hs => exact h.pop hi hs
  | jump hi => exact h.jump hi
  | jumpIfFalse hi hs hl => exact h.jumpIfFalse hi hs hl
  | enterScope hi henv => exact h.enterScope hi henv
  | exitScope hi hc hframe => exact h.exitScope hi hc hframe
  | loadFunction hi henv hs => exact h.loadFunction hi henv hs
  | callPrimitive hi hs hcallee hid harity hargs hm =>
    exact h.callPrimitive hi hs hcallee hid harity hargs hm
  | tailCallPrimitive hi hs hcallee hid harity hargs hm hc hb hframe hstack hne =>
    exact h.tailCallPrimitive hi hs hcallee hid harity hargs hm hc hb hframe hstack hne
  | callClosure hi hs hcallee henv hcurrent => exact h.callClosure hi hs hcallee henv hcurrent
  | tailCallClosure hi hs hcallee henv hcurrent hc hb hframe hk =>
    exact h.tailCallClosure hi hs hcallee henv hcurrent hc hb hframe hk
  | ret hi hs hc hb hframe hstack hne => exact h.ret hi hs hc hb hframe hstack

/-! ## The end -/

/-- A call of the one machine is a call of the other. -/
theorem call_code (h : Tracks plain program w saved c c') {tail : Bool} {n : Nat}
    (hi : program.code[c'.pc]? = some (callInstruction tail n)) :
    plain.code[c.pc]? = some (callInstruction false n) := by
  cases tail with
  | false => exact (h.pc.of_straight hi trivial).1
  | true => exact (h.pc.of_tailCall hi).1

/-- **What the one machine refuses, the other one refuses too.** -/
theorem refusal (h : Tracks plain program w saved c c') {fault : Fault} (hr : Refusal program c' fault) :
    Refusal plain c fault := by
  cases hr with
  | unassignedName hi hwalk henv hv =>
    obtain ⟨env, hwalk, him⟩ := h.nodes.outward h.env hwalk
    obtain ⟨slots, outer, henv, hslots, -⟩ := h.nodes.environment him henv
    obtain ⟨o, ho, hrel⟩ := slot_image hslots hv
    cases hrel
    exact .unassignedName (h.pc.of_straight hi trivial).1 hwalk henv ho
  | notBoolean hi hs ha hb =>
    obtain ⟨target, hp, -, -⟩ := h.pc.of_jumpIfFalse hi
    obtain ⟨operands, hs, hops⟩ := h.nodes.operands h.stack hs
    obtain ⟨l, rest, him, -, rfl⟩ := List.forall₂_cons_right_iff.mp hops
    obtain ⟨a, ha, halike⟩ := h.nodes.hasArgument him ha
    rw [← halike.typeName]
    refine .notBoolean hp hs ha ?_
    rintro b rfl
    cases halike
    exact hb b rfl
  | notAFunction hi hs hcallee =>
    obtain ⟨operands, hs, hops⟩ := h.nodes.operands h.stack hs
    obtain ⟨locs, callee, rest, rfl, hlen, -, him, -⟩ := images_call hops
    exact .notAFunction (hlen ▸ h.call_code hi) hs (h.nodes.boxed him hcallee)
  | primitive hi hs hcallee hid harity hargs hm =>
    obtain ⟨operands, hs, hops⟩ := h.nodes.operands h.stack hs
    obtain ⟨locs, callee, rest, rfl, hlen, hlocs, him, -⟩ := images_call hops
    obtain ⟨args, hargs, hmeaning, -⟩ := h.nodes.arguments hlocs hargs _
    exact .primitive (hlen ▸ h.call_code hi) hs (h.nodes.primitive him hcallee) hid
      (harity.trans hlen.symm) hargs (hmeaning.trans hm)
  | primitiveArity hi hs hcallee hid harity =>
    obtain ⟨operands, hs, hops⟩ := h.nodes.operands h.stack hs
    obtain ⟨locs, callee, rest, rfl, hlen, -, him, -⟩ := images_call hops
    rw [← hlen] at hi harity ⊢
    exact .primitiveArity (h.call_code hi) hs (h.nodes.primitive him hcallee) hid harity
  | closureArity hi hs hcallee harity =>
    obtain ⟨operands, hs, hops⟩ := h.nodes.operands h.stack hs
    obtain ⟨locs, callee, rest, rfl, hlen, -, him, -⟩ := images_call hops
    obtain ⟨env, entry, hcallee, -, -⟩ := h.nodes.closure him hcallee
    rw [← hlen] at hi harity ⊢
    exact .closureArity (h.call_code hi) hs hcallee harity

/-- **The machines give the same answer.** -/
theorem finish (h : Tracks plain program w saved c c') {answer : Answer}
    (hf : Finish program c' answer) : Finish plain c answer := by
  cases hf with
  | done hi hs ha =>
    obtain ⟨operands, hs, hops⟩ := h.nodes.operands h.stack hs
    obtain ⟨l, rest, him, hrest, rfl⟩ := List.forall₂_cons_right_iff.mp hops
    cases hrest
    obtain ⟨a, ha, halike⟩ := h.nodes.hasArgument him ha
    rw [← halike.answer]
    exact .done (h.pc.of_done hi) hs ha

end Tracks

end

end ClosureMachine.Ideal
