import ClosureMachine.Proofs.Ideal.Moves
import ClosureMachine.Proofs.Ideal.Later
import ClosureMachine.Proofs.Tail.Plain

/-!
# Two machines and their nodes

The plain program and the one with tail calls run side by side. Every node of the second machine has an image
among those of the first, which is the same node up to images; `w` lists the images, place by place. The
first machine has nodes besides: the frames of callers that a tail call would not have kept.
-/

set_option autoImplicit false

namespace ClosureMachine

/-! ## Addresses, seen from one side -/

section

variable {plain program : Program} {a b : Nat}

theorem Agree.of_straight {i : Instruction} (h : Agree plain program a b)
    (hi : program.code[b]? = some i) (hs : i.Straight) :
    plain.code[a]? = some i ∧ Agree plain program (a + 1) (b + 1) := by
  cases h with
  | straight hp hi' _ next =>
    cases hi.symm.trans hi'
    exact ⟨hp, next⟩
  | jumpIfFalse _ hi' | jump _ hi' | loadFunction _ hi' | ret _ hi' | tailCall _ _ hi' | done _ hi' =>
    cases hi.symm.trans hi'
    exact hs.elim

theorem Agree.of_jumpIfFalse {target' : Nat} (h : Agree plain program a b)
    (hi : program.code[b]? = some (.jumpIfFalse target')) :
    ∃ target, plain.code[a]? = some (.jumpIfFalse target) ∧ Agree plain program (a + 1) (b + 1) ∧
      Agree plain program target target' := by
  cases h with
  | jumpIfFalse hp hi' next other =>
    cases hi.symm.trans hi'
    exact ⟨_, hp, next, other⟩
  | straight _ hi' hs =>
    cases hi.symm.trans hi'
    exact hs.elim
  | jump _ hi' | loadFunction _ hi' | ret _ hi' | tailCall _ _ hi' | done _ hi' =>
    cases hi.symm.trans hi'

theorem Agree.of_jump {target' : Nat} (h : Agree plain program a b)
    (hi : program.code[b]? = some (.jump target')) :
    ∃ target, plain.code[a]? = some (.jump target) ∧ Agree plain program target target' := by
  cases h with
  | jump hp hi' next =>
    cases hi.symm.trans hi'
    exact ⟨_, hp, next⟩
  | straight _ hi' hs =>
    cases hi.symm.trans hi'
    exact hs.elim
  | jumpIfFalse _ hi' | loadFunction _ hi' | ret _ hi' | tailCall _ _ hi' | done _ hi' =>
    cases hi.symm.trans hi'

theorem Agree.of_loadFunction {arity entry' stack : Nat} (h : Agree plain program a b)
    (hi : program.code[b]? = some (.loadFunction arity entry' stack)) :
    ∃ entry, plain.code[a]? = some (.loadFunction arity entry stack) ∧
      Agree plain program entry entry' ∧ Agree plain program (a + 1) (b + 1) := by
  cases h with
  | loadFunction hp hi' body next =>
    cases hi.symm.trans hi'
    exact ⟨_, hp, body, next⟩
  | straight _ hi' hs =>
    cases hi.symm.trans hi'
    exact hs.elim
  | jumpIfFalse _ hi' | jump _ hi' | ret _ hi' | tailCall _ _ hi' | done _ hi' =>
    cases hi.symm.trans hi'

theorem Agree.of_ret (h : Agree plain program a b) (hi : program.code[b]? = some .ret) :
    Returns plain a := by
  cases h with
  | ret hp _ => exact hp
  | straight _ hi' hs =>
    cases hi.symm.trans hi'
    exact hs.elim
  | jumpIfFalse _ hi' | jump _ hi' | loadFunction _ hi' | tailCall _ _ hi' | done _ hi' =>
    cases hi.symm.trans hi'

theorem Agree.of_tailCall {n : Nat} (h : Agree plain program a b)
    (hi : program.code[b]? = some (.tailCall n)) :
    plain.code[a]? = some (.call n) ∧ Returns plain (a + 1) := by
  cases h with
  | tailCall hp behind hi' =>
    cases hi.symm.trans hi'
    exact ⟨hp, behind⟩
  | straight _ hi' hs =>
    cases hi.symm.trans hi'
    exact hs.elim
  | jumpIfFalse _ hi' | jump _ hi' | loadFunction _ hi' | ret _ hi' | done _ hi' =>
    cases hi.symm.trans hi'

theorem Agree.of_done (h : Agree plain program a b) (hi : program.code[b]? = some .done) :
    plain.code[a]? = some .done := by
  cases h with
  | done hp _ => exact hp
  | straight _ hi' hs =>
    cases hi.symm.trans hi'
    exact hs.elim
  | jumpIfFalse _ hi' | jump _ hi' | loadFunction _ hi' | ret _ hi' | tailCall _ _ hi' =>
    cases hi.symm.trans hi'

end

namespace Ideal

/-! ## Nodes and their images -/

/-- The plain machine's node `l` is the image of the other one's `l'`. -/
def Image (w : List Loc) (l l' : Loc) : Prop := w[l']? = some l

abbrev Images (w : List Loc) : List Loc → List Loc → Prop := List.Forall₂ (Image w)

/-- The same node, up to images and to addresses that agree. -/
inductive SameNode (plain program : Program) (w : List Loc) : (n n' : Node) → Prop
  | environment {slots slots' : List (Option Loc)} {outer outer' : Option Loc}
      (hslots : List.Forall₂ (Option.Rel (Image w)) slots slots')
      (houter : Option.Rel (Image w) outer outer') :
      SameNode plain program w (.environment slots outer) (.environment slots' outer')
  | closure {env env' : Option Loc} {entry entry' : Nat} (arity stack : Nat)
      (henv : Option.Rel (Image w) env env') (hentry : Agree plain program entry entry') :
      SameNode plain program w (.closure env arity entry stack) (.closure env' arity entry' stack)
  | primitive (id : Nat) : SameNode plain program w (.primitive id) (.primitive id)
  | callFrame {env env' stack stack' : Option Loc} {address address' : Nat}
      (henv : Option.Rel (Image w) env env') (hstack : Option.Rel (Image w) stack stack')
      (haddress : Agree plain program address address') :
      SameNode plain program w (.callFrame env stack address) (.callFrame env' stack' address')
  | blockFrame {env env' : Option Loc} (henv : Option.Rel (Image w) env env') :
      SameNode plain program w (.blockFrame env) (.blockFrame env')
  | operandStack {operands operands' : List Loc} (free : Nat) (hoperands : Images w operands operands') :
      SameNode plain program w (.operandStack operands free) (.operandStack operands' free)
  | boxed (value : Literal) : SameNode plain program w (.boxed value) (.boxed value)

section

variable {plain program : Program} {w more : List Loc} {l l' : Loc} {n n' : Node}

theorem Image.mono (h : Image w l l') (more : List Loc) : Image (w ++ more) l l' := by
  have hlt : l' < w.length := (List.getElem?_eq_some_iff.mp h).1
  exact (List.getElem?_append_left hlt).trans h

theorem Image.unique {k : Loc} (h : Image w l l') (h' : Image w k l') : l = k :=
  Option.some.inj (h.symm.trans h')

theorem Images.mono {ls ls' : List Loc} (h : Images w ls ls') (more : List Loc) :
    Images (w ++ more) ls ls' :=
  h.imp fun _ _ him => him.mono more

theorem relMono {o o' : Option Loc} (h : Option.Rel (Image w) o o') (more : List Loc) :
    Option.Rel (Image (w ++ more)) o o' := by
  cases h with
  | none => exact .none
  | some him => exact .some (him.mono more)

theorem SameNode.mono (h : SameNode plain program w n n') (more : List Loc) :
    SameNode plain program (w ++ more) n n' := by
  cases h with
  | environment hslots houter =>
    exact .environment (hslots.imp fun _ _ hslot => relMono hslot more) (relMono houter more)
  | closure arity stack henv hentry => exact .closure arity stack (relMono henv more) hentry
  | primitive id => exact .primitive id
  | callFrame henv hstack haddress => exact .callFrame (relMono henv more) (relMono hstack more) haddress
  | blockFrame henv => exact .blockFrame (relMono henv more)
  | operandStack free hoperands => exact .operandStack free (hoperands.mono more)
  | boxed value => exact .boxed value

theorem SameNode.kind (h : SameNode plain program w n n') : n.kind = n'.kind := by
  cases h <;> rfl

end

/-- Each node of the second list is that of its image in the first, and no two have the same image. -/
structure SameNodes (plain program : Program) (w : List Loc) (nodes nodes' : List Node) : Prop where
  length : w.length = nodes'.length
  nodup : w.Nodup
  node : ∀ ⦃l l' : Loc⦄ ⦃n' : Node⦄, Image w l l' → nodes'[l']? = some n' →
    ∃ n, nodes[l]? = some n ∧ SameNode plain program w n n'

/-- A way outward that leads on begins at an environment that has another one around it. -/
theorem outward_succ {nodes : List Node} {env env' : Loc} {frames : Nat}
    (h : outward env (frames + 1) nodes = .ok (some env') nodes) :
    ∃ slots outer, nodes[env]? = some (.environment slots (some outer)) ∧
      outward outer frames nodes = .ok (some env') nodes := by
  cases hn : nodes[env]? with
  | none => simp [outward, Actions.bind_apply, look, hn] at h
  | some n =>
    cases n with
    | environment slots outer =>
      cases outer with
      | none =>
        rw [outward_outermost hn] at h
        cases h
      | some outer =>
        rw [outward_enclosed hn] at h
        exact ⟨slots, outer, rfl, h⟩
    | _ => simp [outward, Actions.bind_apply, look, hn, Node.enclosing?] at h

namespace SameNodes

variable {plain program : Program} {w : List Loc} {nodes nodes' : List Node} {l l' : Loc} {n n' : Node}

theorem image (h : SameNodes plain program w nodes nodes') (hn : nodes'[l']? = some n') :
    ∃ l, Image w l l' := by
  have hlt : l' < w.length := h.length ▸ (List.getElem?_eq_some_iff.mp hn).1
  exact ⟨_, List.getElem?_eq_getElem hlt⟩

/-- Whatever has an image is a node, and so is the image. -/
theorem lt (h : SameNodes plain program w nodes nodes') (him : Image w l l') :
    l < nodes.length ∧ l' < nodes'.length := by
  have hlt : l' < nodes'.length := h.length ▸ (List.getElem?_eq_some_iff.mp him).1
  obtain ⟨n, hn, -⟩ := h.node him (List.getElem?_eq_getElem hlt)
  exact ⟨(List.getElem?_eq_some_iff.mp hn).1, hlt⟩

theorem image_iff {k k' : Loc} (h : SameNodes plain program w nodes nodes') (him : Image w l l')
    (him' : Image w k k') : l = k ↔ l' = k' := by
  obtain ⟨hlt, rfl⟩ := List.getElem?_eq_some_iff.mp him
  obtain ⟨hlt', rfl⟩ := List.getElem?_eq_some_iff.mp him'
  exact h.nodup.getElem_inj_iff

/-- A node and its image change. -/
theorem set (h : SameNodes plain program w nodes nodes') (him : Image w l l')
    (hn : SameNode plain program w n n') :
    SameNodes plain program w (nodes.set l n) (nodes'.set l' n') where
  length := h.length.trans List.length_set.symm
  nodup := h.nodup
  node := by
    intro k k' m' hk hm'
    by_cases heq : l' = k'
    · subst heq
      obtain rfl := him.unique hk
      obtain ⟨hlt, hlt'⟩ := h.lt him
      rw [List.getElem?_set_self hlt'] at hm'
      cases hm'
      exact ⟨n, List.getElem?_set_self hlt, hn⟩
    · rw [List.getElem?_set_ne heq] at hm'
      have hne : l ≠ k := fun hlk => heq ((h.image_iff him hk).mp hlk)
      rw [List.getElem?_set_ne hne]
      exact h.node hk hm'

/-- Where the images of new nodes are. -/
theorem image_new (h : SameNodes plain program w nodes nodes') {more : List Loc} {k : Nat}
    (hk : more[k]? = some l) : Image (w ++ more) l (nodes'.length + k) := by
  rw [Image, ← h.length, List.getElem?_append_right (Nat.le_add_right _ _), Nat.add_sub_cancel_left, hk]

/-- Both machines make a node. -/
theorem add (h : SameNodes plain program w nodes nodes')
    (hn : SameNode plain program (w ++ [nodes.length]) n n') :
    SameNodes plain program (w ++ [nodes.length]) (nodes ++ [n]) (nodes' ++ [n']) where
  length := by simp [h.length]
  nodup := by
    refine List.nodup_append.mpr ⟨h.nodup, List.nodup_singleton _, ?_⟩
    intro k hk m hm
    rw [List.mem_singleton] at hm
    obtain ⟨k', hk'⟩ := List.mem_iff_getElem?.mp hk
    exact hm ▸ Nat.ne_of_lt (h.lt hk').1
  node := by
    intro k k' m' hk hm'
    by_cases hlt : k' < nodes'.length
    · have hk₀ : Image w k k' := by
        rwa [Image, List.getElem?_append_left (h.length ▸ hlt)] at hk
      rw [List.getElem?_append_left hlt] at hm'
      obtain ⟨m, hm, hsame⟩ := h.node hk₀ hm'
      exact ⟨m, (List.getElem?_append_left (h.lt hk₀).1).trans hm, hsame.mono _⟩
    · have hk' : k' = nodes'.length := by
        have hle := (List.getElem?_eq_some_iff.mp hm').1
        rw [List.length_append, List.length_singleton] at hle
        exact Nat.le_antisymm (Nat.lt_succ_iff.mp hle) (Nat.not_lt.mp hlt)
      subst hk'
      rw [List.getElem?_concat_length] at hm'
      cases hm'
      obtain rfl := hk.unique (h.image_new (k := 0) rfl)
      exact ⟨n, List.getElem?_concat_length .., hn⟩

/-- The plain machine makes nodes for itself. -/
theorem extra (h : SameNodes plain program w nodes nodes') (more : List Node) :
    SameNodes plain program w (nodes ++ more) nodes' where
  length := h.length
  nodup := h.nodup
  node := by
    intro k k' m' hk hm'
    obtain ⟨m, hm, hsame⟩ := h.node hk hm'
    exact ⟨m, (List.getElem?_append_left (h.lt hk).1).trans hm, hsame⟩

/-! ### What is found there -/

theorem environment (h : SameNodes plain program w nodes nodes') (him : Image w l l')
    {slots' : List (Option Loc)} {outer' : Option Loc}
    (hn : nodes'[l']? = some (.environment slots' outer')) :
    ∃ slots outer, nodes[l]? = some (.environment slots outer) ∧
      List.Forall₂ (Option.Rel (Image w)) slots slots' ∧ Option.Rel (Image w) outer outer' := by
  obtain ⟨n, hn, hsame⟩ := h.node him hn
  cases hsame with
  | environment hslots houter => exact ⟨_, _, hn, hslots, houter⟩

theorem operands (h : SameNodes plain program w nodes nodes') (him : Image w l l')
    {ops' : List Loc} {free : Nat} (hn : nodes'[l']? = some (.operandStack ops' free)) :
    ∃ ops, nodes[l]? = some (.operandStack ops free) ∧ Images w ops ops' := by
  obtain ⟨n, hn, hsame⟩ := h.node him hn
  cases hsame with
  | operandStack _ hops => exact ⟨_, hn, hops⟩

theorem boxed (h : SameNodes plain program w nodes nodes') (him : Image w l l') {value : Literal}
    (hn : nodes'[l']? = some (.boxed value)) : nodes[l]? = some (.boxed value) := by
  obtain ⟨n, hn, hsame⟩ := h.node him hn
  cases hsame with
  | boxed => exact hn

theorem primitive (h : SameNodes plain program w nodes nodes') (him : Image w l l') {id : Nat}
    (hn : nodes'[l']? = some (.primitive id)) : nodes[l]? = some (.primitive id) := by
  obtain ⟨n, hn, hsame⟩ := h.node him hn
  cases hsame with
  | primitive => exact hn

theorem closure (h : SameNodes plain program w nodes nodes') (him : Image w l l') {env' : Loc}
    {arity entry' stack : Nat} (hn : nodes'[l']? = some (.closure (some env') arity entry' stack)) :
    ∃ env entry, nodes[l]? = some (.closure (some env) arity entry stack) ∧ Image w env env' ∧
      Agree plain program entry entry' := by
  obtain ⟨n, hn, hsame⟩ := h.node him hn
  cases hsame with
  | closure _ _ henv hentry =>
    cases henv with
    | some henv => exact ⟨_, _, hn, henv, hentry⟩

theorem callFrame (h : SameNodes plain program w nodes nodes') (him : Image w l l') {env' stack' : Loc}
    {address' : Nat} (hn : nodes'[l']? = some (.callFrame (some env') (some stack') address')) :
    ∃ env stack address, nodes[l]? = some (.callFrame (some env) (some stack) address) ∧
      Image w env env' ∧ Image w stack stack' ∧ Agree plain program address address' := by
  obtain ⟨n, hn, hsame⟩ := h.node him hn
  cases hsame with
  | callFrame henv hstack haddress =>
    cases henv with
    | some henv =>
      cases hstack with
      | some hstack => exact ⟨_, _, _, hn, henv, hstack, haddress⟩

theorem blockFrame (h : SameNodes plain program w nodes nodes') (him : Image w l l') {env' : Loc}
    (hn : nodes'[l']? = some (.blockFrame (some env'))) :
    ∃ env, nodes[l]? = some (.blockFrame (some env)) ∧ Image w env env' := by
  obtain ⟨n, hn, hsame⟩ := h.node him hn
  cases hsame with
  | blockFrame henv =>
    cases henv with
    | some henv => exact ⟨_, hn, henv⟩

theorem isBlock (h : SameNodes plain program w nodes nodes') (him : Image w l l')
    (hn : ∃ env', nodes'[l']? = some (.blockFrame env')) : ∃ env, nodes[l]? = some (.blockFrame env) := by
  obtain ⟨env', hn'⟩ := hn
  obtain ⟨n, hn, hsame⟩ := h.node him hn'
  cases hsame with
  | blockFrame => exact ⟨_, hn⟩

/-- Addresses lead to an environment and its image. -/
theorem outward (h : SameNodes plain program w nodes nodes') {env' : Loc} {frames : Nat}
    (him : Image w l l') (hwalk : Ideal.outward l' frames nodes' = .ok (some env') nodes') :
    ∃ env, Ideal.outward l frames nodes = .ok (some env) nodes ∧ Image w env env' := by
  induction frames generalizing l l' with
  | zero =>
    cases hwalk
    exact ⟨l, rfl, him⟩
  | succ frames ih =>
    obtain ⟨slots', outer', hn', hrest⟩ := outward_succ hwalk
    obtain ⟨slots, outer, hn, -, houter⟩ := h.environment him hn'
    cases houter with
    | some houter =>
      rw [outward_enclosed hn]
      exact ih houter hrest

/-! ### Arguments -/

theorem oneToOne (h : SameNodes plain program w nodes nodes') : Argument.OneToOne (Image w) :=
  fun _ _ _ _ him him' => h.image_iff him him'

theorem hasArgument (h : SameNodes plain program w nodes nodes') (him : Image w l l') {a' : Argument}
    (ha : HasArgument nodes' l' a') : ∃ a, HasArgument nodes l a ∧ Argument.Alike (Image w) a a' := by
  obtain ⟨n', hn', ha⟩ := ha
  obtain ⟨n, hn, hsame⟩ := h.node him hn'
  cases hsame with
  | boxed value =>
    cases ha
    exact ⟨_, ⟨_, hn, rfl⟩, .literal value⟩
  | primitive id =>
    cases ha
    exact ⟨_, ⟨_, hn, rfl⟩, .primitive id⟩
  | closure arity stack henv hentry =>
    cases ha
    exact ⟨_, ⟨_, hn, rfl⟩, .function arity him⟩
  | environment | callFrame | blockFrame | operandStack => cases ha

theorem hasArguments (h : SameNodes plain program w nodes nodes') {locs locs' : List Loc}
    (him : Images w locs locs') {args' : List Argument}
    (hargs : List.Forall₂ (HasArgument nodes') locs' args') :
    ∃ args, List.Forall₂ (HasArgument nodes) locs args ∧
      List.Forall₂ (Argument.Alike (Image w)) args args' := by
  induction him generalizing args' with
  | nil =>
    cases hargs
    exact ⟨[], .nil, .nil⟩
  | cons him _ ih =>
    obtain ⟨a', args', ha', hrest, rfl⟩ := List.forall₂_cons_left_iff.mp hargs
    obtain ⟨a, ha, halike⟩ := h.hasArgument him ha'
    obtain ⟨args, hargs, halikes⟩ := ih hrest
    exact ⟨a :: args, .cons ha hargs, .cons halike halikes⟩

/-- A primitive finds the same arguments in both machines, as far as it can tell. -/
theorem arguments (h : SameNodes plain program w nodes nodes') {locs locs' : List Loc}
    (him : Images w locs locs') {args' : List Argument}
    (hargs : List.Forall₂ (HasArgument nodes') locs' args') (p : Primitive) :
    ∃ args, List.Forall₂ (HasArgument nodes) locs args ∧
      p.meaning args.reverse = p.meaning args'.reverse ∧ p.shows args.reverse = p.shows args'.reverse := by
  obtain ⟨args, hargs, halike⟩ := h.hasArguments him hargs
  have hreverse := List.forall₂_reverse_iff.mpr halike
  exact ⟨args, hargs, p.meaning_alike h.oneToOne hreverse, p.shows_alike hreverse⟩

end SameNodes

end Ideal

end ClosureMachine
