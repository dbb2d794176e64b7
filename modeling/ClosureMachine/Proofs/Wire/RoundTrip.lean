import Mathlib.Order.Lattice
import ClosureMachine.Proofs.Wire.Fields

/-!
# Trees as bytes and back

The decoder for trees takes the bytes of a tree from the front of any input, and of a part of these bytes it says
that the input has come to its end. So a tree can be read back, two trees never have the same bytes, and the
bytes of one are never the beginning of those of another one.

Lengths are written in 64 bits. `Tree.Sized` says that those in a tree are small enough.
-/

set_option autoImplicit false

namespace ClosureMachine

open Wire

/-! ## What is asked of a tree -/

/-- The text can be written. -/
def Wire.Sized (s : String) : Prop := s.utf8ByteSize < 2 ^ 64

def Literal.Sized : Literal → Prop
  | .string s => Wire.Sized s
  | _ => True

namespace Tree

mutual

/-- All texts and lists in the tree have lengths below `2 ^ 64`. -/
def Sized : Tree → Prop
  | .literal value => value.Sized
  | .identifier name => Wire.Sized name
  | .binary operator left right => Wire.Sized operator ∧ left.Sized ∧ right.Sized
  | .unary operator operand => Wire.Sized operator ∧ operand.Sized
  | .logical operator left right => Wire.Sized operator ∧ left.Sized ∧ right.Sized
  | .conditional predicate consequent alternative =>
    predicate.Sized ∧ consequent.Sized ∧ alternative.Sized
  | .lambda parameters body =>
    (parameters.length < 2 ^ 64 ∧ ∀ s ∈ parameters, Wire.Sized s) ∧ body.Sized
  | .application function arguments =>
    function.Sized ∧ arguments.length < 2 ^ 64 ∧ AllSized arguments
  | .sequence statements => statements.length < 2 ^ 64 ∧ AllSized statements
  | .block body => body.Sized
  | .declaration name value _ => Wire.Sized name ∧ value.Sized
  | .assignment name value => Wire.Sized name ∧ value.Sized
  | .functionDeclaration name parameters body =>
    Wire.Sized name ∧ (parameters.length < 2 ^ 64 ∧ ∀ s ∈ parameters, Wire.Sized s) ∧ body.Sized
  | .ret expression => expression.Sized

def AllSized : List Tree → Prop
  | [] => True
  | t :: rest => t.Sized ∧ AllSized rest

end

mutual

/-- The number of trees inside one another. -/
def depth : Tree → Nat
  | .literal _ | .identifier _ => 1
  | .binary _ left right | .logical _ left right => max left.depth right.depth + 1
  | .conditional predicate consequent alternative =>
    max predicate.depth (max consequent.depth alternative.depth) + 1
  | .application function arguments => max function.depth (depthAll arguments) + 1
  | .sequence statements => depthAll statements + 1
  | .unary _ t | .lambda _ t | .block t | .declaration _ t _ | .assignment _ t
  | .functionDeclaration _ _ t | .ret t => t.depth + 1

def depthAll : List Tree → Nat
  | [] => 0
  | t :: rest => max t.depth (depthAll rest)

end

end Tree

/-! ## Reading trees -/

theorem Wire.Reads.starved {α : Type} (a : α) (bytes : List UInt8) :
    Reads False (throw .endOfInput) a bytes :=
  ⟨False.elim, fun _ _ => rfl, fun _ _ _ _ => rfl⟩

theorem Literal.reads {value : Literal} (h : value.Sized) :
    Reads True Literal.read value value.encode := by
  cases value with
  | number n => exact ((reads_variant (by decide)).bind ((reads_bits n.bits).map _)).iff (by simp)
  | boolean b => exact ((reads_variant (by decide)).bind ((reads_boolean b).map _)).iff (by simp)
  | string s => exact ((reads_variant (by decide)).bind ((reads_text h).map _)).iff (by simp)
  | undefined => exact (reads_variant (by decide)).last rfl
  | null => exact (reads_variant (by decide)).last rfl

namespace Tree

mutual

theorem reads : (t : Tree) → t.Sized → (bound : Nat) →
    Reads (t.depth ≤ bound) (read bound) t t.encode
  | t, _, 0 => (Reads.starved t t.encode).iff (by cases t <;> simp [depth])
  | .literal value, h, bound + 1 => by
    rw [encode]
    exact ((reads_variant (by decide)).bind ((Literal.reads h).map _)).iff (by simp [depth])
  | .identifier name, h, bound + 1 => by
    rw [encode]
    exact ((reads_variant (by decide)).bind ((reads_text h).map _)).iff (by simp [depth])
  | .binary operator left right, h, bound + 1 => by
    simp only [encode, List.append_assoc]
    exact ((reads_variant (by decide)).bind ((reads_text h.1).bind ((left.reads h.2.1 bound).bind
      ((right.reads h.2.2 bound).map _)))).iff (by simp [depth])
  | .unary operator operand, h, bound + 1 => by
    simp only [encode, List.append_assoc]
    exact ((reads_variant (by decide)).bind ((reads_text h.1).bind
      ((operand.reads h.2 bound).map _))).iff (by simp [depth])
  | .logical operator left right, h, bound + 1 => by
    simp only [encode, List.append_assoc]
    exact ((reads_variant (by decide)).bind ((reads_text h.1).bind ((left.reads h.2.1 bound).bind
      ((right.reads h.2.2 bound).map _)))).iff (by simp [depth])
  | .conditional predicate consequent alternative, h, bound + 1 => by
    simp only [encode, List.append_assoc]
    exact ((reads_variant (by decide)).bind ((predicate.reads h.1 bound).bind
      ((consequent.reads h.2.1 bound).bind ((alternative.reads h.2.2 bound).map _)))).iff
        (by simp [depth])
  | .lambda parameters body, h, bound + 1 => by
    simp only [encode, List.append_assoc]
    exact ((reads_variant (by decide)).bind ((reads_texts h.1.1 h.1.2).bind
      ((body.reads h.2 bound).map _))).iff (by simp [depth])
  | .application function arguments, h, bound + 1 => by
    simp only [encode, List.append_assoc]
    exact ((reads_variant (by decide)).bind ((function.reads h.1 bound).bind
      (((reads_length h.2.1).bind (readsAll arguments h.2.2 bound)).map _))).iff (by simp [depth])
  | .sequence statements, h, bound + 1 => by
    simp only [encode, List.append_assoc]
    exact ((reads_variant (by decide)).bind
      (((reads_length h.1).bind (readsAll statements h.2 bound)).map _)).iff (by simp [depth])
  | .block body, h, bound + 1 => by
    rw [encode]
    exact ((reads_variant (by decide)).bind ((body.reads h bound).map _)).iff (by simp [depth])
  | .declaration name value constant, h, bound + 1 => by
    simp only [encode, List.append_assoc]
    exact ((reads_variant (by decide)).bind ((reads_text h.1).bind ((value.reads h.2 bound).bind
      ((reads_boolean constant).map _)))).iff (by simp [depth])
  | .assignment name value, h, bound + 1 => by
    simp only [encode, List.append_assoc]
    exact ((reads_variant (by decide)).bind ((reads_text h.1).bind
      ((value.reads h.2 bound).map _))).iff (by simp [depth])
  | .functionDeclaration name parameters body, h, bound + 1 => by
    simp only [encode, List.append_assoc]
    exact ((reads_variant (by decide)).bind ((reads_text h.1).bind
      ((reads_texts h.2.1.1 h.2.1.2).bind ((body.reads h.2.2 bound).map _)))).iff (by simp [depth])
  | .ret expression, h, bound + 1 => by
    rw [encode]
    exact ((reads_variant (by decide)).bind ((expression.reads h bound).map _)).iff (by simp [depth])

theorem readsAll : (ts : List Tree) → AllSized ts → (bound : Nat) →
    Reads (depthAll ts ≤ bound) (readMany (read bound) ts.length) ts (encodeAll ts)
  | [], _, bound => (Reads.pure []).iff (by simp [depthAll])
  | t :: rest, h, bound => by
    rw [encodeAll]
    exact ((t.reads h.1 bound).bind ((readsAll rest h.2 bound).map _)).iff (by simp [depthAll])

end

/-! ## Bytes are enough -/

theorem length_variant {n : Nat} (h : n < 128) : (varint n).length = 1 := by
  rw [varint, if_pos h]
  rfl

mutual

/-- Each tree takes a byte before the trees in it begin, so there are at least as many bytes as trees
inside one another. -/
theorem depth_le_length : (t : Tree) → t.depth ≤ t.encode.length
  | .literal _ | .identifier _ => by
    simp [depth, encode, length_variant]
  | .binary _ left right | .logical _ left right => by
    have hl := left.depth_le_length
    have hr := right.depth_le_length
    simp [depth, encode, length_variant]
    omega
  | .conditional predicate consequent alternative => by
    have hp := predicate.depth_le_length
    have hc := consequent.depth_le_length
    have ha := alternative.depth_le_length
    simp [depth, encode, length_variant]
    omega
  | .application function arguments => by
    have hf := function.depth_le_length
    have ha := depthAll_le_length arguments
    simp [depth, encode, length_variant]
    omega
  | .sequence statements => by
    have hs := depthAll_le_length statements
    simp [depth, encode, length_variant]
    omega
  | .unary _ t | .lambda _ t | .block t | .declaration _ t _ | .assignment _ t
  | .functionDeclaration _ _ t | .ret t => by
    have ht := t.depth_le_length
    simp [depth, encode, length_variant]
    omega

theorem depthAll_le_length : (ts : List Tree) → depthAll ts ≤ (encodeAll ts).length
  | [] => Nat.le_refl 0
  | t :: rest => by
    have ht := t.depth_le_length
    have hrest := depthAll_le_length rest
    simp [depthAll, encodeAll]
    omega

end

/-! ## Whole inputs -/

section

variable {t t' : Tree}

theorem decode_append (h : t.Sized) (rest : List UInt8) : decode (t.encode ++ rest) = .ok t := by
  have hbound : t.depth ≤ (t.encode ++ rest).length := by
    rw [List.length_append]
    exact Nat.le_add_right_of_le t.depth_le_length
  have hread := (t.reads h (t.encode ++ rest).length).whole hbound rest
  rw [decode, decodeFront, StateT.run, hread]
  rfl

theorem decode_front (h : t.Sized) {front back : List UInt8} (heq : t.encode = front ++ back)
    (hback : back ≠ []) : decode front = .error .endOfInput := by
  have hread := (t.reads h front.length).cut heq hback
  rw [decode, decodeFront, StateT.run, hread]
  rfl

/-- The tree is read from its bytes, whatever follows, so no other tree has them, be it as its own or
at its beginning. -/
theorem encode_prefix_iff (h : t.Sized) (h' : t'.Sized) : t.encode <+: t'.encode ↔ t = t' := by
  constructor
  · rintro ⟨back, heq⟩
    have hread := decode_append h back
    have hread' := decode_append h' []
    rw [heq] at hread
    rw [List.append_nil, hread] at hread'
    exact Except.ok.inj hread'
  · rintro rfl
    exact List.prefix_refl _

end

/-- **Trees are read back from their bytes, and the bytes tell where they end.** A tree is decoded from any input
that starts with its bytes. An input that ends too early is refused for just that, wherever it ends. So a
tree is known by its bytes, and they are not the beginning of those of another one. -/
theorem decode_encode {t : Tree} (h : t.Sized) :
    (∀ rest, decode (t.encode ++ rest) = .ok t) ∧
    (∀ front back, t.encode = front ++ back → back ≠ [] → decode front = .error .endOfInput) ∧
    (∀ t' : Tree, t'.Sized → t'.encode = t.encode → t' = t) ∧
    ∀ t' : Tree, t'.Sized → t.encode <+: t'.encode → t'.encode = t.encode := by
  refine ⟨decode_append h, fun front back => decode_front h, fun t' h' heq => ?_,
    fun t' h' hprefix => ?_⟩
  · exact (encode_prefix_iff h' h).mp (heq ▸ List.prefix_refl _)
  · rw [(encode_prefix_iff h h').mp hprefix]

/-- A function with a text of two bytes for one character, called without an argument. -/
theorem decode_encode_call :
    let t : Tree := .application (.lambda [] (.ret (.literal (.string "é")))) []
    t.encode = [7, 6, 0, 13, 0, 2, 2, 195, 169, 0] ∧
      decode [7, 6, 0, 13, 0, 2, 2, 195, 169, 0, 255] = .ok t ∧
      decode [7, 6, 0, 13, 0, 2, 2, 195] = .error .endOfInput := by
  intro t
  have htext : "é".utf8ByteSize < 2 ^ 64 := by decide
  have hsized : t.Sized := by
    simpa [t, Sized, AllSized, Literal.Sized, Wire.Sized] using htext
  have hencode : t.encode = [7, 6, 0, 13, 0, 2, 2, 195, 169, 0] := by
    decide +kernel
  obtain ⟨hwhole, hcut, -, -⟩ := decode_encode hsized
  rw [hencode] at hwhole hcut
  exact ⟨hencode, hwhole [255], hcut _ [169, 0] rfl (by simp)⟩

end Tree

end ClosureMachine
