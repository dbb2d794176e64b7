import ClosureMachine.Proofs.Wire.Spellings

/-!
# The encoding of a tree is its shortest representation

Bytes that decode to a tree are a spelling of the pieces of the tree, with whatever stands behind them. So other bytes
than those of the encoding are accepted only if a number in them is padded, and then there are more of them.
-/

set_option autoImplicit false

namespace ClosureMachine

open Wire

/-! ## The pieces of trees -/

/-- The pieces of a literal. -/
def Literal.pieces : Literal → List Piece
  | .number value => [.number 0, .verbatim (Wire.bits value.bits)]
  | .boolean value => [.number 1, .verbatim (Wire.boolean value)]
  | .string s => .number 2 :: textPieces s
  | .undefined => [.number 3]
  | .null => [.number 4]

namespace Tree

mutual

/-- The pieces of a tree, of which the first one is the number of its variant. -/
def pieces : Tree → List Piece
  | .literal value => .number 0 :: value.pieces
  | .identifier name => .number 1 :: textPieces name
  | .binary operator left right => .number 2 :: textPieces operator ++ left.pieces ++ right.pieces
  | .unary operator operand => .number 3 :: textPieces operator ++ operand.pieces
  | .logical operator left right => .number 4 :: textPieces operator ++ left.pieces ++ right.pieces
  | .conditional predicate consequent alternative =>
    .number 5 :: predicate.pieces ++ consequent.pieces ++ alternative.pieces
  | .lambda parameters body => .number 6 :: listPieces textPieces parameters ++ body.pieces
  | .application function arguments =>
    .number 7 :: function.pieces ++ .number arguments.length :: piecesAll arguments
  | .sequence statements => .number 8 :: .number statements.length :: piecesAll statements
  | .block body => .number 9 :: body.pieces
  | .declaration name value constant =>
    .number 10 :: textPieces name ++ value.pieces ++ [.verbatim (Wire.boolean constant)]
  | .assignment name value => .number 11 :: textPieces name ++ value.pieces
  | .functionDeclaration name parameters body =>
    .number 12 :: textPieces name ++ listPieces textPieces parameters ++ body.pieces
  | .ret expression => .number 13 :: expression.pieces

/-- The pieces of several trees. -/
def piecesAll : List Tree → List Piece
  | [] => []
  | t :: rest => t.pieces ++ piecesAll rest

end

theorem piecesAll_eq (ts : List Tree) : piecesAll ts = ts.flatMap pieces := by
  induction ts with
  | nil => rfl
  | cons t rest ih => rw [piecesAll, ih, List.flatMap_cons]

theorem allSized_iff (ts : List Tree) : AllSized ts ↔ ∀ t ∈ ts, t.Sized := by
  induction ts with
  | nil => simp [AllSized]
  | cons t rest ih => rw [AllSized, ih, List.forall_mem_cons]

/-! ## Encodings -/

theorem bytes_text (s : String) : (textPieces s).flatMap Piece.bytes = text s := by
  simp [textPieces, Piece.bytes, text]

theorem bytes_texts (ss : List String) : (listPieces textPieces ss).flatMap Piece.bytes = texts ss := by
  rw [listPieces, List.flatMap_cons, List.flatMap_assoc, texts]
  simp only [bytes_text]
  rfl

theorem bytes_literal (value : Literal) : value.pieces.flatMap Piece.bytes = value.encode := by
  cases value with
  | string s => rw [Literal.pieces, List.flatMap_cons, bytes_text]; rfl
  | _ => simp [Literal.pieces, Literal.encode, Piece.bytes]

mutual

/-- A tree is encoded as its pieces are, one behind the other. -/
theorem encode_eq : (t : Tree) → t.encode = t.pieces.flatMap Piece.bytes
  | .literal value => by simp [encode, pieces, Piece.bytes, bytes_literal]
  | .identifier name => by simp [encode, pieces, Piece.bytes, bytes_text]
  | .binary operator left right | .logical operator left right => by
    simp [encode, pieces, Piece.bytes, bytes_text, left.encode_eq, right.encode_eq]
  | .unary operator operand => by simp [encode, pieces, Piece.bytes, bytes_text, operand.encode_eq]
  | .conditional predicate consequent alternative => by
    simp [encode, pieces, Piece.bytes, predicate.encode_eq, consequent.encode_eq, alternative.encode_eq]
  | .lambda parameters body => by simp [encode, pieces, Piece.bytes, bytes_texts, body.encode_eq]
  | .application function arguments => by
    simp [encode, pieces, Piece.bytes, function.encode_eq, encodeAll_eq arguments]
  | .sequence statements => by simp [encode, pieces, Piece.bytes, encodeAll_eq statements]
  | .block body => by simp [encode, pieces, Piece.bytes, body.encode_eq]
  | .declaration name value constant => by simp [encode, pieces, Piece.bytes, bytes_text, value.encode_eq]
  | .assignment name value => by simp [encode, pieces, Piece.bytes, bytes_text, value.encode_eq]
  | .functionDeclaration name parameters body => by
    simp [encode, pieces, Piece.bytes, bytes_text, bytes_texts, body.encode_eq]
  | .ret expression => by simp [encode, pieces, Piece.bytes, expression.encode_eq]

theorem encodeAll_eq : (ts : List Tree) → encodeAll ts = (piecesAll ts).flatMap Piece.bytes
  | [] => rfl
  | t :: rest => by rw [encodeAll, piecesAll, List.flatMap_append, t.encode_eq, encodeAll_eq rest]

end

end Tree

/-! ## What is read -/

theorem Literal.takes : Takes [] Literal.read Literal.pieces Literal.Sized := by
  refine .bind takes_variant fun variant _ => ?_
  split
  · exact .bind takes_bits fun _ _ => .pure trivial rfl
  · exact .bind takes_boolean fun _ _ => .pure trivial rfl
  · exact .bind takes_text fun _ hs => .pure hs rfl
  · exact .pure trivial rfl
  · exact .pure trivial rfl
  · exact .throw _

namespace Tree

theorem takes_texts : Takes [] (readList readText) (listPieces textPieces)
    (fun ss => ss.length < 2 ^ 64 ∧ ∀ s ∈ ss, Wire.Sized s) := takes_list takes_text

/-- What is read as a tree spells the pieces of the tree, however deep it may be. -/
theorem takes_read (bound : Nat) : Takes [] (read bound) pieces Sized := by
  induction bound with
  | zero => exact .throw _
  | succ bound part =>
    have parts : Takes [] (readList (read bound)) (fun ts => .number ts.length :: piecesAll ts)
        (fun ts => ts.length < 2 ^ 64 ∧ AllSized ts) := by
      refine .last (takes_list part) (fun ts _ => ?_) fun ts hts => ⟨hts.1, (allSized_iff ts).mpr hts.2⟩
      rw [piecesAll_eq]
      rfl
    refine .bind takes_variant fun variant _ => ?_
    split
    · exact .bind Literal.takes fun _ h => .pure h rfl
    · exact .bind takes_text fun _ h => .pure h rfl
    · exact .bind takes_text fun _ h => .bind part fun _ hl => .bind part fun _ hr => .pure ⟨h, hl, hr⟩ rfl
    · exact .bind takes_text fun _ h => .bind part fun _ ht => .pure ⟨h, ht⟩ rfl
    · exact .bind takes_text fun _ h => .bind part fun _ hl => .bind part fun _ hr => .pure ⟨h, hl, hr⟩ rfl
    · exact .bind part fun _ hp => .bind part fun _ hx => .bind part fun _ hy => .pure ⟨hp, hx, hy⟩ rfl
    · exact .bind takes_texts fun _ h => .bind part fun _ ht => .pure ⟨h, ht⟩ rfl
    · exact .bind part fun _ h => .bind parts fun _ hts => .pure ⟨h, hts⟩ rfl
    · exact .bind parts fun _ hts => .pure hts rfl
    · exact .bind part fun _ h => .pure h rfl
    · exact .bind takes_text fun _ h => .bind part fun _ ht => .bind takes_boolean fun _ _ => .pure ⟨h, ht⟩ rfl
    · exact .bind takes_text fun _ h => .bind part fun _ ht => .pure ⟨h, ht⟩ rfl
    · exact .bind takes_text fun _ h => .bind takes_texts fun _ hps => .bind part fun _ ht => .pure ⟨h, hps, ht⟩ rfl
    · exact .bind part fun _ h => .pure h rfl
    · exact .throw _

theorem exists_decodeFront {bytes : List UInt8} {t : Tree} (h : decode bytes = .ok t) :
    ∃ rest, decodeFront bytes = .ok (t, rest) := by
  unfold decode at h
  cases hfront : decodeFront bytes with
  | error e =>
    rw [hfront] at h
    cases h
  | ok out =>
    rw [hfront] at h
    cases h
    exact ⟨out.2, rfl⟩

theorem decodeFront_spells {bytes rest : List UInt8} {t : Tree} (h : decodeFront bytes = .ok (t, rest)) :
    t.Sized ∧ ∃ front, bytes = front ++ rest ∧ Spells t.pieces front := by
  obtain ⟨hsized, front, more, hbytes, hpieces, hspells⟩ := takes_read bytes.length h
  rw [List.nil_append] at hpieces
  exact ⟨hsized, front, hbytes, hpieces ▸ hspells⟩

/-- **The encoding of a tree is the unique shortest of its representations.** Bytes that are decoded to a tree begin with
a spelling of its pieces, in which nothing but numbers can differ from the encoding, and these only by padding. So the
encoding is not longer than what was read, and where it is as long, it is what was read. It is itself decoded to that
tree. -/
theorem encode_shortest {bytes : List UInt8} {t : Tree} (h : decode bytes = .ok t) :
    ∃ k ≤ bytes.length, decodeFront bytes = .ok (t, bytes.drop k) ∧
      t.encode = t.pieces.flatMap Piece.bytes ∧ Spells t.pieces (bytes.take k) ∧
      t.encode.length ≤ k ∧ (t.encode.length = k → bytes.take k = t.encode) ∧
      decode t.encode = .ok t := by
  obtain ⟨rest, hfront⟩ := exists_decodeFront h
  obtain ⟨hsized, front, rfl, hspells⟩ := decodeFront_spells hfront
  obtain ⟨hle, heq⟩ := hspells.shortest
  rw [← encode_eq] at hle heq
  have hback := decode_append hsized []
  rw [List.append_nil] at hback
  refine ⟨front.length, ?_, ?_, t.encode_eq, ?_, hle, fun hlength => ?_, hback⟩
  · rw [List.length_append]
    exact Nat.le_add_right ..
  · rw [List.drop_left]
    exact hfront
  · rw [List.take_left]
    exact hspells
  · rw [List.take_left]
    exact heq hlength

/-- A name of one character and two bytes. The length is padded to three bytes, and the last byte is not part of it. -/
theorem encode_shortest_name :
    decode [1, 0x82, 0x80, 0x00, 195, 169, 255] = .ok (.identifier "é") ∧
    (∃ k ≤ 7, decodeFront [1, 0x82, 0x80, 0x00, 195, 169, 255] =
      .ok (.identifier "é", [1, 0x82, 0x80, 0x00, 195, 169, 255].drop k) ∧
        (Tree.identifier "é").encode.length ≤ k) ∧
    (Tree.identifier "é").encode = [1, 2, 195, 169] ∧ decode [1, 2, 195, 169] = .ok (.identifier "é") := by
  have hread : decode [1, 0x82, 0x80, 0x00, 195, 169, 255] = .ok (.identifier "é") :=
    rfl
  have hencode : (Tree.identifier "é").encode = [1, 2, 195, 169] := by
    decide +kernel
  obtain ⟨k, hk, hfront, -, -, hle, -, hback⟩ := encode_shortest hread
  rw [hencode] at hback
  exact ⟨hread, ⟨k, hk, hfront, hle⟩, hencode, hback⟩

end Tree

end ClosureMachine
