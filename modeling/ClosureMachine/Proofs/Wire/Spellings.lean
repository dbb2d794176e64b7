import ClosureMachine.Proofs.Wire.RoundTrip

/-!
# What decoders accept

A tree is written as a row of pieces. Some of them are numbers, and a number can be written in more than one way, because
zero digits may follow its last one. The others can be written in one way only. A `Spelling` of a piece is any of the ways
to write it, and a row of pieces is spelled by spelling each of them.

`Takes` says of a decoder that what it takes from the front of an input is a spelling of the value that it gives. It does
not say which inputs are accepted, but whatever is accepted has been written in one of these ways. Since the shortest
spelling of a piece is the one in the encoding, and no other is as short, the same holds of a whole row.
-/

set_option autoImplicit false

namespace ClosureMachine

namespace Wire

variable {α β : Type}

/-! ## Spellings of pieces -/

/-- A number in `more + 1` bytes. Where it has fewer digits, zeros follow. -/
def padded : (more n : Nat) → List UInt8
  | 0, n => [n.toUInt8]
  | more + 1, n => (n % 128 + 128).toUInt8 :: padded more (n / 128)

/-- What encodings are made of. -/
inductive Piece where
  | number (n : Nat)
  | verbatim (bytes : List UInt8)

namespace Piece

/-- A piece as it is encoded. -/
def bytes : Piece → List UInt8
  | .number n => varint n
  | .verbatim bytes => bytes

/-- The piece, in one of the ways in which it may be written. -/
inductive Spelling : Piece → List UInt8 → Prop
  | number {n more : Nat} (h : n < 128 ^ (more + 1)) : Spelling (.number n) (padded more n)
  | verbatim (bytes : List UInt8) : Spelling (.verbatim bytes) bytes

end Piece

/-- The pieces, one behind the other, each in one of the ways in which it may be written. -/
inductive Spells : (pieces : List Piece) → List UInt8 → Prop
  | nil : Spells [] []
  | cons {piece : Piece} {pieces : List Piece} {front bytes : List UInt8} (h : piece.Spelling front)
      (rest : Spells pieces bytes) : Spells (piece :: pieces) (front ++ bytes)

theorem Spells.single {piece : Piece} {bytes : List UInt8} (h : piece.Spelling bytes) : Spells [piece] bytes := by
  rw [← List.append_nil bytes]
  exact .cons h .nil

theorem Spells.append {pieces pieces' : List Piece} {bytes bytes' : List UInt8} (h : Spells pieces bytes)
    (h' : Spells pieces' bytes') : Spells (pieces ++ pieces') (bytes ++ bytes') := by
  induction h with
  | nil => exact h'
  | cons hpiece _ ih =>
    rw [List.append_assoc]
    exact .cons hpiece ih

/-! ## The shortest spelling -/

theorem length_padded (more n : Nat) : (padded more n).length = more + 1 := by
  induction more generalizing n with
  | zero => rfl
  | succ more ih => rw [padded, List.length_cons, ih]

/-- A number is never shorter than in its encoding, and as short in no other way. -/
theorem length_varint_le {more n : Nat} (h : n < 128 ^ (more + 1)) :
    (varint n).length ≤ more + 1 ∧ ((varint n).length = more + 1 → padded more n = varint n) := by
  induction more generalizing n with
  | zero =>
    have hsmall : n < 128 := h
    rw [varint, if_pos hsmall]
    exact ⟨Nat.le_refl 1, fun _ => rfl⟩
  | succ more ih =>
    by_cases hsmall : n < 128
    · rw [varint, if_pos hsmall]
      exact ⟨Nat.le_add_left 1 _, fun heq => absurd heq (by simp)⟩
    · have hhigh : n / 128 < 128 ^ (more + 1) := by
        rw [Nat.div_lt_iff_lt_mul (by decide), ← Nat.pow_succ]
        exact h
      obtain ⟨hle, heq⟩ := ih hhigh
      rw [varint, if_neg hsmall, List.length_cons, padded]
      refine ⟨Nat.succ_le_succ hle, fun hlength => ?_⟩
      rw [heq (Nat.succ.inj hlength)]

theorem Piece.Spelling.shortest {piece : Piece} {bytes : List UInt8} (h : piece.Spelling bytes) :
    piece.bytes.length ≤ bytes.length ∧ (piece.bytes.length = bytes.length → bytes = piece.bytes) := by
  cases h with
  | number hn =>
    rw [length_padded]
    exact length_varint_le hn
  | verbatim bytes => exact ⟨Nat.le_refl _, fun _ => rfl⟩

/-- What one piece has too much, no other can make up for. -/
theorem Spells.shortest {pieces : List Piece} {bytes : List UInt8} (h : Spells pieces bytes) :
    (pieces.flatMap Piece.bytes).length ≤ bytes.length ∧
      ((pieces.flatMap Piece.bytes).length = bytes.length → bytes = pieces.flatMap Piece.bytes) := by
  induction h with
  | nil => exact ⟨Nat.le_refl 0, fun _ => rfl⟩
  | cons hpiece _ ih =>
    obtain ⟨hle, heq⟩ := hpiece.shortest
    obtain ⟨hles, heqs⟩ := ih
    rw [List.flatMap_cons, List.length_append, List.length_append]
    refine ⟨Nat.add_le_add hle hles, fun hlength => ?_⟩
    rw [← heq (by omega), ← heqs (by omega)]

/-! ## Decoders -/

/-- What the decoder takes spells the pieces of the value that it gives, except for those that have been read `before`;
and the value is a good one. -/
def Takes (before : List Piece) (d : Decoder α) (pieces : α → List Piece) (good : α → Prop) : Prop :=
  ∀ ⦃input : List UInt8⦄ ⦃a : α⦄ ⦃rest : List UInt8⦄, d input = .ok (a, rest) →
    good a ∧ ∃ front more, input = front ++ rest ∧ pieces a = before ++ more ∧ Spells more front

theorem of_bind_ok {d : Decoder α} {f : α → Decoder β} {s s'' : List UInt8} {b : β}
    (h : (d >>= f) s = .ok (b, s'')) : ∃ a s', d s = .ok (a, s') ∧ f a s' = .ok (b, s'') := by
  cases hd : d s with
  | error e =>
    rw [bind_error hd] at h
    cases h
  | ok out =>
    obtain ⟨a, s'⟩ := out
    rw [bind_ok hd] at h
    exact ⟨a, s', rfl, h⟩

namespace Takes

variable {before : List Piece} {d : Decoder α} {f : α → Decoder β} {pieces : α → List Piece}
  {pieces' : β → List Piece} {good : α → Prop} {good' : β → Prop}

theorem throw (e : WireError) : Takes before (throw e : Decoder α) pieces good := nofun

/-- There is nothing more to read. -/
theorem pure {a : α} (hgood : good a) (hpieces : pieces a = before) :
    Takes before (Pure.pure a : Decoder α) pieces good := by
  intro input a' rest h
  cases h
  exact ⟨hgood, [], [], rfl, by rw [hpieces, List.append_nil], .nil⟩

/-- One piece behind the other. -/
theorem bind (h : Takes [] d pieces good)
    (h' : ∀ a, good a → Takes (before ++ pieces a) (f a) pieces' good') : Takes before (d >>= f) pieces' good' := by
  intro input b rest hread
  obtain ⟨a, input', ha, hb⟩ := of_bind_ok hread
  obtain ⟨hgood, front, more, rfl, hpieces, hspells⟩ := h ha
  obtain ⟨hgood', front', more', rfl, hpieces', hspells'⟩ := h' a hgood hb
  refine ⟨hgood', front ++ front', more ++ more', (List.append_assoc ..).symm, ?_, hspells.append hspells'⟩
  rw [hpieces', hpieces, List.nil_append, List.append_assoc]

/-- The last piece. -/
theorem last {pieces' : α → List Piece} {good' : α → Prop} (h : Takes [] d pieces good)
    (hpieces : ∀ a, good a → pieces' a = before ++ pieces a) (hgood : ∀ a, good a → good' a) :
    Takes before d pieces' good' := by
  intro input a rest hread
  obtain ⟨ha, front, more, rfl, hmore, hspells⟩ := h hread
  exact ⟨hgood a ha, front, more, rfl, by rw [hpieces a ha, hmore, List.nil_append], hspells⟩

end Takes

/-! ## Numbers -/

theorem readDigits_cons {last bytes : Nat} (b : UInt8) (rest : List UInt8) :
    readDigits last (bytes + 1) (b :: rest) =
      (if b.toNat < 128 then
        if bytes = 0 ∧ last < b.toNat then throw .badVarint else Pure.pure b.toNat
      else readDigits last bytes >>= fun high => Pure.pure (b.toNat - 128 + 128 * high) : Decoder Nat) rest := rfl

/-- A number that is read fits its width, and its digits may be padded. -/
theorem of_readDigits {last bytes n : Nat} {input rest : List UInt8}
    (h : readDigits last (bytes + 1) input = .ok (n, rest)) :
    n < (last + 1) * 128 ^ bytes ∧ ∃ more, n < 128 ^ (more + 1) ∧ input = padded more n ++ rest := by
  induction bytes generalizing n input with
  | zero =>
    cases input with
    | nil => cases h
    | cons b input =>
      rw [readDigits_cons] at h
      split at h
      · next hsmall =>
        split at h
        · cases h
        · next hfits =>
          cases h
          refine ⟨by omega, 0, hsmall, ?_⟩
          simp [padded]
      · cases h
  | succ bytes ih =>
    cases input with
    | nil => cases h
    | cons b input =>
      rw [readDigits_cons] at h
      split at h
      · next hsmall =>
        -- the last digit comes early, so the bound on it is not asked
        rw [if_neg (by simp)] at h
        cases h
        refine ⟨?_, 0, hsmall, by simp [padded]⟩
        calc b.toNat < 128 := hsmall
          _ ≤ 128 ^ (bytes + 1) := Nat.le_self_pow (Nat.succ_ne_zero bytes) 128
          _ ≤ (last + 1) * 128 ^ (bytes + 1) := Nat.le_mul_of_pos_left _ (Nat.succ_pos last)
      · next hlarge =>
        obtain ⟨high, input', hhigh, hn⟩ := of_bind_ok h
        cases hn
        obtain ⟨hfits, more, hmore, rfl⟩ := ih hhigh
        have hb := b.toNat_lt
        have hdigit : (b.toNat - 128 + 128 * high) % 128 = b.toNat - 128 := by omega
        have hrest : (b.toNat - 128 + 128 * high) / 128 = high := by omega
        refine ⟨?_, more + 1, ?_, ?_⟩
        · rw [Nat.pow_succ, ← Nat.mul_assoc]
          omega
        · rw [Nat.pow_succ]
          omega
        · rw [padded, hdigit, hrest, Nat.sub_add_cancel (Nat.le_of_not_lt hlarge), List.cons_append]
          simp

theorem takes_length : Takes [] (readVarint lengthWidth) (fun n => [.number n]) (· < 2 ^ 64) := by
  intro input n rest h
  obtain ⟨hn, more, hmore, rfl⟩ := @of_readDigits _ 9 _ _ _ h
  exact ⟨by simpa [lengthWidth] using hn, _, _, rfl, rfl, .single (.number hmore)⟩

theorem takes_variant : Takes [] (readVarint variantWidth) (fun n => [.number n]) fun _ => True := by
  intro input n rest h
  obtain ⟨-, more, hmore, rfl⟩ := @of_readDigits _ 4 _ _ _ h
  exact ⟨trivial, _, _, rfl, rfl, .single (.number hmore)⟩

/-! ## Bytes -/

theorem of_splitFront {n : Nat} {xs front rest : List α} (h : splitFront n xs = some (front, rest)) :
    front.length = n ∧ xs = front ++ rest := by
  induction n generalizing xs front with
  | zero =>
    cases h
    exact ⟨rfl, rfl⟩
  | succ n ih =>
    cases xs with
    | nil => cases h
    | cons x xs =>
      obtain ⟨⟨front', rest'⟩, hsplit, heq⟩ := Option.map_eq_some_iff.mp h
      cases heq
      obtain ⟨rfl, rfl⟩ := ih hsplit
      exact ⟨rfl, rfl⟩

theorem takes_bytes (n : Nat) :
    Takes [] (readBytes n) (fun bytes => [.verbatim bytes]) (fun bytes => bytes.length = n) := by
  intro input bytes rest h
  cases hsplit : splitFront n input with
  | none =>
    rw [readBytes_of_none hsplit] at h
    cases h
  | some out =>
    obtain ⟨front, rest'⟩ := out
    rw [readBytes_of_some hsplit] at h
    cases h
    obtain ⟨hlength, rfl⟩ := of_splitFront hsplit
    exact ⟨hlength, _, _, rfl, rfl, .single (.verbatim _)⟩

theorem takes_boolean : Takes [] readBoolean (fun b => [.verbatim (boolean b)]) fun _ => True := by
  refine .bind (takes_bytes 1) fun bytes _ => ?_
  split
  · exact .pure trivial rfl
  · exact .pure trivial rfl
  · exact .throw _

/-- The bytes of a pattern are those that were joined. -/
theorem foldr_byte {bytes : List UInt8} (hlength : bytes.length ≤ 8) :
    (bytes.foldr (fun b (high : UInt64) => high <<< 8 ||| b.toUInt64) 0).toNat < 2 ^ (8 * bytes.length) ∧
      ∀ k (hk : k < bytes.length), (bytes.foldr (fun b (high : UInt64) => high <<< 8 ||| b.toUInt64) 0).toNat /
        2 ^ (8 * k) % 2 ^ 8 = bytes[k].toNat := by
  induction bytes with
  | nil => exact ⟨Nat.one_pos, nofun⟩
  | cons b rest ih =>
    rw [List.length_cons] at hlength
    obtain ⟨hlt, hbytes⟩ := ih (by omega)
    rw [List.foldr_cons]
    generalize rest.foldr (fun b (high : UInt64) => high <<< 8 ||| b.toUInt64) 0 = high at hlt hbytes
    have hb := b.toNat_lt
    have hpow : 2 ^ (8 * rest.length) * 2 ^ 8 ≤ 2 ^ 64 := by
      rw [← Nat.pow_add]
      exact Nat.pow_le_pow_right (by decide) (by omega)
    have hjoin : (high <<< 8 ||| b.toUInt64).toNat = high.toNat * 2 ^ 8 + b.toNat :=
      join_byte (by omega) (by omega) (by omega)
    rw [hjoin]
    refine ⟨?_, fun k hk => ?_⟩
    · rw [List.length_cons, Nat.mul_succ 8 rest.length, Nat.pow_add]
      omega
    · cases k with
      | zero => simp
      | succ k =>
        have hhigh : (high.toNat * 2 ^ 8 + b.toNat) / 2 ^ (8 * (k + 1)) = high.toNat / 2 ^ (8 * k) := by
          rw [Nat.mul_succ 8 k, Nat.add_comm (8 * k), Nat.pow_add, ← Nat.div_div_eq_div_mul]
          congr 1
          omega
        rw [hhigh]
        exact hbytes k (Nat.lt_of_succ_lt_succ hk)

theorem bits_foldr {bytes : List UInt8} (hlength : bytes.length = 8) :
    bits (bytes.foldr (fun b (high : UInt64) => high <<< 8 ||| b.toUInt64) 0) = bytes := by
  refine List.ext_getElem (by simp [bits, hlength]) fun k _ hk => ?_
  simp only [bits, List.getElem_map, List.getElem_range]
  rw [← UInt8.toNat_inj, toNat_byte _ (by omega)]
  exact (foldr_byte (Nat.le_of_eq hlength)).2 k hk

theorem takes_bits : Takes [] readBits (fun pattern => [.verbatim (bits pattern)]) fun _ => True :=
  .bind (takes_bytes 8) fun bytes hlength => .pure trivial (by rw [bits_foldr hlength, List.nil_append])

/-! ## Texts and lists -/

/-- The pieces of a text: its length and its bytes. -/
def textPieces (s : String) : List Piece := [.number s.utf8ByteSize, .verbatim s.toUTF8.data.toList]

/-- Bytes that are a text are the bytes of that text. -/
theorem of_fromUTF8? {bytes : List UInt8} {s : String} (h : String.fromUTF8? ⟨bytes.toArray⟩ = some s) :
    s.toUTF8.data.toList = bytes := by
  unfold String.fromUTF8? at h
  split at h
  · cases h
    rfl
  · cases h

theorem takes_text : Takes [] readText textPieces Sized := by
  refine .bind takes_length fun n hn => .bind (takes_bytes n) fun bytes hbytes => ?_
  split
  · next s hs =>
    have htext := of_fromUTF8? hs
    have hsize : s.utf8ByteSize = n := by
      rw [← hbytes, ← htext]
      simp
    refine .pure ?_ ?_
    · rw [Sized, hsize]
      exact hn
    · rw [textPieces, hsize, htext]
      rfl
  · exact .throw _

/-- The pieces of a list: its length and those of its items. -/
def listPieces (pieces : α → List Piece) (xs : List α) : List Piece := .number xs.length :: xs.flatMap pieces

theorem takes_many {item : Decoder α} {pieces : α → List Piece} {good : α → Prop} (h : Takes [] item pieces good)
    (n : Nat) : Takes [] (readMany item n) (fun xs => xs.flatMap pieces)
      (fun xs => xs.length = n ∧ ∀ x ∈ xs, good x) := by
  induction n with
  | zero => exact .pure ⟨rfl, nofun⟩ rfl
  | succ n ih =>
    refine .bind h fun x hx => .bind ih fun xs hxs => .pure ⟨congrArg Nat.succ hxs.1, ?_⟩ rfl
    exact List.forall_mem_cons.mpr ⟨hx, hxs.2⟩

theorem takes_list {item : Decoder α} {pieces : α → List Piece} {good : α → Prop} (h : Takes [] item pieces good) :
    Takes [] (readList item) (listPieces pieces) (fun xs => xs.length < 2 ^ 64 ∧ ∀ x ∈ xs, good x) := by
  refine .bind takes_length fun n hn => .last (takes_many h n) (fun xs hxs => ?_) fun xs hxs => ?_
  · rw [listPieces, hxs.1]
    rfl
  · exact ⟨hxs.1 ▸ hn, hxs.2⟩

end Wire

end ClosureMachine
