import Mathlib.Algebra.Group.Nat.Defs
import ClosureMachine.Wire.Tree

/-!
# Fields that tell where they end

A decoder reads a field right if it takes the bytes of the field from the front of any input and leaves what
stands behind them. That alone would let it give up early or late when bytes are missing. `Reads` asks for the
rest: whatever is missing, one byte or all, the decoder must find that the input is at its end. Both together
are kept when decoders are put one behind the other (`Reads.bind`), so a field needs no separator.

A decoder for trees has a bound on the depth, and with too small a bound it claims the end of the input as
well. So `Reads` has a condition, `enough`, under which the bytes are read at all; for the fields of
this module it is `True`.
-/

set_option autoImplicit false

namespace ClosureMachine

namespace Wire

variable {α β : Type}

/-- The decoder takes the bytes for the value if it has enough of what it needs, and claims the end of the
input if it has not or if the bytes are not all there. -/
structure Reads (enough : Prop) (d : Decoder α) (a : α) (bytes : List UInt8) : Prop where
  whole : enough → ∀ rest, d (bytes ++ rest) = .ok (a, rest)
  scarce : ¬ enough → ∀ rest, d (bytes ++ rest) = .error .endOfInput
  cut : ∀ ⦃front back : List UInt8⦄, bytes = front ++ back → back ≠ [] → d front = .error .endOfInput

theorem bind_ok {d : Decoder α} {f : α → Decoder β} {s s' : List UInt8} {a : α}
    (h : d s = .ok (a, s')) : (d >>= f) s = f a s' := by
  change (d s >>= fun x => f x.1 x.2) = _
  rw [h]
  rfl

theorem bind_error {d : Decoder α} {f : α → Decoder β} {s : List UInt8} {e : WireError}
    (h : d s = .error e) : (d >>= f) s = .error e := by
  change (d s >>= fun x => f x.1 x.2) = _
  rw [h]
  rfl

namespace Reads

variable {enough enough' : Prop} {d : Decoder α} {f : α → Decoder β} {a : α} {b : β}
  {bytes bytes' : List UInt8}

theorem pure (a : α) : Reads True (Pure.pure a : Decoder α) a [] where
  whole := fun _ _ => rfl
  scarce := fun h => absurd trivial h
  cut := by
    intro front back heq hback
    exact absurd (List.nil_eq_append_iff.mp heq).2 hback

theorem iff (h : Reads enough d a bytes) (hiff : enough ↔ enough') : Reads enough' d a bytes :=
  ⟨fun he => h.whole (hiff.mpr he), fun he => h.scarce (mt hiff.mp he), h.cut⟩

/-- One field behind the other. -/
theorem bind (h : Reads enough d a bytes) (h' : Reads enough' (f a) b bytes') :
    Reads (enough ∧ enough') (d >>= f) b (bytes ++ bytes') where
  whole := by
    intro ⟨he, he'⟩ rest
    rw [List.append_assoc, bind_ok (h.whole he _)]
    exact h'.whole he' rest
  scarce := by
    intro hne rest
    rw [List.append_assoc]
    by_cases he : enough
    · rw [bind_ok (h.whole he _)]
      exact h'.scarce (fun he' => hne ⟨he, he'⟩) rest
    · exact bind_error (h.scarce he _)
  cut := by
    intro front back heq hback
    -- the input ends in the second field or in the first
    rcases List.append_eq_append_iff.mp heq with ⟨more, rfl, hmore⟩ | ⟨missing, rfl, rfl⟩
    · by_cases he : enough
      · rw [bind_ok (h.whole he more)]
        exact h'.cut hmore hback
      · exact bind_error (h.scarce he more)
    · by_cases hnil : missing = []
      · subst hnil
        rw [List.append_nil] at h
        rw [List.nil_append] at hback
        by_cases he : enough
        · have hfront : d front = .ok (a, []) := by simpa using h.whole he []
          rw [bind_ok hfront]
          exact h'.cut rfl hback
        · have hfront : d front = .error .endOfInput := by simpa using h.scarce he []
          exact bind_error hfront
      · exact bind_error (h.cut rfl hnil)

/-- A decoder that looks at one byte first. -/
theorem cons {d' : Decoder α} {x : UInt8} (hnil : d [] = .error .endOfInput)
    (hcons : ∀ rest, d (x :: rest) = d' rest) (h : Reads enough d' a bytes) :
    Reads enough d a (x :: bytes) where
  whole := fun he rest => (hcons _).trans (h.whole he rest)
  scarce := fun he rest => (hcons _).trans (h.scarce he rest)
  cut := by
    intro front back heq hback
    cases front with
    | nil => exact hnil
    | cons y front =>
      obtain ⟨rfl, htail⟩ := List.cons.inj heq
      exact (hcons front).trans (h.cut htail hback)

/-- The last field. -/
theorem last (h : Reads enough d a bytes) (hf : f a = Pure.pure b) : Reads enough (d >>= f) b bytes := by
  have hbind := h.bind (f := f) (hf ▸ pure b)
  rw [List.append_nil] at hbind
  exact hbind.iff (iff_of_eq (and_true _))

theorem map (g : α → β) (h : Reads enough d a bytes) :
    Reads enough (d >>= fun x => Pure.pure (g x)) (g a) bytes :=
  h.last rfl

end Reads

/-! ## Numbers -/

theorem readDigits_last {last bytes n : Nat} (hn : n < 128) (hlast : bytes = 0 → n ≤ last)
    (rest : List UInt8) :
    readDigits last (bytes + 1) (n.toUInt8 :: rest) = (Pure.pure n : Decoder Nat) rest := by
  have hbyte : n.toUInt8.toNat = n := by simp; omega
  change (if n.toUInt8.toNat < 128 then
    if bytes = 0 ∧ last < n.toUInt8.toNat then throw .badVarint else Pure.pure n.toUInt8.toNat
    else _ : Decoder Nat) rest = _
  rw [hbyte, if_pos hn, if_neg (by omega)]

/-- A byte with the top bit set is followed by higher digits. -/
theorem readDigits_more {last bytes digit : Nat} (hdigit : digit < 128) (rest : List UInt8) :
    readDigits last (bytes + 1) ((digit + 128).toUInt8 :: rest) =
      (readDigits last bytes >>= fun high => Pure.pure (digit + 128 * high)) rest := by
  have hbyte : (digit + 128).toUInt8.toNat = digit + 128 := by simp; omega
  change (if (digit + 128).toUInt8.toNat < 128 then _
    else readDigits last bytes >>= fun high =>
      Pure.pure ((digit + 128).toUInt8.toNat - 128 + 128 * high) : Decoder Nat) rest = _
  rw [hbyte, if_neg (by omega), Nat.add_sub_cancel]

/-- A number is read back if its digits are not more than its width allows. -/
theorem reads_digits {last : Nat} (hlast : last < 128) (bytes n : Nat)
    (hn : n < (last + 1) * 128 ^ bytes) : Reads True (readDigits last (bytes + 1)) n (varint n) := by
  induction bytes generalizing n with
  | zero =>
    have hsmall : n < 128 := by omega
    rw [varint, if_pos hsmall]
    exact .cons rfl (readDigits_last hsmall (by omega)) (.pure n)
  | succ bytes ih =>
    rw [varint]
    split
    · exact .cons rfl (readDigits_last ‹_› (by omega)) (.pure n)
    · have hdigit : n % 128 < 128 := Nat.mod_lt n (by decide)
      have hhigh : n / 128 < (last + 1) * 128 ^ bytes := by
        rw [Nat.div_lt_iff_lt_mul (by decide), Nat.mul_assoc, ← Nat.pow_succ]
        exact hn
      have hmap := (ih (n / 128) hhigh).map (n % 128 + 128 * ·)
      rw [Nat.mod_add_div] at hmap
      exact .cons rfl (readDigits_more hdigit) hmap

theorem reads_length {n : Nat} (hn : n < 2 ^ 64) : Reads True (readVarint lengthWidth) n (varint n) :=
  reads_digits (by decide) 9 n (by simpa [lengthWidth] using hn)

theorem reads_variant {n : Nat} (hn : n < 2 ^ 32) : Reads True (readVarint variantWidth) n (varint n) :=
  reads_digits (by decide) 4 n (by simpa [variantWidth] using hn)

/-! ## Bytes -/

theorem splitFront_append (xs rest : List α) : splitFront xs.length (xs ++ rest) = some (xs, rest) := by
  induction xs with
  | nil => rfl
  | cons x xs ih =>
    change (splitFront xs.length (xs ++ rest)).map _ = _
    rw [ih]
    rfl

theorem splitFront_eq_none {n : Nat} {xs : List α} (h : xs.length < n) : splitFront n xs = none := by
  induction xs generalizing n with
  | nil =>
    cases n with
    | zero => exact absurd h (Nat.lt_irrefl 0)
    | succ n => rfl
  | cons x xs ih =>
    cases n with
    | zero => exact absurd h (Nat.not_lt_zero _)
    | succ n =>
      change (splitFront n xs).map _ = none
      rw [ih (Nat.lt_of_succ_lt_succ h)]
      rfl

theorem readBytes_of_some {n : Nat} {input front rest : List UInt8}
    (h : splitFront n input = some (front, rest)) : readBytes n input = .ok (front, rest) := by
  have hget : (get : Decoder (List UInt8)) input = .ok (input, input) := rfl
  rw [readBytes, bind_ok hget, h]
  rfl

theorem readBytes_of_none {n : Nat} {input : List UInt8} (h : splitFront n input = none) :
    readBytes n input = .error .endOfInput := by
  have hget : (get : Decoder (List UInt8)) input = .ok (input, input) := rfl
  rw [readBytes, bind_ok hget, h]
  rfl

theorem reads_bytes (bytes : List UInt8) : Reads True (readBytes bytes.length) bytes bytes where
  whole := fun _ rest => readBytes_of_some (splitFront_append bytes rest)
  scarce := fun h => absurd trivial h
  cut := by
    intro front back heq hback
    have hlt : front.length < bytes.length := by
      rw [heq, List.length_append]
      exact Nat.lt_add_of_pos_right (List.length_pos_iff.mpr hback)
    exact readBytes_of_none (splitFront_eq_none hlt)

/-- A pattern is its lowest byte below the others. -/
theorem join_byte {high : UInt64} {b : UInt8} {n : Nat} (hn : n < 2 ^ 64) (hhigh : high.toNat = n / 2 ^ 8)
    (hb : b.toNat = n % 2 ^ 8) : (high <<< 8 ||| b.toUInt64).toNat = n := by
  have hlow : n % 2 ^ 8 < 2 ^ 8 := Nat.mod_lt _ (by decide)
  have hfits : (n / 2 ^ 8) <<< 8 % 2 ^ 64 = (n / 2 ^ 8) <<< 8 := by
    rw [Nat.shiftLeft_eq]
    exact Nat.mod_eq_of_lt (by omega)
  calc (high <<< 8 ||| b.toUInt64).toNat
      = high.toNat <<< 8 % 2 ^ 64 ||| b.toNat := by simp
    _ = (n / 2 ^ 8) <<< 8 ||| n % 2 ^ 8 := by rw [hhigh, hb, hfits]
    _ = (n / 2 ^ 8) <<< 8 + n % 2 ^ 8 := (Nat.shiftLeft_add_eq_or_of_lt hlow _).symm
    _ = n := by
      rw [Nat.shiftLeft_eq]
      omega

theorem toNat_byte (pattern : UInt64) {k : Nat} (hk : k < 8) :
    (pattern >>> (8 * k).toUInt64).toUInt8.toNat = pattern.toNat / 2 ^ (8 * k) % 2 ^ 8 := by
  have hshift : (8 * k).toUInt64.toNat % 64 = 8 * k := by simp; omega
  rw [UInt64.toNat_toUInt8, UInt64.toNat_shiftRight, hshift, Nat.shiftRight_eq_div_pow]

/-- The bytes from the `k`-th on are what is left of the pattern above the first `k`. -/
theorem foldr_bytes (pattern : UInt64) (n k : Nat) (hnk : k + n = 8) :
    (((List.range' k n).map fun i => (pattern >>> (8 * i).toUInt64).toUInt8).foldr
      (fun b (high : UInt64) => high <<< 8 ||| b.toUInt64) 0).toNat = pattern.toNat / 2 ^ (8 * k) := by
  have hlt : pattern.toNat < 2 ^ 64 := pattern.toNat_lt
  induction n generalizing k with
  | zero =>
    obtain rfl : k = 8 := hnk
    exact (Nat.div_eq_of_lt hlt).symm
  | succ n ih =>
    rw [List.range'_succ, List.map_cons, List.foldr_cons]
    refine join_byte (Nat.lt_of_le_of_lt (Nat.div_le_self _ _) hlt) ?_ (toNat_byte pattern (by omega))
    rw [ih (k + 1) (by omega), Nat.div_div_eq_div_mul, ← Nat.pow_add, Nat.mul_succ]

theorem reads_bits (pattern : UInt64) : Reads True readBits pattern (bits pattern) := by
  have hmap := (reads_bytes (bits pattern)).map
    (fun bytes => bytes.foldr (fun b (high : UInt64) => high <<< 8 ||| b.toUInt64) 0)
  have hall := foldr_bytes pattern 8 0 rfl
  rw [← List.range_eq_range', Nat.mul_zero, Nat.pow_zero, Nat.div_one] at hall
  rw [bits, UInt64.toNat_inj.mp hall] at hmap
  exact hmap

theorem reads_boolean (b : Bool) : Reads True readBoolean b (boolean b) := by
  have hbytes := reads_bytes (boolean b)
  cases b with
  | false => exact hbytes.last rfl
  | true => exact hbytes.last rfl

/-! ## Texts and lists -/

theorem fromUTF8?_bytes (s : String) : String.fromUTF8? ⟨s.toUTF8.data.toList.toArray⟩ = some s := by
  rw [Array.toArray_toList]
  exact dif_pos s.isValidUTF8

theorem reads_text {s : String} (hs : s.utf8ByteSize < 2 ^ 64) : Reads True readText s (text s) := by
  have hbytes := reads_bytes s.toUTF8.data.toList
  have hlength : s.toUTF8.data.toList.length = s.utf8ByteSize := by simp
  rw [hlength] at hbytes
  have hread : Reads (True ∧ True ∧ True) readText s
      (varint s.utf8ByteSize ++ (s.toUTF8.data.toList ++ [])) := by
    refine (reads_length hs).bind (hbytes.bind ?_)
    rw [fromUTF8?_bytes]
    exact .pure s
  rw [List.append_nil] at hread
  exact hread.iff (by simp)

/-- Items one behind the other, each of which may need something of its own. -/
theorem reads_many {item : Decoder α} {encode : α → List UInt8} {enough : α → Prop} (xs : List α)
    (h : ∀ x ∈ xs, Reads (enough x) item x (encode x)) :
    Reads (∀ x ∈ xs, enough x) (readMany item xs.length) xs (xs.flatMap encode) := by
  induction xs with
  | nil => exact (Reads.pure []).iff (by simp)
  | cons x xs ih =>
    have hrest := ih fun y hy => h y (List.mem_cons_of_mem x hy)
    have hread := (h x (List.mem_cons_self ..)).bind (f := fun first =>
      readMany item xs.length >>= fun rest => Pure.pure (first :: rest)) (hrest.map (x :: ·))
    exact hread.iff (by simp)

theorem reads_list {item : Decoder α} {encode : α → List UInt8} {enough : α → Prop} (xs : List α)
    (hlength : xs.length < 2 ^ 64) (h : ∀ x ∈ xs, Reads (enough x) item x (encode x)) :
    Reads (∀ x ∈ xs, enough x) (readList item) xs (varint xs.length ++ xs.flatMap encode) :=
  ((reads_length hlength).bind (reads_many xs h)).iff (iff_of_eq (true_and _))

theorem reads_texts {ss : List String} (hlength : ss.length < 2 ^ 64)
    (hs : ∀ s ∈ ss, s.utf8ByteSize < 2 ^ 64) : Reads True (readList readText) ss (texts ss) :=
  (reads_list ss hlength fun s h => reads_text (hs s h)).iff (by simp)

end Wire

end ClosureMachine
