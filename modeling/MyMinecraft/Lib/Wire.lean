import Mathlib

/-! Words: their bits, in memory and on the wire.

A bit field is a width and a value, of which the low bits are kept. `packAt` places a
list of fields from a bit offset up, as shifts and masks write it; `field_packAt`
reads any of them back, whatever its neighbours hold.

A host keeps a 32-bit word in its own byte order; the wire has the most significant
byte first. `fromBig` is the conversion a host applies to a word it has copied from
the wire (`be32toh`), and `word_fromBig` says it gives the word meant, whichever
order the host has. A message of words followed by raw bytes is `words ws ++ raw`,
and every word and every raw byte is found at its own offset. -/
namespace Lib.BitField

/-- The fields from bit `offset` up, least significant first. -/
def packAt : Nat → List (Nat × Nat) → Nat
  | _, [] => 0
  | offset, (width, v) :: fs => (v % 2 ^ width) <<< offset ||| packAt (offset + width) fs

def width (fs : List (Nat × Nat)) : Nat := (fs.map Prod.fst).sum

theorem packAt_shift (offset : Nat) (fs : List (Nat × Nat)) :
    packAt offset fs = packAt 0 fs <<< offset := by
  induction fs generalizing offset with
  | nil => simp [packAt]
  | cons f fs ih =>
    obtain ⟨w, v⟩ := f
    simp only [packAt, Nat.shiftLeft_zero, Nat.zero_add]
    rw [ih (offset + w), ih w, Nat.shiftLeft_or_distrib, ← Nat.shiftLeft_add, Nat.add_comm w]

theorem packAt_cons (w v : Nat) (fs : List (Nat × Nat)) :
    packAt 0 ((w, v) :: fs) = packAt 0 fs * 2 ^ w + v % 2 ^ w := by
  rw [packAt, Nat.zero_add, packAt_shift w fs, Nat.shiftLeft_zero, Nat.lor_comm,
    ← Nat.shiftLeft_add_eq_or_of_lt (Nat.mod_lt v (Nat.two_pow_pos w)), Nat.shiftLeft_eq]

/-- Shifting past the first fields leaves the others. -/
theorem packAt_shiftRight (before fs : List (Nat × Nat)) :
    packAt 0 (before ++ fs) >>> width before = packAt 0 fs := by
  induction before with
  | nil => simp [width]
  | cons f before ih =>
    obtain ⟨w, v⟩ := f
    have hw : width ((w, v) :: before) = w + width before := by simp [width]
    have hdrop : packAt 0 ((w, v) :: (before ++ fs)) >>> w = packAt 0 (before ++ fs) := by
      rw [packAt_cons, Nat.shiftRight_eq_div_pow, Nat.mul_comm,
        Nat.mul_add_div (Nat.two_pow_pos w), Nat.div_eq_of_lt (Nat.mod_lt v (Nat.two_pow_pos w)),
        Nat.add_zero]
    rw [List.cons_append, hw, Nat.shiftRight_add, hdrop, ih]

/-- **A field reads back as it was written**, no bit of another in it. -/
theorem field_packAt (before after : List (Nat × Nat)) (w v : Nat) :
    packAt 0 (before ++ (w, v) :: after) >>> width before % 2 ^ w = v % 2 ^ w := by
  rw [packAt_shiftRight, packAt_cons, Nat.mul_add_mod_self_right, Nat.mod_mod]

end Lib.BitField

namespace Lib.Wire

inductive Endian where
  | little
  | big

/-- The bytes of a word, least significant first. -/
def bytesLE (v : UInt32) : List UInt8 :=
  [UInt8.ofNat v.toNat, UInt8.ofNat (v.toNat / 2 ^ 8), UInt8.ofNat (v.toNat / 2 ^ 16),
    UInt8.ofNat (v.toNat / 2 ^ 24)]

def natLE : List UInt8 → Nat
  | [] => 0
  | b :: bs => b.toNat + 2 ^ 8 * natLE bs

/-- What a host writes for a word. -/
def store : Endian → UInt32 → List UInt8
  | .little, v => bytesLE v
  | .big, v => (bytesLE v).reverse

/-- What a host reads there. -/
def load : Endian → List UInt8 → UInt32
  | .little, bs => UInt32.ofNat (natLE bs)
  | .big, bs => UInt32.ofNat (natLE bs.reverse)

def byteswap (v : UInt32) : UInt32 := load .big (store .little v)

/-- The word a host means by one copied from the wire. -/
def fromBig : Endian → UInt32 → UInt32
  | .little, v => byteswap v
  | .big, v => v

theorem store_length (e : Endian) (v : UInt32) : (store e v).length = 4 := by
  cases e <;> simp [store, bytesLE]

theorem natLE_bytesLE (v : UInt32) : natLE (bytesLE v) = v.toNat := by
  have hv := v.toNat_lt
  simp only [natLE, bytesLE, UInt8.toNat_ofNat']
  omega

theorem bytesLE_natLE {bs : List UInt8} (h : bs.length = 4) :
    bytesLE (UInt32.ofNat (natLE bs)) = bs := by
  match bs, h with
  | [a, b, c, d], _ =>
    have ha := a.toNat_lt
    have hb := b.toNat_lt
    have hc := c.toNat_lt
    have hd := d.toNat_lt
    simp only [bytesLE, natLE, UInt32.toNat_ofNat', List.cons.injEq, ← UInt8.toNat_inj,
      UInt8.toNat_ofNat', and_true]
    omega

theorem load_store (e : Endian) (v : UInt32) : load e (store e v) = v := by
  cases e with
  | little => rw [store, load, natLE_bytesLE, UInt32.ofNat_toNat]
  | big => rw [store, load, List.reverse_reverse, natLE_bytesLE, UInt32.ofNat_toNat]

theorem store_load (e : Endian) {bs : List UInt8} (h : bs.length = 4) : store e (load e bs) = bs := by
  cases e with
  | little => rw [load, store, bytesLE_natLE h]
  | big => rw [load, store, bytesLE_natLE (by rw [List.length_reverse, h]), List.reverse_reverse]

theorem fromBig_load (e : Endian) {bs : List UInt8} (h : bs.length = 4) :
    fromBig e (load e bs) = load .big bs := by
  cases e with
  | little => rw [fromBig, byteswap, store_load .little h]
  | big => rfl

/-- Whatever its byte order, a host gets the word that was sent. -/
theorem word_fromBig (e : Endian) (v : UInt32) : fromBig e (load e (store .big v)) = v := by
  rw [fromBig_load e (store_length .big v), load_store]

/-- The word a host copies to the wire for `v`: `fromBig` the other way, the same bytes swapped. -/
def toBig : Endian → UInt32 → UInt32
  | .little, v => byteswap v
  | .big, v => v

theorem store_toBig (e : Endian) (v : UInt32) : store e (toBig e v) = store .big v := by
  cases e with
  | little =>
    have hlen : (store .little v).reverse.length = 4 := by rw [List.length_reverse, store_length]
    exact store_load .little hlen
  | big => rfl

/-! ### Messages -/

def words (ws : List UInt32) : List UInt8 := ws.flatMap (store .big)

theorem words_length (ws : List UInt32) : (words ws).length = 4 * ws.length := by
  induction ws with
  | nil => rfl
  | cons w ws ih =>
    rw [words, List.flatMap_cons, List.length_append, store_length, List.length_cons]
    rw [words] at ih
    omega

/-- Any bytes are words and then raw bytes, with as many words as there is room for. -/
theorem exists_words (n : Nat) {bs : List UInt8} (h : 4 * n ≤ bs.length) :
    ∃ ws raw, ws.length = n ∧ words ws ++ raw = bs := by
  induction n generalizing bs with
  | zero => exact ⟨[], bs, rfl, rfl⟩
  | succ n ih =>
    have hfirst : (bs.take 4).length = 4 := by
      rw [List.length_take]
      omega
    have hrest : 4 * n ≤ (bs.drop 4).length := by
      rw [List.length_drop]
      omega
    obtain ⟨ws, raw, hlen, hbytes⟩ := ih hrest
    refine ⟨load .big (bs.take 4) :: ws, raw, congrArg (· + 1) hlen, ?_⟩
    calc words (load .big (bs.take 4) :: ws) ++ raw
        = store .big (load .big (bs.take 4)) ++ (words ws ++ raw) := by
          rw [words, List.flatMap_cons, List.append_assoc, words]
      _ = bs.take 4 ++ bs.drop 4 := by rw [store_load .big hfirst, hbytes]
      _ = bs := List.take_append_drop 4 bs

/-- The `k`-th word is the four bytes at offset `4 * k`. -/
theorem take_word (ws : List UInt32) (raw : List UInt8) (k : Nat) (h : k < ws.length) :
    ((words ws ++ raw).drop (4 * k)).take 4 = store .big ws[k] := by
  induction ws generalizing k with
  | nil => exact absurd h (Nat.not_lt_zero k)
  | cons w ws ih =>
    have hsplit : words (w :: ws) ++ raw = store .big w ++ (words ws ++ raw) := by
      rw [words, List.flatMap_cons, List.append_assoc, words]
    have hlen := store_length .big w
    rw [hsplit]
    cases k with
    | zero => rw [Nat.mul_zero, List.drop_zero, ← hlen, List.take_left, List.getElem_cons_zero]
    | succ k =>
      have hdrop : (store .big w ++ (words ws ++ raw)).drop (4 * (k + 1)) =
          (words ws ++ raw).drop (4 * k) := by
        rw [show 4 * (k + 1) = 4 + 4 * k by omega, ← List.drop_drop, ← hlen, List.drop_left]
      rw [hdrop, ih k (Nat.lt_of_succ_lt_succ h), List.getElem_cons_succ]

/-- The raw bytes start after the words. -/
theorem getElem?_raw (ws : List UInt32) (raw : List UInt8) (i : Nat) :
    (words ws ++ raw)[4 * ws.length + i]? = raw[i]? := by
  rw [List.getElem?_append_right (by rw [words_length]; omega), words_length, Nat.add_sub_cancel_left]

end Lib.Wire
