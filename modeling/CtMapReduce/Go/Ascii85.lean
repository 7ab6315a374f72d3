import CtMapReduce.Go.Bytes
import Mathlib.Data.Nat.ModEq
import Mathlib.Tactic.Ring

/-!
# `encoding/ascii85`

`Serial.Ascii85()` encodes with `ascii85.Encode` into `MaxEncodedLen` bytes, and
`NewSerialFromAscii85` decodes with `ascii85.Decode(dst, src, true)` into `4*len(src)` bytes
(`go/src/encoding/ascii85/ascii85.go`). `encodeLoop` packs each group of four bytes into five
base-85 digits, or `z` for a zero group, keeps `len+1` digits of a short last group, and fails (an
index panic) when fewer than five bytes of room are left. `decodeLoop` keeps the `uint32`
accumulator as a `Nat` taken `% 2^32`, checks the room before every byte and returns early with
its named results, skips spaces, and with `flush` pads a last group of two to four digits; a last
group of one digit is `CorruptInputError`. `finish_decodeLoop_encodeLoop` is the round trip: with
four bytes of room per input byte, the room `NewSerialFromAscii85` gives, the decoder returns the
encoded bytes and consumes them all.
-/

namespace CtMapReduce.Go.Ascii85

/-- `2^32`: `Decode`'s accumulator is a `uint32`. -/
def wordSize : Nat := 4294967296

/-- The value `Encode` packs from up to four bytes, high byte first, missing low bytes zero
    (the `switch` with `fallthrough`). -/
def groupValue (src : Bytes) : Nat :=
  (src.getD 0 0).val * 16777216 + (src.getD 1 0).val * 65536 + (src.getD 2 0).val * 256 +
    (src.getD 3 0).val

/-- The character `'!' + d` of a base-85 digit. -/
def digitChar (d : Nat) : Fin 256 := Fin.ofNat (33 + d)

/-- The five base-85 digits of `v`, most significant first: `Encode` computes them as
    `v%85; v /= 85` for `dst[4]` down to `dst[0]`. -/
def base85Digits (v : Nat) : List Nat :=
  [v / 52200625 % 85, v / 614125 % 85, v / 7225 % 85, v / 85 % 85, v % 85]

/-- The five characters `dst[i] = '!' + byte(v%85)` that `Encode` writes for `v`. -/
def digits (v : Nat) : Bytes := (base85Digits v).map digitChar

/-- The byte `'z'`, which stands for four zero bytes. -/
def zChar : Fin 256 := 122

/-- `ascii85.MaxEncodedLen(n)`. -/
def maxEncodedLen (n : Nat) : Nat := (n + 3) / 4 * 5

/-- `ascii85.Encode(dst, src)` with `room = len(dst)`: the bytes `dst[0:n]` it writes, or
    `none` where clearing `dst[0:5]` would index past `dst`. -/
def encodeLoop : Nat → Bytes → Option Bytes
  | _, [] => some []
  | room, b0 :: b1 :: b2 :: b3 :: rest =>
    if room < 5 then none
    else if groupValue [b0, b1, b2, b3] = 0 then (zChar :: ·) <$> encodeLoop (room - 1) rest
    else (digits (groupValue [b0, b1, b2, b3]) ++ ·) <$> encodeLoop (room - 5) rest
  | room, src =>
    if room < 5 then none else some ((digits (groupValue src)).take (src.length + 1))

/-- The variables of `Decode`'s loop: `dst[0:ndst]`, `nsrc`, `v` and `nb`. -/
structure DecodeState where
  dst : Bytes
  nsrc : Nat
  v : Nat
  nb : Nat
  deriving DecidableEq, Repr

/-- The four bytes `byte(v >> 24)`, `byte(v >> 16)`, `byte(v >> 8)`, `byte(v)`. -/
def wordBytes (v : Nat) : Bytes :=
  [Fin.ofNat (v / 16777216), Fin.ofNat (v / 65536), Fin.ofNat (v / 256), Fin.ofNat v]

@[simp] theorem length_wordBytes (v : Nat) : (wordBytes v).length = 4 := rfl

/-- `if nb == 5 { nsrc = i + 1; write the four bytes of v; nb = 0; v = 0 }`. -/
def DecodeState.emit (st : DecodeState) (i : Nat) : DecodeState :=
  if st.nb = 5 then ⟨st.dst ++ wordBytes st.v, i + 1, 0, 0⟩ else st

/-- How the loop of `Decode` ends. -/
inductive LoopEnd where
  /-- The range over `src` ran out. -/
  | done (st : DecodeState)
  /-- `len(dst)-ndst < 4`: a bare `return` with the named results as they stand. -/
  | full (st : DecodeState)
  /-- `return 0, 0, CorruptInputError(i)`. -/
  | corrupt (i : Nat)
  deriving DecidableEq, Repr

/-- The loop of `Decode` from byte index `i` on, with `dstLen = len(dst)`. -/
def decodeLoop (dstLen : Nat) : DecodeState → Nat → Bytes → LoopEnd
  | st, _, [] => .done st
  | st, i, b :: rest =>
    if dstLen - st.dst.length < 4 then .full st
    else if b.val ≤ 32 then decodeLoop dstLen st (i + 1) rest
    else if b = zChar ∧ st.nb = 0 then
      decodeLoop dstLen ({ st with v := 0, nb := 5 }.emit i) (i + 1) rest
    else if 33 ≤ b.val ∧ b.val ≤ 117 then
      decodeLoop dstLen
        ({ st with v := (st.v * 85 + (b.val - 33)) % wordSize, nb := st.nb + 1 }.emit i)
        (i + 1) rest
    else .corrupt i

/-- `for i := nb; i < 5; i++ { v = v*85 + 84 }`, for `k = 5 - nb` rounds. -/
def padGroup (v : Nat) : Nat → Nat
  | 0 => v
  | k + 1 => padGroup ((v * 85 + 84) % wordSize) k

/-- `for i := 0; i < nb-1; i++ { dst[ndst] = byte(v >> 24); v <<= 8; ndst++ }`, for
    `k = nb - 1` rounds. -/
def topBytes (v : Nat) : Nat → Bytes
  | 0 => []
  | k + 1 => Fin.ofNat (v / 16777216) :: topBytes (v * 256 % wordSize) k

/-- What `Decode` does after its loop: `.ok (dst[0:ndst], nsrc)`, or `.error i` for
    `CorruptInputError(i)`. With `flush`, `nsrc` becomes `len(src)` and a pending group of
    two to four digits is padded and its high bytes written. -/
def finish (flush : Bool) (srcLen : Nat) : LoopEnd → Except Nat (Bytes × Nat)
  | .corrupt i => .error i
  | .full st => .ok (st.dst, st.nsrc)
  | .done st =>
    if flush then
      if st.nb = 0 then .ok (st.dst, srcLen)
      else if st.nb = 1 then .error srcLen
      else .ok (st.dst ++ topBytes (padGroup st.v (5 - st.nb)) (st.nb - 1), srcLen)
    else .ok (st.dst, st.nsrc)

/-- `ascii85.Decode(dst, src, flush)` with `dstLen = len(dst)`. -/
def decode (dstLen : Nat) (src : Bytes) (flush : Bool) : Except Nat (Bytes × Nat) :=
  finish flush src.length (decodeLoop dstLen ⟨[], 0, 0, 0⟩ 0 src)

/-! ## One input byte at a time -/

section Steps

variable {dstLen i : Nat} {st : DecodeState} {rest : Bytes}

theorem digitChar_val {d : Nat} (hd : d < 85) : (digitChar d).val = 33 + d := by
  simp only [digitChar, Fin.ofNat, Fin.val_ofNat']
  omega

/-- A digit adds to the group, and the fifth writes it out. -/
theorem decodeLoop_digit {d : Nat} (hd : d < 85) (hroom : 4 ≤ dstLen - st.dst.length) :
    decodeLoop dstLen st i (digitChar d :: rest) =
      decodeLoop dstLen ({ st with v := (st.v * 85 + d) % wordSize, nb := st.nb + 1 }.emit i)
        (i + 1) rest := by
  have hc := digitChar_val hd
  have hz : digitChar d ≠ zChar := fun h => by
    have := congrArg Fin.val h
    rw [hc] at this
    simp only [zChar] at this
    omega
  rw [decodeLoop, if_neg (by omega), if_neg (by omega), if_neg (by tauto), if_pos (by omega), hc,
    Nat.add_sub_cancel_left]

/-- Between groups, `z` writes four zero bytes. -/
theorem decodeLoop_z (hroom : 4 ≤ dstLen - st.dst.length) (hnb : st.nb = 0) :
    decodeLoop dstLen st i (zChar :: rest) =
      decodeLoop dstLen ⟨st.dst ++ wordBytes 0, i + 1, 0, 0⟩ (i + 1) rest := by
  rw [decodeLoop, if_neg (by omega), if_neg (by decide), if_pos ⟨rfl, hnb⟩]
  rfl

end Steps

/-! ## The arithmetic of one group -/

/-- One more base-85 digit of `a`: `a / (b*85)` shifted up a digit, plus the digit of `a / b`,
    is `a / b`. -/
theorem div_digit (a b c : Nat) (h : c = b * 85) : a / c * 85 + a / b % 85 = a / b := by
  subst h; rw [← Nat.div_div_eq_div_mul, Nat.div_add_mod']

/-- The leading digit of a value below `85^5` is below 85. -/
theorem lead_digit {w : Nat} (hw : w < 4437053125) : w / 52200625 % 85 = w / 52200625 :=
  Nat.mod_eq_of_lt (by omega)

/-- Five base-85 digits, weighted back, give a value below `85^5`. -/
theorem digits_sum {w : Nat} (hw : w < 4437053125) :
    ((((w / 52200625 % 85) * 85 + w / 614125 % 85) * 85 + w / 7225 % 85) * 85 + w / 85 % 85) *
      85 + w % 85 = w := by
  rw [lead_digit hw, div_digit w 614125 52200625 rfl, div_digit w 7225 614125 rfl,
    div_digit w 85 7225 rfl, Nat.div_add_mod']

/-- The four bytes of a packed group are the group. -/
theorem wordBytes_groupValue (b0 b1 b2 b3 : Fin 256) :
    wordBytes (groupValue [b0, b1, b2, b3]) = [b0, b1, b2, b3] := by
  simp only [wordBytes, groupValue, List.getD_cons_zero, List.getD_cons_succ, List.cons.injEq,
    and_true]
  refine ⟨Fin.ext ?_, Fin.ext ?_, Fin.ext ?_, Fin.ext ?_⟩ <;>
    simp only [Fin.ofNat, Fin.val_ofNat'] <;> omega

theorem groupValue_lt (src : Bytes) : groupValue src < wordSize := by
  have h0 := (src.getD 0 0).isLt
  have h1 := (src.getD 1 0).isLt
  have h2 := (src.getD 2 0).isLt
  have h3 := (src.getD 3 0).isLt
  simp only [groupValue, wordSize]
  omega

/-- The accumulator after the digits `ds`: `v = v*85 + d` for each, as a `uint32`. -/
def accum (v : Nat) (ds : List Nat) : Nat := ds.foldl (fun v d => (v * 85 + d) % wordSize) v

/-- The value of the base-85 digits `ds` written after `v`, with no wrap. -/
def base85 (v : Nat) (ds : List Nat) : Nat := ds.foldl (fun v d => v * 85 + d) v

theorem base85_eq (v : Nat) (ds : List Nat) : base85 v ds = v * 85 ^ ds.length + base85 0 ds := by
  induction ds generalizing v with
  | nil => simp [base85]
  | cons d ds ih =>
    simp only [base85, List.foldl_cons] at ih ⊢
    rw [ih, ih (0 * 85 + d), List.length_cons, Nat.pow_succ]
    ring

/-- The wrap of the accumulator at every step is one wrap at the end. -/
theorem accum_eq {v : Nat} (hv : v < wordSize) (ds : List Nat) :
    accum v ds = base85 v ds % wordSize := by
  induction ds generalizing v with
  | nil => simp [accum, base85, Nat.mod_eq_of_lt hv]
  | cons d ds ih =>
    have hmod : base85 ((v * 85 + d) % wordSize) ds % wordSize = base85 (v * 85 + d) ds % wordSize := by
      rw [base85_eq, base85_eq (v * 85 + d)]
      exact ((Nat.mod_modEq _ _).mul_right _).add_right _
    simp only [accum, List.foldl_cons] at ih ⊢
    rw [ih (Nat.mod_lt _ (by decide)), hmod]
    rfl

theorem padGroup_eq (v k : Nat) : padGroup v k = accum v (List.replicate k 84) := by
  induction k generalizing v with
  | zero => rfl
  | succ k ih => rw [padGroup, ih]; rfl

section Groups

variable {dstLen : Nat} {rest : Bytes}

/-- Up to four digits add to the group and write nothing. -/
theorem decodeLoop_digitChars : ∀ {ds : List Nat} (st : DecodeState) {i : Nat},
    (∀ d ∈ ds, d < 85) → st.nb + ds.length ≤ 4 → 4 ≤ dstLen - st.dst.length →
    decodeLoop dstLen st i (ds.map digitChar ++ rest) =
      decodeLoop dstLen { st with v := accum st.v ds, nb := st.nb + ds.length }
        (i + ds.length) rest
  | [], _, _, _, _, _ => rfl
  | d :: ds, st, i, hd, hnb, hroom => by
    simp only [List.length_cons] at hnb
    have hemit : ({ st with v := (st.v * 85 + d) % wordSize, nb := st.nb + 1 } :
        DecodeState).emit i = { st with v := (st.v * 85 + d) % wordSize, nb := st.nb + 1 } := by
      simp only [DecodeState.emit]
      rw [if_neg (by omega)]
    rw [List.map_cons, List.cons_append, decodeLoop_digit (hd d (List.mem_cons_self _ _)) hroom,
      hemit, decodeLoop_digitChars { st with v := (st.v * 85 + d) % wordSize, nb := st.nb + 1 }
        (fun d' h => hd d' (List.mem_cons_of_mem _ h)) (by dsimp only; omega) hroom]
    simp only [accum, List.foldl_cons, List.length_cons]
    rw [show st.nb + 1 + ds.length = st.nb + (ds.length + 1) by omega,
      show i + 1 + ds.length = i + (ds.length + 1) by omega]

/-- The five digits of a group, from a group boundary, write the group's four bytes. -/
theorem decodeLoop_digits {w : Nat} (hw : w < wordSize) {dst : Bytes} {n i : Nat}
    (hroom : dst.length + 4 ≤ dstLen) :
    decodeLoop dstLen ⟨dst, n, 0, 0⟩ i (digits w ++ rest) =
      decodeLoop dstLen ⟨dst ++ wordBytes w, i + 5, 0, 0⟩ (i + 5) rest := by
  have hsplit : digits w = [w / 52200625 % 85, w / 614125 % 85, w / 7225 % 85, w / 85 % 85].map
      digitChar ++ [digitChar (w % 85)] := rfl
  rw [hsplit, List.append_assoc, decodeLoop_digitChars _ (by simp; omega) (by simp) (by simp; omega),
    List.singleton_append, decodeLoop_digit (by omega) (by simp; omega)]
  have hval : (accum 0 [w / 52200625 % 85, w / 614125 % 85, w / 7225 % 85, w / 85 % 85] * 85 +
      w % 85) % wordSize = w := by
    have hw' : w < 4437053125 := by simp only [wordSize] at hw; omega
    show accum 0 [w / 52200625 % 85, w / 614125 % 85, w / 7225 % 85, w / 85 % 85, w % 85] = w
    rw [accum_eq (by decide), base85]
    simp only [List.foldl_cons, List.foldl_nil, Nat.zero_mul, Nat.zero_add]
    rw [digits_sum hw', Nat.mod_eq_of_lt hw]
  simp only [DecodeState.emit, List.length_cons, List.length_nil, hval, if_true]

theorem base85_append (v : Nat) (l₁ l₂ : List Nat) :
    base85 v (l₁ ++ l₂) = base85 (base85 v l₁) l₂ := List.foldl_append _ _ _ _

/-- The first `r + 1` digits of a value below `85^5` are the value with its low `4 - r` digits
    dropped. -/
theorem base85_take_digits {w : Nat} (hw : w < 4437053125) : ∀ r, 0 < r → r < 4 →
    base85 0 ((base85Digits w).take (r + 1)) = w / 85 ^ (4 - r)
  | 1, _, _ => by
    simp only [base85, base85Digits, List.take, List.foldl, Nat.zero_mul, Nat.zero_add,
      lead_digit hw]
    rw [div_digit w 614125 52200625 rfl]; rfl
  | 2, _, _ => by
    simp only [base85, base85Digits, List.take, List.foldl, Nat.zero_mul, Nat.zero_add,
      lead_digit hw]
    rw [div_digit w 614125 52200625 rfl, div_digit w 7225 614125 rfl]; rfl
  | 3, _, _ => by
    simp only [base85, base85Digits, List.take, List.foldl, Nat.zero_mul, Nat.zero_add,
      lead_digit hw]
    rw [div_digit w 614125 52200625 rfl, div_digit w 7225 614125 rfl, div_digit w 85 7225 rfl]
    rfl
  | 0, h, _ => absurd h (by decide)
  | _ + 4, _, h => by omega

/-- Padding with `k` digits 84 gives the largest value with the given leading digits. -/
theorem base85_replicate (v k : Nat) :
    base85 v (List.replicate k 84) + 1 = v * 85 ^ k + 85 ^ k := by
  induction k generalizing v with
  | zero => simp [base85]
  | succ k ih =>
    rw [List.replicate_succ, base85, List.foldl_cons, ← base85, ih, Nat.pow_succ]
    ring

/-- The high `len(src)` bytes of a value no more than `256^(4 - len(src))` above a short group
    are the group's bytes. -/
theorem topBytes_of_le_lt : ∀ (src : Bytes) (V : Nat), src ≠ [] → src.length < 4 →
    groupValue src ≤ V → V < groupValue src + 256 ^ (4 - src.length) →
    topBytes (V % wordSize) src.length = src
  | [b0], V, _, _, h1, h2 => by
    have := b0.isLt
    simp only [groupValue, List.getD_cons_zero, List.getD_cons_succ, List.getD_nil,
      List.length_singleton] at h1 h2
    simp only [topBytes, wordSize, List.cons.injEq, and_true]
    exact Fin.ext (by simp only [Fin.ofNat, Fin.val_ofNat']; omega)
  | [b0, b1], V, _, _, h1, h2 => by
    have := b0.isLt
    have := b1.isLt
    simp only [groupValue, List.getD_cons_zero, List.getD_cons_succ, List.getD_nil,
      List.length_cons, List.length_nil] at h1 h2
    simp only [topBytes, wordSize, List.cons.injEq, and_true]
    exact ⟨Fin.ext (by simp only [Fin.ofNat, Fin.val_ofNat']; omega),
      Fin.ext (by simp only [Fin.ofNat, Fin.val_ofNat']; omega)⟩
  | [b0, b1, b2], V, _, _, h1, h2 => by
    have := b0.isLt
    have := b1.isLt
    have := b2.isLt
    simp only [groupValue, List.getD_cons_zero, List.getD_cons_succ, List.getD_nil,
      List.length_cons, List.length_nil] at h1 h2
    simp only [topBytes, wordSize, List.cons.injEq, and_true]
    exact ⟨Fin.ext (by simp only [Fin.ofNat, Fin.val_ofNat']; omega),
      Fin.ext (by simp only [Fin.ofNat, Fin.val_ofNat']; omega),
      Fin.ext (by simp only [Fin.ofNat, Fin.val_ofNat']; omega)⟩
  | [], _, h, _, _, _ => absurd rfl h
  | _ :: _ :: _ :: _ :: _, _, _, h, _, _ => by simp only [List.length_cons] at h; omega

/-- The decoder's padding of a final group of one to three bytes gives back its bytes: the
    digit 84 makes up for the low digits `Encode` dropped without carrying into the kept
    bytes. -/
theorem topBytes_padGroup {src : Bytes} (h0 : src ≠ []) (h4 : src.length < 4) :
    topBytes (padGroup (accum 0 ((base85Digits (groupValue src)).take (src.length + 1)))
      (4 - src.length)) src.length = src := by
  have hw := groupValue_lt src
  have hw' : groupValue src < 4437053125 := by simp only [wordSize] at hw; omega
  have hk : 0 < 85 ^ (4 - src.length) := Nat.pos_pow_of_pos _ (by decide)
  have hk' : 85 ^ (4 - src.length) ≤ 256 ^ (4 - src.length) :=
    Nat.pow_le_pow_left (by decide) _
  have hlo := Nat.div_mul_le_self (groupValue src) (85 ^ (4 - src.length))
  have hhi : groupValue src <
      groupValue src / 85 ^ (4 - src.length) * 85 ^ (4 - src.length) + 85 ^ (4 - src.length) :=
    Nat.lt_div_mul_add hk
  have hpad := base85_replicate (groupValue src / 85 ^ (4 - src.length)) (4 - src.length)
  simp only [padGroup_eq, accum, ← List.foldl_append]
  rw [← accum, accum_eq (by decide), base85_append,
    base85_take_digits hw' _ (List.length_pos.2 h0) h4]
  generalize 85 ^ (4 - src.length) = p at *
  generalize groupValue src / p * p = q at *
  exact topBytes_of_le_lt src _ h0 h4 (by omega) (by omega)

/-- A final group of one to three bytes, from a group boundary, is read back by the flush. -/
theorem finish_decodeLoop_partial {src : Bytes} (h0 : src ≠ []) (h4 : src.length < 4)
    {dst : Bytes} {n i L : Nat} (hroom : dst.length + 4 ≤ dstLen) :
    finish true L (decodeLoop dstLen ⟨dst, n, 0, 0⟩ i
      ((digits (groupValue src)).take (src.length + 1))) = .ok (dst ++ src, L) := by
  have hds : ∀ d ∈ (base85Digits (groupValue src)).take (src.length + 1), d < 85 := by
    intro d hd
    have := List.mem_of_mem_take hd
    simp only [base85Digits, List.mem_cons, List.mem_singleton, List.not_mem_nil,
      or_false] at this
    rcases this with rfl | rfl | rfl | rfl | rfl <;> omega
  have hlen : ((base85Digits (groupValue src)).take (src.length + 1)).length =
      src.length + 1 := by
    simp [base85Digits]; omega
  have hnb : (⟨dst, n, 0, 0⟩ : DecodeState).nb +
      ((base85Digits (groupValue src)).take (src.length + 1)).length ≤ 4 := by
    rw [hlen]; dsimp only; omega
  have hroom' : 4 ≤ dstLen - (⟨dst, n, 0, 0⟩ : DecodeState).dst.length := by dsimp only; omega
  rw [digits, ← List.map_take, ← List.append_nil (List.map digitChar _),
    decodeLoop_digitChars _ hds hnb hroom']
  have h1 : src.length + 1 ≠ 1 := by have := List.length_pos.2 h0; omega
  simp only [decodeLoop, finish, hlen, if_true, Nat.zero_add]
  rw [if_neg (Nat.succ_ne_zero _), if_neg h1, show 5 - (src.length + 1) = 4 - src.length by omega,
    Nat.add_sub_cancel, topBytes_padGroup h0 h4]

end Groups

/-! ## The round trip -/

/-- `Encode` on a group of one to three bytes. -/
theorem encodeLoop_short {src : Bytes} (h0 : src ≠ []) (h4 : src.length < 4) (room : Nat) :
    encodeLoop room src =
      if room < 5 then none else some ((digits (groupValue src)).take (src.length + 1)) := by
  match src, h0, h4 with
  | [_], _, _ => rfl
  | [_, _], _, _ => rfl
  | [_, _, _], _, _ => rfl
  | _ :: _ :: _ :: _ :: _, _, h4 => simp only [List.length_cons] at h4; omega

/-- A group of four bytes whose packed value is zero is four zero bytes. -/
theorem wordBytes_zero_of_groupValue {b0 b1 b2 b3 : Fin 256}
    (hz : groupValue [b0, b1, b2, b3] = 0) : wordBytes 0 = [b0, b1, b2, b3] := by
  rw [← hz, wordBytes_groupValue]

/-- The inputs the last pattern of `encodeLoop` sees are short. -/
theorem length_lt_four {src : Bytes}
    (h : ∀ b0 b1 b2 b3 rest, src = b0 :: b1 :: b2 :: b3 :: rest → False) : src.length < 4 := by
  match src, h with
  | [], _ | [_], _ | [_, _], _ | [_, _, _], _ => simp
  | b0 :: b1 :: b2 :: b3 :: rest, h => exact absurd rfl (h b0 b1 b2 b3 rest)

/-- A `MaxEncodedLen` buffer is never too short for `Encode`. -/
theorem encodeLoop_isSome (room : Nat) (src : Bytes) (h : maxEncodedLen src.length ≤ room) :
    (encodeLoop room src).isSome := by
  induction room, src using encodeLoop.induct with
  | case1 => rfl
  | case2 room b0 b1 b2 b3 rest hroom =>
    simp only [maxEncodedLen, List.length_cons] at h
    omega
  | case3 room b0 b1 b2 b3 rest hroom hz ih =>
    simp only [maxEncodedLen, List.length_cons] at h ih
    simp [encodeLoop, hroom, hz, ih (by omega)]
  | case4 room b0 b1 b2 b3 rest hroom hz ih =>
    simp only [maxEncodedLen, List.length_cons] at h ih
    simp [encodeLoop, hroom, hz, ih (by omega)]
  | case5 room src h0 h4 hroom =>
    have := List.length_pos.2 h0
    have := length_lt_four h4
    simp only [maxEncodedLen] at h
    omega
  | case6 room src h0 h4 hroom =>
    simp [encodeLoop_short h0 (length_lt_four h4), hroom]

/-- From a group boundary with four bytes of room per input byte, the decoder reads the
    encoder's output back to the encoded bytes and consumes all of it. -/
theorem finish_decodeLoop_encodeLoop (room : Nat) (src : Bytes) {out : Bytes}
    (henc : encodeLoop room src = some out) {dstLen : Nat} {dst : Bytes} {n i L : Nat}
    (hroom : dst.length + 4 * out.length ≤ dstLen) :
    finish true L (decodeLoop dstLen ⟨dst, n, 0, 0⟩ i out) = .ok (dst ++ src, L) := by
  induction room, src using encodeLoop.induct generalizing out dst n i with
  | case1 =>
    simp only [encodeLoop, Option.some.injEq] at henc
    subst henc
    simp [decodeLoop, finish]
  | case2 room b0 b1 b2 b3 rest h => simp [encodeLoop, h] at henc
  | case3 room b0 b1 b2 b3 rest h hz ih =>
    simp only [encodeLoop, if_neg h, if_pos hz, Option.map_eq_map, Option.map_eq_some'] at henc
    obtain ⟨out', hout', rfl⟩ := henc
    simp only [List.length_cons] at hroom
    rw [decodeLoop_z (by dsimp only; omega) rfl, ih hout' (by simp; omega),
      wordBytes_zero_of_groupValue hz, List.append_assoc]
    rfl
  | case4 room b0 b1 b2 b3 rest h hz ih =>
    simp only [encodeLoop, if_neg h, if_neg hz, Option.map_eq_map, Option.map_eq_some'] at henc
    obtain ⟨out', hout', rfl⟩ := henc
    simp only [List.length_append, digits, List.length_map, base85Digits, List.length_cons,
      List.length_nil] at hroom
    rw [decodeLoop_digits (groupValue_lt _) (by omega), ih hout' (by simp; omega),
      wordBytes_groupValue, List.append_assoc]
    rfl
  | case5 room src h0 h4 h =>
    simp [encodeLoop_short h0 (length_lt_four h4), h] at henc
  | case6 room src h0 h4 h =>
    simp only [encodeLoop_short h0 (length_lt_four h4), if_neg h, Option.some.injEq] at henc
    subst henc
    exact finish_decodeLoop_partial h0 (length_lt_four h4) (by simp [digits, base85Digits] at hroom; omega)

/-- `Decode(dst, Encode(src), true)` into `4*len` bytes gives `src` back, and the early return on
    a full `dst` never fires: the whole input is consumed. -/
theorem decode_encodeLoop {src out : Bytes}
    (henc : encodeLoop (maxEncodedLen src.length) src = some out) :
    decode (4 * out.length) out true = .ok (src, out.length) :=
  (finish_decodeLoop_encodeLoop _ src henc (by simp)).trans (by rw [List.nil_append])

end CtMapReduce.Go.Ascii85
