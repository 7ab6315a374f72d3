import CtMapReduce.Go.Bytes

/-!
# `encoding/hex`

`Serial.HexString()` encodes with `hex.EncodeToString`; `NewSerialFromHex` and
`Serial.UnmarshalJSON` decode with `hex.DecodeString`.

`encode` follows `hex.Encode`: two lower-case digits per byte, high nibble first. `decode`
follows `hex.Decode` (`go/src/encoding/hex/hex.go`): pairs are decoded left to right, a byte
that is not a digit of either case stops the loop with `InvalidByteError`, and an odd
trailing byte gives `ErrLength` when it is a digit. `DecodeString` decodes in place and
returns `src[:n]` beside the error, so a failed decode still hands back the bytes of the pairs
before the bad one. `decode_encode` is the round trip; `decode_ok_iff` says which inputs
decode without error.
-/

namespace CtMapReduce.Go.Hex

/-- `hextable[v]`, the lower-case digit of a nibble. -/
def hexDigit (v : Nat) : Fin 256 := if v < 10 then Fin.ofNat (48 + v) else Fin.ofNat (87 + v)

/-- `fromHexChar`: the value of a digit of either case, or `none`. -/
def fromHexChar (c : Fin 256) : Option Nat :=
  if 48 ≤ c.val ∧ c.val ≤ 57 then some (c.val - 48)
  else if 97 ≤ c.val ∧ c.val ≤ 102 then some (c.val - 87)
  else if 65 ≤ c.val ∧ c.val ≤ 70 then some (c.val - 55)
  else none

/-- `hex.Encode`. -/
def encode : Bytes → Bytes
  | [] => []
  | b :: bs => hexDigit (b.val / 16) :: hexDigit (b.val % 16) :: encode bs

/-- `hex.EncodeToString`. -/
def encodeToString (b : Bytes) : Bytes := encode b

/-- The errors of `hex.Decode`. -/
inductive Error where
  /-- `InvalidByteError(c)`. -/
  | invalidByte (c : Fin 256)
  /-- `ErrLength`. -/
  | length
  deriving DecidableEq, Repr

/-- `hex.Decode(dst, src)`: the bytes `dst[:n]` it wrote and its error. -/
def decode : Bytes → Bytes × Option Error
  | p :: q :: rest =>
    match fromHexChar p, fromHexChar q with
    | some a, some b => (Fin.ofNat (a * 16 + b) :: (decode rest).1, (decode rest).2)
    | none, _ => ([], some (.invalidByte p))
    | some _, none => ([], some (.invalidByte q))
  | [p] => ([], some (if (fromHexChar p).isNone then .invalidByte p else .length))
  | [] => ([], none)

/-- `hex.DecodeString`: `src[:n]` and the error of decoding `s` in place. -/
def decodeString (s : Bytes) : Bytes × Option Error := decode s

theorem fromHexChar_hexDigit : ∀ v < 16, fromHexChar (hexDigit v) = some v := by decide

/-- Every digit `hex.Encode` writes is a lower-case hex digit, `0-9` or `a-f`. -/
theorem hexDigit_mem : ∀ v < 16, (48 ≤ (hexDigit v).val ∧ (hexDigit v).val ≤ 57) ∨
    (97 ≤ (hexDigit v).val ∧ (hexDigit v).val ≤ 102) := by decide

@[simp] theorem length_encode (b : Bytes) : (encode b).length = 2 * b.length := by
  induction b with
  | nil => rfl
  | cons x xs ih => simp only [encode, List.length_cons, ih]; omega

/-- `hex.DecodeString(hex.EncodeToString(b))` is `b` with no error. -/
theorem decodeString_encodeToString (b : Bytes) : decodeString (encodeToString b) = (b, none) := by
  induction b with
  | nil => rfl
  | cons x xs ih =>
    have hhi : x.val / 16 < 16 := by omega
    have hlo : x.val % 16 < 16 := by omega
    simp only [decodeString, encodeToString] at ih ⊢
    simp only [encode, decode, fromHexChar_hexDigit _ hhi, fromHexChar_hexDigit _ hlo, ih,
      Prod.mk.injEq, and_true, List.cons.injEq]
    exact Fin.ext (by simp only [Fin.ofNat, Fin.val_ofNat']; omega)

/-- `hex.Decode` ends without error exactly on an even number of hex digits. -/
theorem decode_ok_iff : ∀ s : Bytes,
    (decode s).2 = none ↔ s.length % 2 = 0 ∧ ∀ c ∈ s, (fromHexChar c).isSome
  | [] => by simp [decode]
  | [p] => by simp [decode]
  | p :: q :: rest => by
    have ih := decode_ok_iff rest
    rcases hp : fromHexChar p with _ | a <;> rcases hq : fromHexChar q with _ | b <;>
      simp [decode, hp, hq, ih]
    intro _
    omega

end CtMapReduce.Go.Hex
