import CtMapReduce.Go.Hex

/-!
# `encoding/json` on a string

`Serial.MarshalJSON` is `json.Marshal(s.HexString())`, so the only JSON the storage code writes
itself is a string. `marshalString` follows `encodeState.string` with `escapeHTML` set, as
`json.Marshal` calls it (`go/src/encoding/json/encode.go`). An ASCII byte in `htmlSafeSet` is
copied. `"` and `\` are escaped with a backslash, and `\n`, `\r`, `\t` by their letters. Any
other ASCII byte becomes `\u00XX`; that covers the other control bytes and `<`, `>`, `&`, and is
how `\b` and `\f` were written before Go 1.22. A byte from `0x80` up is copied. Go does the same
for well-formed UTF-8 other than U+2028 and U+2029; it rewrites those two runes and ill-formed
UTF-8, which this model does not cover, and which no hex string holds.

`marshalString_of_htmlSafe` is what `MarshalJSON` needs: a string of HTML-safe bytes is
written between quotes as it is.
-/

namespace CtMapReduce.Go.Json
open CtMapReduce.Go.Hex

/-- The byte `'"'`. -/
def quote : Fin 256 := 34

/-- The byte `'\\'`. -/
def backslash : Fin 256 := 92

/-- `htmlSafeSet[b]` for an ASCII byte: from the space to DEL, except `"`, `\`, `<`, `>`
    and `&`. -/
def htmlSafe (b : Fin 256) : Bool :=
  decide (32 ≤ b.val ∧ b.val < 128 ∧ b.val ≠ 34 ∧ b.val ≠ 92 ∧ b.val ≠ 60 ∧ b.val ≠ 62 ∧
    b.val ≠ 38)

/-- What `encodeState.string` writes for one byte. -/
def escapeByte (b : Fin 256) : Bytes :=
  if 128 ≤ b.val ∨ htmlSafe b then [b]
  else if b = backslash ∨ b = quote then [backslash, b]
  else if b.val = 10 then [backslash, 110]
  else if b.val = 13 then [backslash, 114]
  else if b.val = 9 then [backslash, 116]
  else [backslash, 117, 48, 48, hexDigit (b.val / 16), hexDigit (b.val % 16)]

/-- `json.Marshal` of a Go string. -/
def marshalString (s : Bytes) : Bytes := quote :: s.flatMap escapeByte ++ [quote]

/-- A string of HTML-safe bytes is written between quotes as it is. -/
theorem marshalString_of_htmlSafe {s : Bytes} (h : ∀ b ∈ s, htmlSafe b) :
    marshalString s = quote :: s ++ [quote] := by
  have hflat : s.flatMap escapeByte = s := by
    induction s with
    | nil => rfl
    | cons b s ih =>
      simp only [List.mem_cons, forall_eq_or_imp] at h
      simp [escapeByte, h.1, ih h.2]
  rw [marshalString, hflat]

/-- The digits `hex.Encode` writes are HTML-safe. -/
theorem htmlSafe_hexDigit : ∀ v < 16, htmlSafe (hexDigit v) := by decide

/-- Every byte of a hex encoding is HTML-safe. -/
theorem htmlSafe_of_mem_encode : ∀ {s : Bytes}, ∀ c ∈ Hex.encode s, htmlSafe c
  | [], _, h => absurd h (List.not_mem_nil _)
  | x :: xs, c, h => by
    simp only [Hex.encode, List.mem_cons] at h
    rcases h with rfl | rfl | h
    · exact htmlSafe_hexDigit _ (by omega)
    · exact htmlSafe_hexDigit _ (by omega)
    · exact htmlSafe_of_mem_encode c h

end CtMapReduce.Go.Json
