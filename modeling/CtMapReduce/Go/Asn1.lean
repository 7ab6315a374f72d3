import CtMapReduce.Go.Bytes
import Mathlib.Algebra.Group.Int

/-!
# DER INTEGERs: `encoding/asn1` and `big.Int.SetBytes`

`NewSerial` keeps the content bytes of a certificate's serial number INTEGER, and
`Serial.AsBigInt` reads them back with `(*big.Int).SetBytes`, as a big-endian unsigned number.
`x509.ParseCertificate` reads the same content with `parseBigInt` (`go/src/encoding/asn1/asn1.go`,
as in the certificate-transparency-go fork): `checkInteger`, then two's complement, a first byte
with its top bit set giving `-(SetBytes(^bytes) + 1)`. A DER element is taken as
`parseTagAndLength` leaves it, and `skipOptionalVersion` is the shared `parseField` code for the
first TBS field, `optional,explicit,tag:0`. `parseBigInt_eq` gives the value as `SetBytes` minus
`256^len` for a negative number, and with `setBytes_lt` the two readings agree exactly when the
first byte is below `0x80`.
-/

namespace CtMapReduce.Go.Asn1

/-- `(*big.Int).SetBytes(b)`: `b` as a big-endian unsigned integer. -/
def setBytes (b : Bytes) : Nat := b.foldl (fun n x => n * 256 + x.val) 0

/-- `checkInteger`: `false` for `"empty integer"` and `"integer not minimally-encoded"`. -/
def checkInteger : Bytes → Bool
  | [] => false
  | [_] => true
  | x :: y :: _ => !((x.val = 0 && y.val < 128) || (x.val = 255 && 128 ≤ y.val))

/-- `parseBigInt`: `none` where `checkInteger` fails; a first byte with its top bit set reads
    as `-(SetBytes(^bytes) + 1)`, any other as `SetBytes(bytes)`. -/
def parseBigInt (b : Bytes) : Option Int :=
  if checkInteger b = false then none
  else if 128 ≤ (b.headD 0).val then some (-((setBytes (b.map Fin.rev) : Int) + 1))
  else some (setBytes b)

/-- A DER element as `parseTagAndLength` reads it. -/
structure Element where
  cls : Nat
  compound : Bool
  tag : Nat
  content : Bytes
  deriving DecidableEq, Repr

/-- Whether `parseField` takes an element for a field tagged `explicit,tag:0`: class
    context-specific, tag 0, and empty or constructed. -/
def Element.isExplicitZero (e : Element) : Bool :=
  e.cls = 2 && e.tag = 0 && (e.content.isEmpty || e.compound)

/-- The elements left after a field `optional,explicit,tag:0`: the first is its value when it
    matches, and otherwise the field takes its default and reads nothing. -/
def skipOptionalVersion : List Element → List Element
  | e :: rest => if e.isExplicitZero then rest else e :: rest
  | [] => []

/-- Whether `parseField` accepts an element for a `*big.Int` field: universal `INTEGER`,
    primitive. -/
def Element.isInteger (e : Element) : Bool := e.cls = 0 && e.tag = 2 && !e.compound

theorem setBytes_append (b : Bytes) (x : Fin 256) :
    setBytes (b ++ [x]) = setBytes b * 256 + x.val := by
  simp [setBytes]

theorem setBytes_lt (b : Bytes) : setBytes b < 256 ^ b.length := by
  induction b using List.reverseRecOn with
  | nil => simp [setBytes]
  | append_singleton b x ih =>
    rw [setBytes_append, List.length_append, List.length_singleton, Nat.pow_succ]
    have := x.isLt
    generalize 256 ^ b.length = p at ih ⊢
    omega

/-- Complementing every byte complements the number:
    `SetBytes(^b) + SetBytes(b) = 256^len - 1`. -/
theorem setBytes_rev_add (b : Bytes) :
    setBytes (b.map Fin.rev) + setBytes b + 1 = 256 ^ b.length := by
  induction b using List.reverseRecOn with
  | nil => simp [setBytes]
  | append_singleton b x ih =>
    rw [List.map_append, List.map_singleton, setBytes_append, setBytes_append, List.length_append,
      List.length_singleton, Nat.pow_succ, ← ih, Fin.val_rev]
    have := x.isLt
    omega

/-- The value `parseBigInt` gives a well-formed INTEGER: `SetBytes` minus `256^len` when the
    first byte has its top bit set. -/
theorem parseBigInt_eq {b : Bytes} (h : checkInteger b = true) :
    parseBigInt b =
      some ((setBytes b : Int) - if 128 ≤ (b.headD 0).val then 256 ^ b.length else 0) := by
  have hrev : (setBytes (b.map Fin.rev) : Int) + setBytes b + 1 = 256 ^ b.length := by
    exact_mod_cast setBytes_rev_add b
  unfold parseBigInt
  rw [if_neg (by simp [h])]
  split_ifs with hneg
  · congr 1
    omega
  · simp

theorem checkInteger_of_parseBigInt {b : Bytes} {n : Int} (h : parseBigInt b = some n) :
    checkInteger b = true := by
  by_contra hc
  simp [parseBigInt, hc] at h

/-- A well-formed INTEGER is negative exactly when its first byte has its top bit set. -/
theorem parseBigInt_nonneg_iff {b : Bytes} {n : Int} (h : parseBigInt b = some n) :
    0 ≤ n ↔ (b.headD 0).val < 128 := by
  have hlt : (setBytes b : Int) < 256 ^ b.length := by exact_mod_cast setBytes_lt b
  rw [parseBigInt_eq (checkInteger_of_parseBigInt h), Option.some.injEq] at h
  subst h
  split_ifs with hneg <;> omega

end CtMapReduce.Go.Asn1
