import CtMapReduce.Storage.Types
import CtMapReduce.Go.Ascii85
import CtMapReduce.Go.Asn1
import CtMapReduce.Go.Json

/-!
# Serial codecs

The constructors and encodings of `Serial` in `storage/types.go:183-284`, beside `ID()` and
`NewSerialFromIDString` in `Storage/Types.lean`: hex (`HexString`, `NewSerialFromHex`), ascii85
(`Ascii85`, `NewSerialFromAscii85`), JSON and binary (`MarshalJSON` and the others), the serial of
a certificate (`NewSerial`) and its integer view (`AsBigInt`). A Go panic is `none`.

`serial_roundTrips` says every encoding reads back to the serial it encoded.
`unmarshalJSON_eq_ok_iff` says which inputs `UnmarshalJSON` accepts, and
`unmarshalJSON_panics_or_clobbers` shows what it does with the others: it indexes an empty
input, slices a lone quote, and stores a half-decoded serial before it returns the error.
`asBigInt_newSerial` compares `AsBigInt` with the `SerialNumber` that `x509.ParseCertificate`
reads. The two views of the same DER INTEGER agree exactly on non-negative serials.
-/

namespace CtMapReduce.Storage
open CtMapReduce.Go

/-- `NewSerial` (`types.go:189-196`): `asn1.Unmarshal` of `RawTBSCertificate` into
    `tbsCertWithRawSerial` (`types.go:183-187`), given the elements of the TBS `SEQUENCE`. After
    the optional version the next element is taken raw, whatever its tag, and its content is
    kept; `none` is the panic on an `Unmarshal` error. -/
def newSerial (tbs : List Asn1.Element) : Option Serial :=
  match Asn1.skipOptionalVersion tbs with
  | e :: _ => some (newSerialFromBytes e.content)
  | [] => none

/-- The `SerialNumber` that `x509.ParseCertificate` reads from the same TBS elements: after the
    version, a primitive universal `INTEGER` read by `parseBigInt`. The fields after it are
    checked too and not modelled here, so every certificate it accepts is accepted here. -/
def x509SerialNumber (tbs : List Asn1.Element) : Option Int :=
  match Asn1.skipOptionalVersion tbs with
  | e :: _ => if e.isInteger then Asn1.parseBigInt e.content else none
  | [] => none

/-- `NewSerialFromHex` (`types.go:205-213`): `none` is the panic on a decode error. -/
def newSerialFromHex (s : Bytes) : Option Serial :=
  match Hex.decodeString s with
  | (b, none) => some ⟨b⟩
  | (_, some _) => none

/-- The errors of `NewSerialFromAscii85`. -/
inductive Ascii85Error where
  /-- The `CorruptInputError` of `ascii85.Decode`. -/
  | corruptInput (offset : Nat)
  /-- `"Problem decoding Ascii85 str=[%s]: decoded %d/%d: %+v"`, for `nsrc != len(s)`. -/
  | incomplete (nsrc ndst : Nat)
  deriving DecidableEq, Repr

/-- `NewSerialFromAscii85` (`types.go:223-235`): decode into `make([]byte, 4*len(s))`, then
    reject a decode that stopped before the end of `s`. -/
def newSerialFromAscii85 (s : Bytes) : Except Ascii85Error Serial :=
  match Ascii85.decode (4 * s.length) s true with
  | .error i => .error (.corruptInput i)
  | .ok (dst, nsrc) => if nsrc ≠ s.length then .error (.incomplete nsrc dst.length) else .ok ⟨dst⟩

/-- `Serial.HexString()` (`types.go:245-247`), which `String()` returns. -/
def Serial.hexString (s : Serial) : Bytes := Hex.encodeToString s.serial

/-- `Serial.Ascii85()` (`types.go:249-253`): `Encode` into `make([]byte, MaxEncodedLen(n))`;
    `none` is an index-out-of-range panic of `Encode`. -/
def Serial.ascii85 (s : Serial) : Option Bytes :=
  Ascii85.encodeLoop (Ascii85.maxEncodedLen s.serial.length) s.serial

/-- `Serial.MarshalJSON()` (`types.go:259-261`); `json.Marshal` of a string returns no error. -/
def Serial.marshalJSON (s : Serial) : Bytes := Json.marshalString s.hexString

/-- The errors of `UnmarshalJSON`. -/
inductive UnmarshalError where
  /-- `fmt.Errorf("Expected surrounding quotes")`. -/
  | expectedSurroundingQuotes
  /-- The error of `hex.DecodeString`. -/
  | hex (e : Hex.Error)
  deriving DecidableEq, Repr

/-- `(*Serial).UnmarshalJSON(data)` (`types.go:263-270`): the receiver afterwards and the
    returned error. `none` is a panic: `data[0]` of an empty input, or `data[1:0]` of a lone
    quote. The receiver takes the bytes `hex.DecodeString` returns even beside an error. -/
def Serial.unmarshalJSON (s : Serial) (data : Bytes) : Option (Serial × Option UnmarshalError) :=
  match data with
  | [] => none
  | c :: rest =>
    if c ≠ Json.quote ∨ (c :: rest).getLast (List.cons_ne_nil c rest) ≠ Json.quote then
      some (s, some .expectedSurroundingQuotes)
    else if rest = [] then none
    else some (⟨(Hex.decodeString rest.dropLast).1⟩, (Hex.decodeString rest.dropLast).2.map .hex)

/-- `Serial.MarshalBinary()` (`types.go:272-274`). -/
def Serial.marshalBinary (s : Serial) : Bytes := s.marshalJSON

/-- `(*Serial).UnmarshalBinary(data)` (`types.go:276-278`). -/
def Serial.unmarshalBinary (s : Serial) (data : Bytes) :
    Option (Serial × Option UnmarshalError) :=
  s.unmarshalJSON data

/-- `(*Serial).AsBigInt()` (`types.go:280-284`): `big.NewInt(0).SetBytes(s.serial)`. -/
def Serial.asBigInt (s : Serial) : Nat := Asn1.setBytes s.serial

/-! ## Round trips -/

theorem newSerialFromHex_hexString (s : Serial) : newSerialFromHex s.hexString = some s := by
  simp [newSerialFromHex, Serial.hexString, Hex.decodeString_encodeToString]

theorem ascii85_round_trip (s : Serial) :
    ∃ t, s.ascii85 = some t ∧ Ascii85.decode (4 * t.length) t true = .ok (s.serial, t.length) ∧
      newSerialFromAscii85 t = .ok s := by
  obtain ⟨t, ht⟩ := Option.isSome_iff_exists.1
    (Ascii85.encodeLoop_isSome (Ascii85.maxEncodedLen s.serial.length) s.serial le_rfl)
  have hdec := Ascii85.decode_encodeLoop ht
  exact ⟨t, ht, hdec, by simp [newSerialFromAscii85, hdec]⟩

/-- A quoted string whose middle is longer than nothing unmarshals as its middle decodes. -/
theorem unmarshalJSON_quoted (r : Serial) (m : Bytes) :
    r.unmarshalJSON (Json.quote :: m ++ [Json.quote]) =
      some (⟨(Hex.decodeString m).1⟩, (Hex.decodeString m).2.map .hex) := by
  simp [Serial.unmarshalJSON, List.dropLast_append_of_ne_nil]

theorem unmarshalJSON_marshalJSON (r s : Serial) :
    r.unmarshalJSON s.marshalJSON = some (s, none) := by
  have h := Hex.decodeString_encodeToString s.serial
  rw [Hex.encodeToString] at h
  rw [Serial.marshalJSON, Serial.hexString, Hex.encodeToString,
    Json.marshalString_of_htmlSafe Json.htmlSafe_of_mem_encode, unmarshalJSON_quoted, h]
  rfl

/-- For every byte string `b`, the serial `NewSerialFromBytes(b)` reads back from its ID, its hex
    string, its ascii85 string and its JSON and binary encodings. The ascii85 decode needs no
    more than the `4*len` bytes it is given and consumes its whole input. -/
theorem serial_roundTrips (b : Bytes) :
    newSerialFromIDString (newSerialFromBytes b).id = some ⟨b⟩ ∧
      newSerialFromHex (newSerialFromBytes b).hexString = some ⟨b⟩ ∧
      (∃ t, (newSerialFromBytes b).ascii85 = some t ∧
        Ascii85.decode (4 * t.length) t true = .ok (b, t.length) ∧
        newSerialFromAscii85 t = .ok ⟨b⟩) ∧
      (∀ r : Serial, r.unmarshalJSON (newSerialFromBytes b).marshalJSON = some (⟨b⟩, none)) ∧
      (∀ r : Serial, r.unmarshalBinary (newSerialFromBytes b).marshalBinary = some (⟨b⟩, none)) :=
  ⟨newSerialFromIDString_id _, newSerialFromHex_hexString _, ascii85_round_trip _,
    fun r => unmarshalJSON_marshalJSON r _, fun r => unmarshalJSON_marshalJSON r _⟩

/-! ## `UnmarshalJSON` on every input -/

/-- `UnmarshalJSON` succeeds exactly on a quote, an even number of hex digits of either case,
    and a quote, and then holds the decoded bytes. -/
theorem unmarshalJSON_eq_ok_iff (r s : Serial) (data : Bytes) :
    r.unmarshalJSON data = some (s, none) ↔ ∃ m, data = Json.quote :: m ++ [Json.quote] ∧
      m.length % 2 = 0 ∧ (∀ c ∈ m, (Hex.fromHexChar c).isSome) ∧
      s = ⟨(Hex.decodeString m).1⟩ := by
  constructor
  · intro h
    match data, h with
    | c :: rest, h =>
      simp only [Serial.unmarshalJSON] at h
      split_ifs at h with hq hnil
      · simp at h
      simp only [not_or, ne_eq, not_not] at hq
      obtain ⟨rfl, hlast⟩ := hq
      simp only [Option.some.injEq, Prod.mk.injEq, Option.map_eq_none'] at h
      obtain ⟨heven, hhex⟩ := (Hex.decode_ok_iff _).1 h.2
      refine ⟨rest.dropLast, ?_, heven, hhex, h.1.symm⟩
      rw [List.getLast_cons hnil] at hlast
      conv_lhs => rw [← List.dropLast_append_getLast hnil, hlast]
      rfl
  · rintro ⟨m, rfl, heven, hhex, rfl⟩
    rw [unmarshalJSON_quoted, Hex.decodeString, (Hex.decode_ok_iff m).2 ⟨heven, hhex⟩]
    rfl

/-- `UnmarshalJSON`, and `UnmarshalBinary` with it, panics on an empty input and on a lone
    quote; on a quoted string that is not hex it returns the error after storing in the receiver
    the bytes decoded before the bad digit, here none. -/
theorem unmarshalJSON_panics_or_clobbers (r : Serial) :
    r.unmarshalJSON [] = none ∧ r.unmarshalBinary [] = none ∧
      r.unmarshalJSON [Json.quote] = none ∧ r.unmarshalBinary [Json.quote] = none ∧
      (⟨[1]⟩ : Serial).unmarshalJSON (ascii "\"zz\"") =
        some (⟨[]⟩, some (.hex (.invalidByte 122))) :=
  ⟨rfl, rfl, rfl, rfl, rfl⟩

/-! ## The serial of a certificate as an integer -/

/-- For every TBS from which `x509.ParseCertificate` reads a `SerialNumber` `n`, `NewSerial` does
    not panic, and its `AsBigInt` is `n` exactly when `n` is not negative; for a negative `n` it
    is `n + 256^len`, a positive number. -/
theorem asBigInt_newSerial {tbs : List Asn1.Element} {n : Int} (h : x509SerialNumber tbs = some n) :
    ∃ s, newSerial tbs = some s ∧ ((s.asBigInt : Int) = n ↔ 0 ≤ n) ∧
      (n < 0 → (s.asBigInt : Int) = n + 256 ^ s.serial.length) := by
  unfold x509SerialNumber at h
  unfold newSerial
  rcases hv : Asn1.skipOptionalVersion tbs with _ | ⟨e, rest⟩
  · simp [hv] at h
  · simp only [hv, ite_eq_right_iff] at h ⊢
    split_ifs at h with hint
    have hlt : (Asn1.setBytes e.content : Int) < 256 ^ e.content.length := by
      exact_mod_cast Asn1.setBytes_lt _
    rw [Asn1.parseBigInt_eq (Asn1.checkInteger_of_parseBigInt h), Option.some.injEq] at h
    refine ⟨_, rfl, ?_, fun hn => ?_⟩ <;> simp only [Serial.asBigInt, newSerialFromBytes] <;>
      split_ifs at h <;> omega

theorem asBigInt_newSerial_negative :
    x509SerialNumber [⟨0, false, 2, [128]⟩] = some (-128) ∧
      ∃ s, newSerial [⟨0, false, 2, [128]⟩] = some s ∧
        ((s.asBigInt : Int) = -128 ↔ 0 ≤ (-128 : Int)) ∧
        ((-128 : Int) < 0 → (s.asBigInt : Int) = -128 + 256 ^ s.serial.length) :=
  ⟨rfl, asBigInt_newSerial rfl⟩

end CtMapReduce.Storage
