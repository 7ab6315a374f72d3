import CtMapReduce.Go.Base64
import CtMapReduce.Go.Time

/-!
# Storage value types

`Serial`, `Issuer` and `CertificateLog` of `storage/types.go`, and the fields of an
`x509.Certificate` that the storage code reads. A serial is its raw bytes and is named by
their URL-safe base64 encoding (`Serial.ID`), which `serialID_injective` shows names
serials apart. An issuer is named by `Issuer.ID()`; `NewIssuer` computes it lazily as the
base64 SHA-256 of the issuer's SPKI, which is not modelled, so an `Issuer` here is the ID
itself, as `NewIssuerFromString` builds it. The memoisation of the ID in the struct changes
no ID and is not modelled either.

`lastSaved` says what the three log-state stores are for: a load finds the last checkpoint
saved for its URL. `load_foldl_save` derives it over every run from one lemma per store about
a single save.
-/

namespace CtMapReduce.Storage
open CtMapReduce.Go

/-- `type Serial struct { serial []byte }` (`types.go:179-181`). -/
structure Serial where
  serial : Bytes
  deriving DecidableEq, Repr

/-- `Serial.ID()`: `base64.URLEncoding.EncodeToString(s.serial)` (`types.go:237-239`). -/
def Serial.id (s : Serial) : Bytes := Base64.encodeToString s.serial

/-- `NewSerialFromBytes` (`types.go:198-203`). -/
def newSerialFromBytes (b : Bytes) : Serial := ⟨b⟩

/-- `NewSerialFromIDString` (`types.go:215-221`): `none` where `DecodeString` fails. -/
def newSerialFromIDString (s : Bytes) : Option Serial :=
  (Base64.decodeString s).map newSerialFromBytes

theorem newSerialFromIDString_id (s : Serial) : newSerialFromIDString s.id = some s := by
  simp [newSerialFromIDString, Serial.id, Base64.decodeString_encode, newSerialFromBytes]

/-- Distinct serials have distinct IDs, so the known-set tells serials apart. -/
theorem serialID_injective : Function.Injective Serial.id := by
  intro a b h
  have := newSerialFromIDString_id a
  rw [h, newSerialFromIDString_id] at this
  exact (Option.some.inj this).symm

/-- `type Issuer struct` (`types.go:122-125`), as the ID `Issuer.ID()` returns. -/
structure Issuer where
  id : Bytes
  deriving DecidableEq, Repr

/-- `NewIssuerFromString` (`types.go:135-140`). -/
def newIssuerFromString (s : Bytes) : Issuer := ⟨s⟩

/-- `type CertificateLog struct` (`types.go:52-56`): the checkpoint of one CT log. -/
structure CertificateLog where
  shortURL : Bytes
  maxEntry : Int
  lastEntryTime : Time
  deriving DecidableEq, Repr

/-- The fields of an `x509.Certificate` that `Store` and `Accumulate` read. -/
structure Certificate where
  notAfter : Time
  crlDistributionPoints : List Bytes
  /-- `aCert.Issuer.String()`, the issuer distinguished name. -/
  issuerDN : Bytes
  deriving DecidableEq, Repr

/-- `aCert.NotAfter.Format(kExpirationFormat)`: the expiration date naming the shard. -/
def Certificate.expDate (c : Certificate) : Bytes := formatDate c.notAfter

/-- What the consumer of a Go channel sees: the values sent, in order, and whether the
    producer closed it; a `range` over a channel that is never closed blocks for ever. -/
structure Stream (α : Type) where
  sent : List α
  closed : Bool
  deriving DecidableEq, Repr

/-! ## What a log-state store is for -/

section LogState

variable {L : Type} (key : L → Bytes)

/-- The checkpoint a load of `url` should find after the saves `saved`: the last one saved for
    that URL, if any. -/
def lastSaved (saved : List L) (url : Bytes) : Option L :=
  saved.reverse.find? fun l => key l = url

@[simp] theorem lastSaved_nil (url : Bytes) : lastSaved key [] url = none := rfl

/-- A save in front of a run counts only when the run saves nothing for the URL. -/
theorem elim_lastSaved_cons {R : Type} (view : L → R) (d : R) (l : L) (saved : List L)
    (url : Bytes) :
    (lastSaved key saved url).elim (if key l = url then view l else d) view =
      (lastSaved key (l :: saved) url).elim d view := by
  simp only [lastSaved, List.reverse_cons, List.find?_append, List.find?_singleton]
  cases saved.reverse.find? fun l => key l = url <;> split_ifs <;> simp_all

/-- A store whose save of `l` changes the load of `key l` to `view l` and no other load
    answers every load after a run of saves with the last checkpoint saved for its URL. -/
theorem load_foldl_save {S R : Type} (save : S → L → S) (load : S → Bytes → R)
    (view : L → R)
    (hstep : ∀ s l url, load (save s l) url = if key l = url then view l else load s url)
    (saved : List L) (s : S) (url : Bytes) :
    load (saved.foldl save s) url = (lastSaved key saved url).elim (load s url) view := by
  induction saved generalizing s with
  | nil => rfl
  | cons l saved ih => rw [List.foldl_cons, ih, hstep, elim_lastSaved_cons]

end LogState

end CtMapReduce.Storage
