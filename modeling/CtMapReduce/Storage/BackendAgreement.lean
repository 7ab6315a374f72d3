import CtMapReduce.Storage.FirestoreListing
import CtMapReduce.Storage.MockBackend
import Mathlib.Data.List.Dedup

/-!
# The mock and the Firestore backend on the same calls

`MockBackend` (`storage/mockbackend.go`) and `FirestoreBackend` (`storage/firestorebackend.go`)
implement one `StorageBackend`. Here one run of `AllocateExpDateAndIssuer` and
`StoreCertificatePEM` calls (`BackendCall`) goes to both, every Firestore call succeeding, and
their reads are compared. Firestore needs non-empty plain names (`BackendCall.Named`); the mock
joins the parts of its keys with no separator, so a key names one document only when the dates
of the run have one length and the issuer IDs one length (`BackendCall.Sized`), as the
program's `2006-01-02` dates and digest IDs have. Then `LoadCertificatePEM` agrees on a document
whose stores all carry the same bytes (`loads_agree`: Firestore keeps the first store, the mock
the last); Firestore's serial listing, in any delivery order, is a permutation of the mock's list
without its repeats (`serials_agree`); and its issuer listing is a permutation of the mock's
sorted list (`issuers_agree`).
-/

namespace CtMapReduce.Storage
open CtMapReduce.Go FirestoreBackend

/-- A call of `StorageBackend` that writes a certificate's documents. -/
inductive BackendCall where
  | allocate (expDate : Bytes) (issuer : Issuer)
  | store (serial : Serial) (expDate : Bytes) (issuer : Issuer) (b : Bytes)
  deriving DecidableEq, Repr

namespace BackendCall

/-- The call on the mock. -/
def mock (db : MockBackend) : BackendCall → MockBackend
  | .allocate expDate issuer => db.allocateExpDateAndIssuer expDate issuer
  | .store serial expDate issuer b => db.storeCertificatePEM serial expDate issuer b

/-- The call on Firestore, every Firestore call it makes succeeding; the `%v` text of the issuer
    is read only by error messages. -/
def firestore : BackendCall → Write
  | .allocate expDate issuer => .allocate expDate issuer issuer.id none none
  | .store serial expDate issuer b => .storePEM serial expDate issuer b none

def expDate : BackendCall → Bytes
  | .allocate expDate _ | .store _ expDate _ _ => expDate

def issuer : BackendCall → Issuer
  | .allocate _ issuer | .store _ _ issuer _ => issuer

/-- The bytes a call stores for the document of `serial`, `expDate` and `issuer`. -/
def storedAt (serial : Serial) (expDate : Bytes) (issuer : Issuer) : BackendCall → Option Bytes
  | .store s e i b => if s = serial ∧ e = expDate ∧ i = issuer then some b else none
  | .allocate .. => none

/-- The date and issuer a call allocates. -/
def allocation? : BackendCall → Option (Bytes × Issuer)
  | .allocate expDate issuer => some (expDate, issuer)
  | .store .. => none

/-- A call's date and issuer ID are non-empty and plain. -/
def Named (c : BackendCall) : Prop := ∀ n ∈ [c.expDate, c.issuer.id], n ≠ [] ∧ Plain n

/-- A call's date has `dateLen` bytes and its issuer ID `idLen`. -/
def Sized (dateLen idLen : Nat) (c : BackendCall) : Prop :=
  c.expDate.length = dateLen ∧ c.issuer.id.length = idLen

instance (c : BackendCall) : Decidable c.Named :=
  inferInstanceAs (Decidable (∀ n ∈ [c.expDate, c.issuer.id], n ≠ [] ∧ Plain n))

instance (dateLen idLen : Nat) (c : BackendCall) : Decidable (c.Sized dateLen idLen) :=
  inferInstanceAs (Decidable (c.expDate.length = dateLen ∧ c.issuer.id.length = idLen))

/-- The only call that stores bytes for a document is a store of its names. -/
theorem eq_store_of_storedAt {c : BackendCall} {serial : Serial} {expDate : Bytes}
    {issuer : Issuer} {b : Bytes} (h : c.storedAt serial expDate issuer = some b) :
    c = .store serial expDate issuer b := by
  rcases c with ⟨e, i⟩ | ⟨s, e, i, b'⟩
  · cases h
  · simp only [storedAt] at h
    split_ifs at h with hc
    obtain ⟨rfl, rfl, rfl⟩ := hc
    cases h
    rfl

theorem names_firestore (c : BackendCall) : c.firestore.names = [c.expDate, c.issuer.id] := by
  cases c <;> rfl

end BackendCall

/-- The mock after a run of calls from `NewMockBackend`. -/
def mockRun (calls : List BackendCall) : MockBackend :=
  calls.foldl BackendCall.mock MockBackend.new

/-- Firestore's documents after the same run, from an empty store. -/
def firestoreRun (calls : List BackendCall) : GoMap CtDoc :=
  (calls.map BackendCall.firestore).foldl Write.apply ∅

theorem Issuer.eq_of_id {i i' : Issuer} (h : i.id = i'.id) : i = i' := by
  cases i
  cases i'
  cases h
  rfl

/-- An issuer is its ID. -/
theorem Issuer.exists_id_iff {P : Issuer → Prop} {i : Issuer} : (∃ a, P a ∧ a.id = i.id) ↔ P i :=
  ⟨fun ⟨_, h, hid⟩ => Issuer.eq_of_id hid ▸ h, fun h => ⟨i, h, rfl⟩⟩

/-- Where every some-value of `f` on `l` is the same, the first and the last agree. -/
theorem findSome?_reverse_eq {α β : Type} {f : α → Option β} {l : List α}
    (h : ∀ a ∈ l, ∀ a' ∈ l, ∀ b b', f a = some b → f a' = some b' → b = b') :
    l.reverse.findSome? f = l.findSome? f := by
  rcases hl : l.findSome? f with _ | b
  · exact List.findSome?_eq_none_iff.2 fun a ha =>
      List.findSome?_eq_none_iff.1 hl a (List.mem_reverse.1 ha)
  · obtain ⟨a, ha, hab⟩ := List.exists_of_findSome?_eq_some hl
    rcases hr : l.reverse.findSome? f with _ | b'
    · exact absurd hab (by rw [List.findSome?_eq_none_iff.1 hr a (List.mem_reverse.2 ha)]; simp)
    · obtain ⟨a', ha', hab'⟩ := List.exists_of_findSome?_eq_some hr
      rw [h a' (List.mem_reverse.1 ha') a ha b' b hab' hab]

/-! ## Firestore: the first store wins -/

section Firestore

variable {calls : List BackendCall} (hnamed : ∀ c ∈ calls, c.Named)
include hnamed

theorem names_firestoreRun : ∀ w ∈ calls.map BackendCall.firestore, ∀ n ∈ w.names, Plain n := by
  intro w hw n hn
  obtain ⟨c, hc, rfl⟩ := List.mem_map.1 hw
  rw [BackendCall.names_firestore] at hn
  exact (hnamed c hc n hn).2

omit hnamed in
/-- Firestore creates the document of `serial`, `expDate` and `issuer` with the bytes of a store
    of exactly those names. -/
theorem createsAt_firestore {c : BackendCall} (hc : c.Named) {serial : Serial} {expDate : Bytes}
    {issuer : Issuer} (hq : ∀ n ∈ [expDate, issuer.id, serial.id], n ≠ [] ∧ Plain n) :
    c.firestore.createsAt (pemDocPath serial expDate issuer) = c.storedAt serial expDate issuer := by
  rcases c with ⟨e, i⟩ | ⟨s, e, i, b⟩
  · rfl
  · have hn : ∀ n ∈ [e, i.id], n ≠ [] ∧ Plain n := hc
    simp only [List.mem_cons, List.mem_singleton, List.not_mem_nil, or_false, forall_eq_or_imp,
      forall_eq] at hn
    simp only [BackendCall.firestore, Write.createsAt, BackendCall.storedAt]
    by_cases h : s = serial ∧ e = expDate ∧ i = issuer
    · obtain ⟨rfl, rfl, rfl⟩ := h
      simp [List.isEmpty_iff, hn.1.1]
    · rw [if_neg h, if_neg]
      intro hp
      simp only [Bool.and_eq_true, beq_iff_eq] at hp
      obtain ⟨he, hi, hs⟩ := certDocPath_eq_pemDocPath hq hn.1.2 hn.2.2 hp.2.symm
      exact h ⟨serialID_injective hs, he, Issuer.eq_of_id hi⟩

/-- The bytes Firestore keeps for a document are those of the first store of its names. -/
theorem firstCreated_firestore {serial : Serial} {expDate : Bytes} {issuer : Issuer}
    (hq : ∀ n ∈ [expDate, issuer.id, serial.id], n ≠ [] ∧ Plain n) :
    firstCreated (pemDocPath serial expDate issuer) (calls.map BackendCall.firestore) =
      calls.findSome? (BackendCall.storedAt serial expDate issuer) := by
  induction calls with
  | nil => rfl
  | cons c cs ih =>
    rw [List.map_cons, firstCreated, List.findSome?_cons, List.findSome?_cons,
      createsAt_firestore (hnamed c (.head _)) hq, ← firstCreated,
      ih fun c h => hnamed c (.tail _ h)]

omit hnamed in
theorem setsIssuer_firestore {c : BackendCall} (hc : c.Named) (expDate id : Bytes) :
    c.firestore.setsIssuer expDate id = true ↔ ∃ i, c = .allocate expDate i ∧ i.id = id := by
  rcases c with ⟨e, i⟩ | ⟨s, e, i, b⟩
  · have hn : ∀ n ∈ [e, i.id], n ≠ [] ∧ Plain n := hc
    simp only [List.mem_cons, List.mem_singleton, List.not_mem_nil, or_false, forall_eq_or_imp,
      forall_eq] at hn
    rw [BackendCall.firestore, Write.setsIssuer_allocate]
    constructor
    · rintro ⟨-, -, -, -, rfl, rfl⟩
      exact ⟨i, rfl, rfl⟩
    · rintro ⟨i', h, rfl⟩
      cases h
      exact ⟨isDocPath_expDatePath hn.1, rfl, isDocPath_issuerPath hn.1 hn.2, rfl, rfl, rfl⟩
  · exact ⟨fun h => absurd h Bool.false_ne_true, fun ⟨_, h, _⟩ => by cases h⟩

end Firestore

/-! ## The mock: the last store wins -/

section Mock

variable {dateLen idLen : Nat} {serial : Serial} {expDate : Bytes} {issuer : Issuer}

/-- The mock's PEM keys of dates of one length and issuer IDs of one length name one document. -/
theorem pemKey_inj {e e' : Bytes} {i i' : Issuer} {s s' : Serial} (he : e.length = e'.length)
    (hi : i.id.length = i'.id.length)
    (h : ascii "pem" ++ e ++ i.id ++ s.id = ascii "pem" ++ e' ++ i'.id ++ s'.id) :
    s = s' ∧ e = e' ∧ i = i' := by
  obtain ⟨h₁, hs⟩ := List.append_inj h (by simp only [List.length_append, he, hi])
  obtain ⟨h₂, hi'⟩ := List.append_inj h₁ (by simp only [List.length_append, he])
  exact ⟨serialID_injective hs, List.append_cancel_left h₂, Issuer.eq_of_id hi'⟩

/-- A call changes the mock's bytes of the document of `serial`, `expDate` and `issuer` only by
    storing exactly those names. -/
theorem lookup_mock {c : BackendCall} (hc : c.Sized dateLen idLen)
    (hq : expDate.length = dateLen ∧ issuer.id.length = idLen) (db : MockBackend) :
    (c.mock db).store.lookup (ascii "pem" ++ expDate ++ issuer.id ++ serial.id) =
      (c.storedAt serial expDate issuer).orElse fun _ =>
        db.store.lookup (ascii "pem" ++ expDate ++ issuer.id ++ serial.id) := by
  rcases c with ⟨e, i⟩ | ⟨s, e, i, b⟩
  · rw [BackendCall.mock, MockBackend.store_allocate]
    rfl
  · simp only [BackendCall.mock, BackendCall.storedAt, MockBackend.storeCertificatePEM]
    by_cases h : s = serial ∧ e = expDate ∧ i = issuer
    · obtain ⟨rfl, rfl, rfl⟩ := h
      rw [if_pos ⟨rfl, rfl, rfl⟩, AList.lookup_insert]
      rfl
    · rw [if_neg h, AList.lookup_insert_ne fun hk =>
        h (pemKey_inj (hc.1.trans hq.1.symm) (hc.2.trans hq.2.symm) hk.symm)]
      rfl

/-- After any run, the mock holds the bytes of the last store of a document. -/
theorem lookup_mock_run {calls : List BackendCall} (hsized : ∀ c ∈ calls, c.Sized dateLen idLen)
    (hq : expDate.length = dateLen ∧ issuer.id.length = idLen) :
    ∀ db : MockBackend,
      (calls.foldl BackendCall.mock db).store.lookup (ascii "pem" ++ expDate ++ issuer.id ++ serial.id) =
        (calls.reverse.findSome? (BackendCall.storedAt serial expDate issuer)).orElse fun _ =>
          db.store.lookup (ascii "pem" ++ expDate ++ issuer.id ++ serial.id) := by
  induction calls with
  | nil => exact fun _ => rfl
  | cons c cs ih =>
    intro db
    rw [List.foldl_cons, ih fun c h => hsized c (.tail _ h), lookup_mock (hsized c (.head _)) hq,
      List.reverse_cons, List.findSome?_append, List.findSome?_cons, List.findSome?_nil]
    cases cs.reverse.findSome? (BackendCall.storedAt serial expDate issuer) <;>
      cases c.storedAt serial expDate issuer <;> rfl

theorem serials_allocate (db : MockBackend) (e : Bytes) (i : Issuer) :
    (db.allocateExpDateAndIssuer e i).expDateIssuerIDToSerials = db.expDateIssuerIDToSerials := by
  dsimp only [MockBackend.allocateExpDateAndIssuer]
  split_ifs <;> rfl

/-- A call adds a serial to the mock's list of a shard only by storing it into that shard. -/
theorem mem_listSerials_mock {c : BackendCall} (hc : c.Sized dateLen idLen)
    (hq : expDate.length = dateLen ∧ issuer.id.length = idLen) (db : MockBackend) (s : Serial) :
    s ∈ (c.mock db).listSerialsForExpirationDateAndIssuer expDate issuer ↔
      (∃ b, .store s expDate issuer b = c) ∨
        s ∈ db.listSerialsForExpirationDateAndIssuer expDate issuer := by
  rcases c with ⟨e, i⟩ | ⟨s', e, i, b⟩
  · simp [BackendCall.mock, MockBackend.listSerialsForExpirationDateAndIssuer, serials_allocate]
  · simp only [BackendCall.mock, MockBackend.listSerialsForExpirationDateAndIssuer,
      MockBackend.storeCertificatePEM, BackendCall.store.injEq]
    by_cases h : e = expDate ∧ i = issuer
    · obtain ⟨rfl, rfl⟩ := h
      rw [GoMap.getD_insert_self, List.mem_append, List.mem_singleton]
      simp only [true_and, exists_eq_right]
      exact or_comm
    · have hk : expDate ++ issuer.id ≠ e ++ i.id := fun hk => by
        obtain ⟨he, hi⟩ := List.append_inj hk (hq.1.trans hc.1.symm)
        exact h ⟨he.symm, Issuer.eq_of_id hi.symm⟩
      rw [GoMap.getD_insert_ne _ _ _ hk]
      exact ⟨.inr, fun h' => h'.elim (fun ⟨_, hc⟩ => absurd ⟨hc.2.1.symm, hc.2.2.1.symm⟩ h) id⟩

/-- After any run, the mock lists a serial for a shard exactly when a store of the run put it
    there. -/
theorem mem_listSerials_mock_run {calls : List BackendCall}
    (hsized : ∀ c ∈ calls, c.Sized dateLen idLen)
    (hq : expDate.length = dateLen ∧ issuer.id.length = idLen) (s : Serial) :
    ∀ db : MockBackend,
      s ∈ (calls.foldl BackendCall.mock db).listSerialsForExpirationDateAndIssuer expDate issuer ↔
        (∃ b, .store s expDate issuer b ∈ calls) ∨
          s ∈ db.listSerialsForExpirationDateAndIssuer expDate issuer := by
  induction calls with
  | nil => simp
  | cons c cs ih =>
    intro db
    rw [List.foldl_cons, ih (fun c h => hsized c (.tail _ h)),
      mem_listSerials_mock (hsized c (.head _)) hq]
    simp only [List.mem_cons, exists_or, or_assoc]
    exact or_left_comm

/-- An allocation reads and writes only the mock's issuer lists. -/
theorem expDateToIssuer_allocate {db db' : MockBackend}
    (h : db.expDateToIssuer = db'.expDateToIssuer) (e : Bytes) (i : Issuer) :
    (db.allocateExpDateAndIssuer e i).expDateToIssuer =
      (db'.allocateExpDateAndIssuer e i).expDateToIssuer := by
  dsimp only [MockBackend.allocateExpDateAndIssuer]
  rw [h]
  split_ifs
  · exact h
  · rfl

/-- The mock's issuer lists after a run are those of its allocations alone. -/
theorem expDateToIssuer_mock_run (calls : List BackendCall) :
    ∀ db db' : MockBackend, db.expDateToIssuer = db'.expDateToIssuer →
      (calls.foldl BackendCall.mock db).expDateToIssuer =
        (db'.runAllocations (calls.filterMap BackendCall.allocation?)).expDateToIssuer := by
  induction calls with
  | nil => exact fun _ _ h => h
  | cons c cs ih =>
    intro db db' h
    rcases c with ⟨e, i⟩ | ⟨s, e, i, b⟩
    · exact ih _ _ (expDateToIssuer_allocate h e i)
    · exact ih _ _ h

theorem mem_allocations {calls : List BackendCall} {e : Bytes} {i : Issuer} :
    (e, i) ∈ calls.filterMap BackendCall.allocation? ↔ .allocate e i ∈ calls := by
  rw [List.mem_filterMap]
  constructor
  · rintro ⟨⟨e', i'⟩ | ⟨s, e', i', b⟩, hc, h⟩ <;> cases h
    exact hc
  · exact fun h => ⟨_, h, rfl⟩

/-- After any run, the mock lists each issuer allocated under a date once, in order of ID, and
    nothing else. -/
theorem listIssuers_mock_run (calls : List BackendCall) (e : Bytes) :
    ((mockRun calls).listIssuersForExpirationDate e).Nodup ∧
      ∀ i, i ∈ (mockRun calls).listIssuersForExpirationDate e ↔ .allocate e i ∈ calls := by
  have hrun := expDateToIssuer_mock_run calls MockBackend.new MockBackend.new rfl
  obtain ⟨hs, hmem⟩ := MockBackend.runAllocations_spec (calls.filterMap BackendCall.allocation?)
    MockBackend.new fun e => by simp [MockBackend.issuerIDs_new]
  have hlist : (mockRun calls).listIssuersForExpirationDate e =
      (MockBackend.new.runAllocations (calls.filterMap BackendCall.allocation?)).listIssuersForExpirationDate e := by
    rw [MockBackend.listIssuersForExpirationDate, MockBackend.listIssuersForExpirationDate, mockRun,
      hrun]
  rw [hlist]
  refine ⟨List.Nodup.of_map Issuer.id (hs e).nodup, fun i => ?_⟩
  have hi := hmem e i.id
  rw [MockBackend.issuerIDs_new] at hi
  simpa only [MockBackend.issuerIDs, List.not_mem_nil, false_or, List.mem_map, mem_allocations,
    Issuer.exists_id_iff] using hi

end Mock

/-! ## The two backends agree -/

/-- After any run of `AllocateExpDateAndIssuer` and `StoreCertificatePEM` calls made to the mock
    and to a Firestore whose calls all succeed, with names that are non-empty, plain and
    have one length per kind, `LoadCertificatePEM` of a document of such names finds the same
    bytes in both, or nothing in both, when every store of that document carries the same
    bytes. -/
theorem loads_agree (calls : List BackendCall) {dateLen idLen : Nat}
    (hnamed : ∀ c ∈ calls, c.Named) (hsized : ∀ c ∈ calls, c.Sized dateLen idLen)
    (serial : Serial) (expDate : Bytes) (issuer : Issuer)
    (hnames : ∀ n ∈ [expDate, issuer.id], n ≠ [] ∧ Plain n) (hserial : serial.serial ≠ [])
    (hlen : expDate.length = dateLen ∧ issuer.id.length = idLen)
    (hsame : ∀ b b', .store serial expDate issuer b ∈ calls →
      .store serial expDate issuer b' ∈ calls → b = b') :
    (loadCertificatePEM none (firestoreRun calls) serial expDate issuer).map Except.toOption =
      some ((mockRun calls).loadCertificatePEM serial expDate issuer).toOption := by
  have h3 := names_snoc hnames ⟨serial_id_ne_nil hserial, plain_serial_id serial⟩
  have halloc : ∀ e i t setErr₁ setErr₂,
      Write.allocate e i t setErr₁ setErr₂ ∈ calls.map BackendCall.firestore →
        Plain e ∧ Plain i.id := fun e i t setErr₁ setErr₂ h => by
    simpa [Write.names] using names_firestoreRun hnamed _ h
  have hfirst : (firestoreRun calls).lookup (pemDocPath serial expDate issuer) =
      (calls.findSome? (BackendCall.storedAt serial expDate issuer)).map .pem := by
    rw [firestoreRun, lookup_run _ h3 halloc ∅, firstCreated_firestore hnamed h3]
    rfl
  have hlast : (mockRun calls).store.lookup (ascii "pem" ++ expDate ++ issuer.id ++ serial.id) =
      calls.findSome? (BackendCall.storedAt serial expDate issuer) := by
    rw [mockRun, lookup_mock_run hsized hlen, findSome?_reverse_eq fun a ha a' ha' b b' hb hb' =>
      hsame b b' (BackendCall.eq_store_of_storedAt hb ▸ ha)
        (BackendCall.eq_store_of_storedAt hb' ▸ ha')]
    cases calls.findSome? (BackendCall.storedAt serial expDate issuer) <;> rfl
  rw [loadCertificatePEM_of_lookup h3 hfirst, MockBackend.loadCertificatePEM, hlast]
  cases calls.findSome? (BackendCall.storedAt serial expDate issuer) <;> rfl

theorem loads_agree_storedTwice :
    let e := ascii "2024-01-01"
    let i : Issuer := ⟨ascii "iss"⟩
    let s : Serial := ⟨[1, 2]⟩
    let calls := [BackendCall.allocate e i, .store s e i (ascii "one"), .store s e i (ascii "one")]
    (∀ c ∈ calls, c.Named) ∧ (∀ c ∈ calls, c.Sized 10 3) ∧
      (∀ n ∈ [e, i.id], n ≠ [] ∧ Plain n) ∧ s.serial ≠ [] ∧ (e.length = 10 ∧ i.id.length = 3) ∧
      (∀ b b', .store s e i b ∈ calls → .store s e i b' ∈ calls → b = b') ∧
      (loadCertificatePEM none (firestoreRun calls) s e i).map Except.toOption =
        some ((mockRun calls).loadCertificatePEM s e i).toOption := by
  intro e i s calls
  have hnamed : ∀ c ∈ calls, c.Named := by decide
  have hsized : ∀ c ∈ calls, c.Sized 10 3 := by decide
  have hnames : ∀ n ∈ [e, i.id], n ≠ [] ∧ Plain n := by decide
  have hsame : ∀ b b', .store s e i b ∈ calls → .store s e i b' ∈ calls → b = b' := by
    intro b b' hb hb'
    simp [calls] at hb hb'
    rw [hb, hb']
  exact ⟨hnamed, hsized, hnames, by decide, by decide, hsame,
    loads_agree calls hnamed hsized s e i hnames (by decide) (by decide) hsame⟩

/-- After any such run, in which every store has a non-empty serial, Firestore's
    `ListSerialsForExpirationDateAndIssuer` of a shard, for every order its query may deliver the
    documents in and whatever `DeadlineExceeded` errors the pages meet, lists the serials of the
    mock's list for the shard, each once. -/
theorem serials_agree (calls : List BackendCall) {dateLen idLen : Nat}
    (hnamed : ∀ c ∈ calls, c.Named) (hsized : ∀ c ∈ calls, c.Sized dateLen idLen)
    (hserials : ∀ s e i b, .store s e i b ∈ calls → s.serial ≠ [])
    (expDate : Bytes) (issuer : Issuer) (hnames : ∀ n ∈ [expDate, issuer.id], n ≠ [] ∧ Plain n)
    (hlen : expDate.length = dateLen ∧ issuer.id.length = idLen)
    (ids : List Bytes) (hq : IsPemQuery (firestoreRun calls) expDate issuer ids)
    (ends : List IterEnd)
    (hends : ∀ e ∈ ends, ∀ err, e.err = some err → isDeadlineExceeded err = true) :
    ∃ ss, listSerialsForExpirationDateAndIssuer ids ends = some (.ok ss) ∧
      ss.Perm ((mockRun calls).listSerialsForExpirationDateAndIssuer expDate issuer).dedup := by
  have hws := names_firestoreRun hnamed
  have hstored : ∀ s : Serial, s.serial ≠ [] →
      ((firstCreated (pemDocPath s expDate issuer) (calls.map BackendCall.firestore)).isSome ↔
        ∃ b, .store s expDate issuer b ∈ calls) := fun s hs => by
    rw [firstCreated_firestore hnamed (names_snoc hnames ⟨serial_id_ne_nil hs,
      plain_serial_id s⟩), List.findSome?_isSome_iff]
    constructor
    · rintro ⟨c, hc, hb⟩
      obtain ⟨b, hb⟩ := Option.isSome_iff_exists.1 hb
      exact ⟨b, BackendCall.eq_store_of_storedAt hb ▸ hc⟩
    · rintro ⟨b, hb⟩
      exact ⟨_, hb, by simp [BackendCall.storedAt]⟩
  refine ⟨_, listSerials_pemQuery hnames hws hq ends hends,
    (List.perm_ext_iff_of_nodup ?_ (List.nodup_dedup _)).2 fun s => ?_⟩
  · exact List.Nodup.of_map Serial.id (by rw [map_id_pemQuery hnames hws hq]; exact hq.1)
  · rw [mem_pemQuery_iff hnames hws hq, List.mem_dedup, mockRun,
      mem_listSerials_mock_run hsized hlen s]
    constructor
    · exact fun ⟨hs, hc⟩ => .inl ((hstored s hs).1 hc)
    · rintro (⟨b, hb⟩ | h)
      · have hs := hserials s expDate issuer b hb
        exact ⟨hs, (hstored s hs).2 ⟨b, hb⟩⟩
      · exact absurd h (List.not_mem_nil s)

theorem serials_agree_storedTwice :
    let e := ascii "2024-01-01"
    let i : Issuer := ⟨ascii "iss"⟩
    let s : Serial := ⟨[1, 2]⟩
    let calls := [BackendCall.allocate e i, .store s e i (ascii "one"), .store s e i (ascii "one")]
    (∀ c ∈ calls, c.Named) ∧ (∀ c ∈ calls, c.Sized 10 3) ∧
      (∀ s' e' i' b, .store s' e' i' b ∈ calls → s'.serial ≠ []) ∧
      (∀ n ∈ [e, i.id], n ≠ [] ∧ Plain n) ∧ (e.length = 10 ∧ i.id.length = 3) ∧
      IsPemQuery (firestoreRun calls) e i [s.id] ∧
      (∀ x ∈ ([] : List IterEnd), ∀ err, x.err = some err → isDeadlineExceeded err = true) ∧
      ∃ ss, listSerialsForExpirationDateAndIssuer [s.id] [] = some (.ok ss) ∧
        ss.Perm ((mockRun calls).listSerialsForExpirationDateAndIssuer e i).dedup := by
  intro e i s calls
  have hnamed : ∀ c ∈ calls, c.Named := by decide
  have hsized : ∀ c ∈ calls, c.Sized 10 3 := by decide
  have hnames : ∀ n ∈ [e, i.id], n ≠ [] ∧ Plain n := by decide
  have hserials : ∀ s' e' i' b, .store s' e' i' b ∈ calls → s'.serial ≠ [] := by
    intro s' e' i' b h
    simp [calls] at h
    rw [h.1]
    decide
  have hends : ∀ x ∈ ([] : List IterEnd), ∀ err, x.err = some err →
      isDeadlineExceeded err = true := fun _ h => absurd h (List.not_mem_nil _)
  have hq : IsPemQuery (firestoreRun calls) e i [s.id] := by
    refine ⟨List.nodup_singleton _, fun id => ⟨fun h => ?_, fun ⟨hne, hsl, data, hd⟩ => ?_⟩⟩
    · rw [List.mem_singleton.1 h]
      exact ⟨by decide, by decide, ascii "one", by decide⟩
    · obtain ⟨s', e', i', hw, rfl⟩ := certDoc_run (names_firestoreRun hnamed) hnames ⟨hne, hsl⟩ hd
      simp [calls, BackendCall.firestore] at hw
      rw [hw.1]
      exact List.mem_singleton_self _
  exact ⟨hnamed, hsized, hserials, hnames, by decide, hq, hends,
    serials_agree calls hnamed hsized hserials e i hnames (by decide) [s.id] hq [] hends⟩

/-- After any run of such calls whose names are non-empty and plain, Firestore's
    `ListIssuersForExpirationDate` of such a date, for every order its query may deliver the
    documents in, lists the issuers of the mock's sorted list for the date. -/
theorem issuers_agree (calls : List BackendCall) (hnamed : ∀ c ∈ calls, c.Named)
    (expDate : Bytes) (hexp : expDate ≠ [] ∧ Plain expDate) (fields : List (Option Bytes))
    (hf : IsIssuerQuery (firestoreRun calls) expDate fields) :
    ∃ issuers, listIssuersForExpirationDate fields .done = .ok issuers ∧
      issuers.Perm ((mockRun calls).listIssuersForExpirationDate expDate) := by
  obtain ⟨issuers, hlist, hnd, hmem⟩ :=
    listIssuers_issuerQuery (names_firestoreRun hnamed) hexp hf
  obtain ⟨hnd', hmem'⟩ := listIssuers_mock_run calls expDate
  refine ⟨issuers, hlist, (List.perm_ext_iff_of_nodup (hnd.of_map _) hnd').2 fun i => ?_⟩
  rw [hmem, hmem']
  constructor
  · rintro ⟨w, hw, hs⟩
    obtain ⟨c, hc, rfl⟩ := List.mem_map.1 hw
    obtain ⟨i', rfl, hid⟩ := (setsIssuer_firestore (hnamed c hc) _ _).1 hs
    obtain rfl := Issuer.eq_of_id hid
    exact hc
  · exact fun h => ⟨_, List.mem_map_of_mem _ h, (setsIssuer_firestore (hnamed _ h) _ _).2
      ⟨i, rfl, rfl⟩⟩

theorem issuers_agree_once :
    let e := ascii "2024-01-01"
    let i : Issuer := ⟨ascii "iss"⟩
    let calls := [BackendCall.allocate e i, .store ⟨[1, 2]⟩ e i (ascii "one")]
    (∀ c ∈ calls, c.Named) ∧ (e ≠ [] ∧ Plain e) ∧
      IsIssuerQuery (firestoreRun calls) e [some i.id] ∧
      ∃ issuers, listIssuersForExpirationDate [some i.id] .done = .ok issuers ∧
        issuers.Perm ((mockRun calls).listIssuersForExpirationDate e) := by
  intro e i calls
  have hnamed : ∀ c ∈ calls, c.Named := by decide
  have hexp : e ≠ [] ∧ Plain e := by decide
  have hf : IsIssuerQuery (firestoreRun calls) e [some i.id] := by
    rw [firestoreRun]
    refine ⟨[i.id], List.nodup_singleton _, fun id => ?_, by decide⟩
    rw [issuerDoc_run_iff (names_firestoreRun hnamed) hexp id]
    constructor
    · intro h
      rw [List.mem_singleton.1 h]
      exact ⟨_, List.mem_map_of_mem _ (List.mem_cons_self _ _), by decide⟩
    · rintro ⟨w, hw, h⟩
      obtain ⟨c, hc, rfl⟩ := List.mem_map.1 hw
      obtain ⟨i', rfl, rfl⟩ := (setsIssuer_firestore (hnamed c hc) _ _).1 h
      simp [calls] at hc
      rw [hc]
      exact List.mem_singleton_self _
  exact ⟨hnamed, hexp, hf, issuers_agree calls hnamed e hexp _ hf⟩

end CtMapReduce.Storage
