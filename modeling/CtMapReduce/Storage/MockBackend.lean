import CtMapReduce.Storage.Types
import Mathlib.Data.List.GetD

/-!
# `MockBackend`

The in-memory `StorageBackend` of `storage/mockbackend.go`: three Go maps, the issuers of each
expiration date kept sorted by `Issuer.ID()`, the serials of each shard in call order, and one
byte store for PEM documents and log checkpoints. `AllocateExpDateAndIssuer` keeps every issuer
list strictly increasing, so a repeated allocation changes nothing (`allocate_issuers_sorted`);
`StoreCertificatePEM` has no such guard, and a second store lists its serial twice
(`storeCertificatePEM_repeated`). Checkpoints live under the prefix `logstate`, which no PEM key
has, so a load finds the last checkpoint stored for its URL (`loadLogState_last_stored`).
`json.Marshal` and `json.Unmarshal` of a `CertificateLog` are taken as given (`LogCodec`), and a
range over a Go map visits the keys in association-list order, which nothing below depends on.
-/

namespace CtMapReduce.Storage
open CtMapReduce.Go

/-- `json.Marshal(log)` and `json.Unmarshal(data, &log)` for a `CertificateLog`, with the error
    text on failure. -/
structure LogCodec where
  marshal : CertificateLog → Except Bytes Bytes
  unmarshal : Bytes → Except Bytes CertificateLog

/-- `type MockBackend struct` (`mockbackend.go:12-16`). -/
structure MockBackend where
  expDateToIssuer : GoMap (List Issuer)
  expDateIssuerIDToSerials : GoMap (List Serial)
  store : GoMap Bytes

namespace MockBackend

/-- `NewMockBackend` (`mockbackend.go:18-24`). -/
def new : MockBackend := ⟨∅, ∅, ∅⟩

/-- The issuer `issuers[i]` reads, the zero `Issuer` past the end. -/
def issuerAt (issuers : List Issuer) (i : Nat) : Issuer := issuers.getD i ⟨[]⟩

/-- `AllocateExpDateAndIssuer` (`mockbackend.go:30-45`): the position `sort.Search` finds for
    the ID, and the SliceTricks insert there unless that position already holds the ID. -/
def allocateExpDateAndIssuer (db : MockBackend) (expDate : Bytes) (issuer : Issuer) :
    MockBackend :=
  let issuers := db.expDateToIssuer.getD expDate []
  let i := search issuers.length fun i =>
    decide (0 ≤ stringsCompare (issuerAt issuers i).id issuer.id)
  if i < issuers.length ∧ (issuerAt issuers i).id = issuer.id then db
  else
    { db with
      expDateToIssuer := db.expDateToIssuer.insert expDate
        (issuers.take i ++ issuer :: issuers.drop i) }

/-- `StoreCertificatePEM` (`mockbackend.go:47-55`): the bytes under
    `"pem"+expDate+issuer.ID()+serial.ID()`, and the serial appended to the shard's list. -/
def storeCertificatePEM (db : MockBackend) (serial : Serial) (expDate : Bytes) (issuer : Issuer)
    (b : Bytes) : MockBackend :=
  let key := expDate ++ issuer.id
  { db with
    store := db.store.insert (ascii "pem" ++ expDate ++ issuer.id ++ serial.id) b
    expDateIssuerIDToSerials := db.expDateIssuerIDToSerials.insert key
      (db.expDateIssuerIDToSerials.getD key [] ++ [serial]) }

/-- `LoadCertificatePEM` (`mockbackend.go:76-82`). -/
def loadCertificatePEM (db : MockBackend) (serial : Serial) (expDate : Bytes) (issuer : Issuer) :
    Except Bytes Bytes :=
  match db.store.lookup (ascii "pem" ++ expDate ++ issuer.id ++ serial.id) with
  | some data => .ok data
  | none => .error (ascii "Couldn't find")

/-- `StoreLogState` (`mockbackend.go:57-64`). -/
def storeLogState (json : LogCodec) (db : MockBackend) (log : CertificateLog) :
    Except Bytes MockBackend := do
  let data ← json.marshal log
  return { db with store := db.store.insert (ascii "logstate" ++ log.shortURL) data }

/-- `LoadLogState` (`mockbackend.go:84-94`): the zero checkpoint for a URL never stored. -/
def loadLogState (json : LogCodec) (db : MockBackend) (logURL : Bytes) :
    Except Bytes CertificateLog :=
  match db.store.lookup (ascii "logstate" ++ logURL) with
  | some data => json.unmarshal data
  | none => .ok ⟨logURL, 0, Time.zero⟩

/-- The loop of `ListExpirationDates` over the allocated dates: a date that does not parse
    ends the call with its error (`none`). -/
def expirationDatesLoop (truncatedNotBefore : Time) : List Bytes → Option (List Bytes)
  | [] => some []
  | key :: keys =>
    match parseDate key with
    | none => none
    | some v =>
      (expirationDatesLoop truncatedNotBefore keys).map fun dates =>
        if !v.before truncatedNotBefore then key :: dates else dates

/-- `ListExpirationDates` (`mockbackend.go:96-110`): `aNotBefore` is cut to midnight of its
    own calendar date, read as UTC. -/
def listExpirationDates (db : MockBackend) (aNotBefore : Time) : Option (List Bytes) :=
  let (y, m, d) := aNotBefore.date
  expirationDatesLoop (midnightUTC y m d) db.expDateToIssuer.keys

/-- `ListIssuersForExpirationDate` (`mockbackend.go:112-114`). -/
def listIssuersForExpirationDate (db : MockBackend) (expDate : Bytes) : List Issuer :=
  db.expDateToIssuer.getD expDate []

/-- `ListSerialsForExpirationDateAndIssuer` (`mockbackend.go:116-118`). -/
def listSerialsForExpirationDateAndIssuer (db : MockBackend) (expDate : Bytes) (issuer : Issuer) :
    List Serial :=
  db.expDateIssuerIDToSerials.getD (expDate ++ issuer.id) []

/-- `StreamSerialsForExpirationDateAndIssuer` (`mockbackend.go:120-131`): every serial is
    sent into a channel of that capacity, which is never closed. -/
def streamSerialsForExpirationDateAndIssuer (db : MockBackend) (expDate : Bytes)
    (issuer : Issuer) : Stream Serial :=
  ⟨db.listSerialsForExpirationDateAndIssuer expDate issuer, false⟩

/-- The backend after a sequence of `AllocateExpDateAndIssuer` calls. -/
def runAllocations (db : MockBackend) (calls : List (Bytes × Issuer)) : MockBackend :=
  calls.foldl (fun db c => db.allocateExpDateAndIssuer c.1 c.2) db

/-! ## Allocation keeps every issuer list sorted -/

/-- The IDs of the issuers allocated under `expDate`. -/
def issuerIDs (db : MockBackend) (expDate : Bytes) : List Bytes :=
  (db.expDateToIssuer.getD expDate []).map Issuer.id

theorem id_issuerAt (issuers : List Issuer) (i : Nat) :
    (issuerAt issuers i).id = (issuers.map Issuer.id).getD i [] :=
  (List.getD_map issuers ⟨[]⟩ Issuer.id).symm

/-- The position `sort.Search` finds is the lower bound of the ID in the list of IDs. -/
theorem search_eq_lowerBound (issuers : List Issuer) (x : Bytes) :
    search issuers.length (fun i => decide (0 ≤ stringsCompare (issuerAt issuers i).id x)) =
      lowerBound (issuers.map Issuer.id) x := by
  simp only [lowerBound, List.length_map, id_issuerAt, zero_le_stringsCompare_iff,
    stringsCompare_nonpos_iff]

/-- Allocating an issuer whose ID is already listed changes nothing. -/
theorem allocate_of_mem {db : MockBackend} {expDate : Bytes} {issuer : Issuer}
    (hs : StrictlySorted (db.issuerIDs expDate)) (h : issuer.id ∈ db.issuerIDs expDate) :
    db.allocateExpDateAndIssuer expDate issuer = db := by
  obtain ⟨hlt, heq⟩ := (lowerBound_mem_iff hs).2 h
  simp only [allocateExpDateAndIssuer, search_eq_lowerBound]
  rw [if_pos]
  simp only [issuerIDs, List.length_map] at hlt heq
  exact ⟨hlt, by rw [id_issuerAt, getD_of_lt (by simpa using hlt)]; simpa using heq⟩

theorem issuerIDs_allocate_of_not_mem {db : MockBackend} {expDate : Bytes} {issuer : Issuer}
    (h : issuer.id ∉ db.issuerIDs expDate) (e : Bytes) :
    (db.allocateExpDateAndIssuer expDate issuer).issuerIDs e =
      if e = expDate then
        insertAt (db.issuerIDs expDate) (lowerBound (db.issuerIDs expDate) issuer.id) issuer.id
      else db.issuerIDs e := by
  simp only [allocateExpDateAndIssuer, search_eq_lowerBound]
  rw [if_neg]
  · split_ifs with he
    · subst he
      simp [issuerIDs, insertAt, List.map_take, List.map_drop]
    · simp [issuerIDs, GoMap.getD_insert_ne _ _ _ he]
  · rintro ⟨hlt, heq⟩
    rw [id_issuerAt, getD_of_lt (by simpa using hlt)] at heq
    exact h (heq ▸ List.getElem_mem _)

/-- The step lemma: one allocation keeps every list sorted and adds exactly its own ID. -/
theorem allocate_spec {db : MockBackend} (hs : ∀ e, StrictlySorted (db.issuerIDs e))
    (expDate : Bytes) (issuer : Issuer) :
    (∀ e, StrictlySorted ((db.allocateExpDateAndIssuer expDate issuer).issuerIDs e)) ∧
      ∀ e x, x ∈ (db.allocateExpDateAndIssuer expDate issuer).issuerIDs e ↔
        x ∈ db.issuerIDs e ∨ e = expDate ∧ x = issuer.id := by
  by_cases h : issuer.id ∈ db.issuerIDs expDate
  · rw [allocate_of_mem (hs expDate) h]
    exact ⟨hs, fun e x => ⟨.inl, by rintro (hx | ⟨rfl, rfl⟩) <;> assumption⟩⟩
  · simp only [issuerIDs_allocate_of_not_mem h]
    refine ⟨fun e => ?_, fun e x => ?_⟩ <;> split_ifs with he
    · exact insertAt_sorted (hs expDate) h
    · exact hs e
    · subst he; simp [or_comm]
    · simp [he]

/-- The run lemma: after any allocations, each list is strictly increasing and lists the IDs
    allocated under its date. -/
theorem runAllocations_spec (calls : List (Bytes × Issuer)) :
    ∀ db : MockBackend, (∀ e, StrictlySorted (db.issuerIDs e)) →
      (∀ e, StrictlySorted ((db.runAllocations calls).issuerIDs e)) ∧
        ∀ e x, x ∈ (db.runAllocations calls).issuerIDs e ↔
          x ∈ db.issuerIDs e ∨ ∃ i, (e, i) ∈ calls ∧ i.id = x := by
  induction calls with
  | nil => exact fun db hs => ⟨hs, by simp [runAllocations]⟩
  | cons c calls ih =>
    intro db hs
    obtain ⟨hs', hmem⟩ := allocate_spec hs c.1 c.2
    obtain ⟨hs'', hmem'⟩ := ih _ hs'
    refine ⟨hs'', fun e x => ?_⟩
    rw [runAllocations, List.foldl_cons, ← runAllocations, hmem', hmem]
    constructor
    · rintro ((h | ⟨rfl, rfl⟩) | ⟨i, hi, rfl⟩)
      · exact .inl h
      · exact .inr ⟨c.2, .head _, rfl⟩
      · exact .inr ⟨i, .tail _ hi, rfl⟩
    · rintro (h | ⟨i, hi, rfl⟩)
      · exact .inl (.inl h)
      · rcases List.mem_cons.1 hi with hc | hi
        · exact .inl (.inr ⟨by rw [← hc], by rw [← hc]⟩)
        · exact .inr ⟨i, hi, rfl⟩

theorem issuerIDs_new (e : Bytes) : new.issuerIDs e = [] := rfl

/-- After any sequence of allocations, `ListIssuersForExpirationDate(e)` is strictly
    increasing by ID and lists exactly the IDs allocated under `e`, and repeating an
    allocation changes nothing. -/
theorem allocate_issuers_sorted (calls : List (Bytes × Issuer)) (e : Bytes) :
    let db := new.runAllocations calls
    StrictlySorted ((db.listIssuersForExpirationDate e).map Issuer.id) ∧
      (∀ x, x ∈ (db.listIssuersForExpirationDate e).map Issuer.id ↔
        ∃ i, (e, i) ∈ calls ∧ i.id = x) ∧
      ∀ e' i, (db.allocateExpDateAndIssuer e' i).allocateExpDateAndIssuer e' i =
        db.allocateExpDateAndIssuer e' i := by
  obtain ⟨hs, hmem⟩ := runAllocations_spec calls new (fun e => by simp [issuerIDs_new])
  refine ⟨hs e, fun x => (hmem e x).trans (by simp [issuerIDs_new]), fun e' i => ?_⟩
  obtain ⟨hs', hmem'⟩ := allocate_spec hs e' i
  exact allocate_of_mem (hs' e') ((hmem' e' i.id).2 (.inr ⟨rfl, rfl⟩))

/-! ## Repeated PEM stores -/

/-- Every store appends its serial to the shard's list, stored before or not. -/
theorem listSerials_storeCertificatePEM (db : MockBackend) (serial : Serial) (expDate : Bytes)
    (issuer : Issuer) (b : Bytes) :
    (db.storeCertificatePEM serial expDate issuer b).listSerialsForExpirationDateAndIssuer
        expDate issuer = db.listSerialsForExpirationDateAndIssuer expDate issuer ++ [serial] := by
  simp [storeCertificatePEM, listSerialsForExpirationDateAndIssuer]

/-- Every store replaces the bytes of its document. -/
theorem loadCertificatePEM_storeCertificatePEM (db : MockBackend) (serial : Serial)
    (expDate : Bytes) (issuer : Issuer) (b : Bytes) :
    (db.storeCertificatePEM serial expDate issuer b).loadCertificatePEM serial expDate issuer =
      .ok b := by
  simp only [storeCertificatePEM, loadCertificatePEM, AList.lookup_insert]

theorem storeCertificatePEM_repeated :
    let db : MockBackend := (new.storeCertificatePEM ⟨[1]⟩ (ascii "2020-01-01") ⟨ascii "I"⟩ (ascii "a")
      ).storeCertificatePEM ⟨[1]⟩ (ascii "2020-01-01") ⟨ascii "I"⟩ (ascii "b")
    db.listSerialsForExpirationDateAndIssuer (ascii "2020-01-01") ⟨ascii "I"⟩ = [⟨[1]⟩, ⟨[1]⟩] ∧
      (db.loadCertificatePEM ⟨[1]⟩ (ascii "2020-01-01") ⟨ascii "I"⟩).toOption = some (ascii "b") ∧
      (db.streamSerialsForExpirationDateAndIssuer (ascii "2020-01-01") ⟨ascii "I"⟩).closed =
        false := by
  decide

/-! ## Log checkpoints in the shared store -/

/-- The calls that write to the mock's maps. -/
inductive Write where
  | allocate (expDate : Bytes) (issuer : Issuer)
  | storePEM (serial : Serial) (expDate : Bytes) (issuer : Issuer) (b : Bytes)
  | storeLog (log : CertificateLog)
  deriving DecidableEq, Repr

/-- One write; only `StoreLogState` can fail, when `json.Marshal` does. -/
def Write.apply (json : LogCodec) (db : MockBackend) : Write → Except Bytes MockBackend
  | .allocate expDate issuer => .ok (db.allocateExpDateAndIssuer expDate issuer)
  | .storePEM serial expDate issuer b => .ok (db.storeCertificatePEM serial expDate issuer b)
  | .storeLog log => db.storeLogState json log

/-- The checkpoint a write saves, if it is a `StoreLogState`. -/
def Write.log? : Write → Option CertificateLog
  | .storeLog log => some log
  | _ => none

theorem store_allocate (db : MockBackend) (expDate : Bytes) (issuer : Issuer) :
    (db.allocateExpDateAndIssuer expDate issuer).store = db.store := by
  simp only [allocateExpDateAndIssuer]
  split_ifs <;> rfl

theorem logState_ne_pem (url x : Bytes) : ascii "logstate" ++ url ≠ ascii "pem" ++ x := by
  intro h
  injection h with h
  exact absurd h (by decide)

/-- A PEM store leaves every checkpoint as it was: its key starts with `pem`. -/
theorem loadLogState_storeCertificatePEM (json : LogCodec) (db : MockBackend) (serial : Serial)
    (expDate : Bytes) (issuer : Issuer) (b : Bytes) (url : Bytes) :
    (db.storeCertificatePEM serial expDate issuer b).loadLogState json url =
      db.loadLogState json url := by
  simp only [storeCertificatePEM, loadLogState, List.append_assoc]
  rw [AList.lookup_insert_ne (logState_ne_pem _ _)]

/-- A successful `StoreLogState` is what a load of its URL decodes, and of no other URL. -/
theorem loadLogState_storeLogState {json : LogCodec} {db db' : MockBackend} {log : CertificateLog}
    (h : db.storeLogState json log = .ok db') (url : Bytes) :
    db'.loadLogState json url =
      if log.shortURL = url then json.marshal log >>= json.unmarshal
      else db.loadLogState json url := by
  simp only [storeLogState, bind, Except.bind, pure, Except.pure] at h
  rcases hm : json.marshal log with _ | data <;> rw [hm] at h <;> cases h
  simp only [loadLogState, bind, Except.bind]
  split_ifs with hu
  · rw [hu, AList.lookup_insert]
  · rw [AList.lookup_insert_ne (by simpa using Ne.symm hu)]

/-- After any run of writes that all succeed, `LoadLogState` decodes the JSON of the last
    checkpoint stored for its URL, whatever PEM stores and allocations came between, and
    answers as before the run for a URL the run stored nothing for. -/
theorem loadLogState_last_stored (json : LogCodec) (ws : List Write) {db db' : MockBackend}
    (h : ws.foldlM (Write.apply json) db = .ok db') (url : Bytes) :
    db'.loadLogState json url =
      (lastSaved CertificateLog.shortURL (ws.filterMap Write.log?) url).elim
        (db.loadLogState json url) fun log => json.marshal log >>= json.unmarshal := by
  induction ws generalizing db with
  | nil => cases h; rfl
  | cons w ws ih =>
    rw [List.foldlM_cons] at h
    rcases h1 : w.apply json db with _ | db1 <;> rw [h1] at h
    · cases h
    rw [ih h]
    cases w with
    | allocate expDate issuer =>
      cases h1
      rw [loadLogState, store_allocate]; rfl
    | storePEM serial expDate issuer b =>
      cases h1
      rw [loadLogState_storeCertificatePEM]; rfl
    | storeLog log =>
      rw [loadLogState_storeLogState h1]
      exact elim_lastSaved_cons _ (fun log => json.marshal log >>= json.unmarshal) _ log _ url

theorem loadLogState_last_stored_after_pem :
    let json : LogCodec :=
      ⟨fun log => .ok log.shortURL, fun data => .ok ⟨data, 0, Time.zero⟩⟩
    let ws := [Write.storePEM ⟨[1]⟩ (ascii "2020-01-01") ⟨ascii "I"⟩ (ascii "a"),
      .storeLog ⟨ascii "log", 5, Time.zero⟩]
    let db1 := new.storeCertificatePEM ⟨[1]⟩ (ascii "2020-01-01") ⟨ascii "I"⟩ (ascii "a")
    let db' : MockBackend :=
      { db1 with store := db1.store.insert (ascii "logstate" ++ ascii "log") (ascii "log") }
    ws.foldlM (Write.apply json) new = .ok db' ∧
      db'.loadLogState json (ascii "log") =
        (lastSaved CertificateLog.shortURL (ws.filterMap Write.log?) (ascii "log")).elim
          (new.loadLogState json (ascii "log")) fun log => json.marshal log >>= json.unmarshal := by
  intro json ws db1 db'
  exact ⟨rfl, loadLogState_last_stored json ws rfl _⟩

end MockBackend

end CtMapReduce.Storage
