import CtMapReduce.Storage.MockBackend
import CtMapReduce.Storage.FirestoreBackend

/-!
# `DiskDatabase`

The file-based database of the earlier revision (`part_001`), as far as its log checkpoints and
its date listing go. A checkpoint is the JSON of a `CertificateLog` in `<root>/state/<base64 URL>`,
kept through a `StorageBackend` whose `Store` and `Load` are not under src: the backend here is
its files, and each `Load` may fail. `GetLogState` answers every `Load` error with a fresh
checkpoint and a nil error, so a failed read rewinds `MaxEntry` to 0 (`getLogState_rewinds`),
and a read that succeeds finds the last checkpoint saved (`getLogState_after_saves`).
`ListExpirationDates` cuts `aNotBefore` to midnight of its own date read as UTC, as `MockBackend`
does and `FirestoreBackend` does not (`listExpirationDates_misses_dates`). `filepath.Join` is
taken on a clean root, and the walk of `List` visits the root's subdirectories in lexical order.
-/

namespace CtMapReduce.Storage
open CtMapReduce.Go

/-- `type CertificateLog struct` of this revision (`types.go:10-15`). -/
structure DiskCertificateLog where
  logID : Int
  url : Bytes
  maxEntry : Nat
  lastEntryTime : Time
  deriving DecidableEq, Repr

/-- `json.Marshal` and `json.Unmarshal` of a `DiskCertificateLog`. `Marshal` fails only on a
    time outside the years 0 to 9999, which is left out. -/
structure DiskLogCodec where
  marshal : DiskCertificateLog → Bytes
  unmarshal : Bytes → Except Bytes DiskCertificateLog

/-- `type DiskDatabase struct` (`part_001:102-106`): the root path, and the files of its
    backend. -/
structure DiskDatabase where
  rootPath : Bytes
  files : GoMap Bytes

namespace DiskDatabase

/-- `kStateDirName` (`part_001:27`). -/
def kStateDirName : Bytes := ascii "state"

/-- `filepath.Join(db.rootPath, kStateDirName, filename)`. -/
def statePath (db : DiskDatabase) (filename : Bytes) : Bytes :=
  db.rootPath ++ ascii "/" ++ kStateDirName ++ ascii "/" ++ filename

@[simp] theorem statePath_with_files (db : DiskDatabase) (files : GoMap Bytes) (filename : Bytes) :
    ({ db with files := files } : DiskDatabase).statePath filename = db.statePath filename := rfl

/-- `SaveLogState` (`part_001:265-276`): the backend's `Store` of the JSON under the state
    file of the URL, unless it returns the error `storeErr`. -/
def saveLogState (json : DiskLogCodec) (storeErr : Option Bytes) (db : DiskDatabase)
    (aLogObj : DiskCertificateLog) : DiskDatabase × Option Bytes :=
  let filePath := db.statePath (Base64.encodeToString aLogObj.url)
  match storeErr with
  | some err => (db, some err)
  | none => ({ db with files := db.files.insert filePath (json.marshal aLogObj) }, none)

/-- `GetLogState` (`part_001:278-294`): the backend's `Load` fails with `loadErr`, or because
    the file is missing; either way the result is a fresh checkpoint for the URL. -/
def getLogState (json : DiskLogCodec) (loadErr : Option Bytes) (db : DiskDatabase)
    (aUrl : Bytes) : Except Bytes DiskCertificateLog :=
  let filePath := db.statePath (Base64.encodeToString aUrl)
  let data : Except Bytes Bytes :=
    match loadErr with
    | some err => .error err
    | none =>
      match db.files.lookup filePath with
      | some data => .ok data
      | none => .error (ascii "no such file or directory")
  match data with
  | .error _ => .ok ⟨0, aUrl, 0, Time.zero⟩
  | .ok data => json.unmarshal data

/-- The walk function of `ListExpirationDates` (`part_001:146-162`) over the subdirectories
    of the root: `state` is skipped, and a name that parses as a date not before the cut is
    kept. -/
def expirationDatesLoop (notBefore : Time) : List Bytes → List Bytes
  | [] => []
  | name :: names =>
    if name = kStateDirName then expirationDatesLoop notBefore names
    else
      match parseDate name with
      | some t =>
        if !t.before notBefore then name :: expirationDatesLoop notBefore names
        else expirationDatesLoop notBefore names
      | none => expirationDatesLoop notBefore names

/-- `ListExpirationDates` (`part_001:140-166`) over the root's subdirectories `dirs`. -/
def listExpirationDates (dirs : List Bytes) (aNotBefore : Time) : List Bytes × Option Bytes :=
  let (y, m, d) := aNotBefore.date
  (expirationDatesLoop (midnightUTC y m d) dirs, none)

/-- A read error after a saved checkpoint gives back a fresh one, with a nil error. -/
theorem getLogState_rewinds (json : DiskLogCodec) (err : Bytes) :
    let log : DiskCertificateLog := ⟨0, ascii "ct.example.com/log", 10, Time.zero⟩
    let saved := (DiskDatabase.mk (ascii "/data") ∅).saveLogState json none log
    saved.2 = none ∧
      saved.1.files.lookup (saved.1.statePath (Base64.encodeToString log.url)) =
        some (json.marshal log) ∧
      saved.1.getLogState json (some err) log.url = .ok ⟨0, log.url, 0, Time.zero⟩ := by
  exact ⟨rfl, AList.lookup_insert _, rfl⟩

theorem statePath_encode_inj (db : DiskDatabase) {a b : Bytes} :
    db.statePath (Base64.encodeToString a) = db.statePath (Base64.encodeToString b) ↔ a = b := by
  simp only [statePath, List.append_cancel_left_eq, Base64.encodeToString_injective.eq_iff]

/-- A saved checkpoint is what a successful load of its URL reads, and of no other URL. -/
theorem getLogState_saveLogState (json : DiskLogCodec) (db : DiskDatabase)
    (l : DiskCertificateLog) (url : Bytes) :
    (db.saveLogState json none l).1.getLogState json none url =
      if l.url = url then json.unmarshal (json.marshal l) else db.getLogState json none url := by
  simp only [saveLogState, getLogState, statePath_with_files]
  split_ifs with h
  · rw [h, AList.lookup_insert]
  · rw [AList.lookup_insert_ne ((statePath_encode_inj db).not.2 (Ne.symm h))]

/-- After any run of successful `SaveLogState` calls, a `GetLogState` whose `Load` succeeds
    decodes the last checkpoint saved for its URL, and answers as before the run for a URL the
    run saved nothing for. -/
theorem getLogState_after_saves (json : DiskLogCodec) (db : DiskDatabase)
    (saved : List DiskCertificateLog) (url : Bytes) :
    (saved.foldl (fun db l => (db.saveLogState json none l).1) db).getLogState json none url =
      (lastSaved DiskCertificateLog.url saved url).elim (db.getLogState json none url)
        fun l => json.unmarshal (json.marshal l) :=
  load_foldl_save _ _ (fun db url => db.getLogState json none url) _
    (getLogState_saveLogState json) saved db url

/-- On an instant of 2020-01-01 UTC that is 2020-01-02 in its own zone, the mock and the disk
    database leave out the date 2020-01-01, and Firestore lists a date before the instant. -/
theorem listExpirationDates_misses_dates :
    let notBefore : Time := ⟨1577905200, 0, fixedZone 36000⟩
    formatDate notBefore.utc = ascii "2020-01-01" ∧
      (MockBackend.new.allocateExpDateAndIssuer (ascii "2020-01-01") ⟨ascii "I"⟩
        ).listExpirationDates notBefore = some [] ∧
      (listExpirationDates [ascii "2020-01-01"] notBefore).1 = [] ∧
      (FirestoreBackend.listExpirationDates notBefore [ascii "2019-12-31"] .done).toOption =
        some [ascii "2019-12-31"] := by
  decide

end DiskDatabase

end CtMapReduce.Storage
