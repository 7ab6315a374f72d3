import CtMapReduce.Storage.Reconstruct
import CtMapReduce.Storage.FileIssuerMetadata

/-!
# `DiskDatabase.Store` under every interleaving

`DiskDatabase.Store` (`part_001:325-379`) appends each new certificate of a shard to the file
`<root>/<date>/<AKI ID>.pem` through a `CacheEntry` (`part_001:67-100`). The `gcache` of
`NewDiskDatabase` (`part_001:108-138`) builds an entry on a miss from the `.known` and `.meta`
files beside it, a half whose `Load` fails starting fresh, and closes an evicted entry, saving
each half whose `Save` succeeds. `Store`'s loop body (`part_001:342-365`) runs at most twice:
the `err` its guard reads is shadowed, so an `Encode` error only starts the second pass. A
`World` holds every entry built, the cache, the files and the saved entries; a run is any list
of `Action`s and keeps `Inv` (`inv_run`), and `World.current` is each shard's state for the
invariants of `DiskStoreShards`. `KnownCertificates` and `IssuerMetadata` of this revision are
not under src (`wasUnknown`; `accumulate`), and `AKI.ID()` is a parameter.
-/

namespace CtMapReduce.Storage.DiskStore
open CtMapReduce.Go FileIssuerMetadata

/-- `kSuffixCertificates` (`part_001:29`). -/
def kSuffixCertificates : Bytes := ascii ".pem"

/-- What `Store` reads of its `DiskDatabase` besides the cache and the files: the root path,
    `AKI.ID()`, and the `url.Parse` of `Accumulate`. -/
structure Config where
  rootPath : Bytes
  akiID : Bytes → Bytes
  lib : UrlLib

/-- `filepath.Join(root, expDate, issuer + kSuffixCertificates)`, on a clean root and names
    without a slash. -/
def pemPath (cfg : Config) (expDate issuer : Bytes) : Bytes :=
  cfg.rootPath ++ ascii "/" ++ expDate ++ ascii "/" ++ (issuer ++ kSuffixCertificates)

/-- `getPathForID` (`part_001:296-304`): the shard file of a certificate; `aSKI` is not read. -/
def getPathForID (cfg : Config) (aExpiration : Time) (aAKI : Bytes) : Bytes :=
  pemPath cfg (formatDate aExpiration) (cfg.akiID aAKI)

/-- The file `markDirty` (`part_001:306-312`) stores an empty slice in. -/
def dirtyPath (cfg : Config) (aExpiration : Time) : Bytes :=
  cfg.rootPath ++ ascii "/" ++ formatDate aExpiration ++ ascii "/" ++ ascii "dirty"

/-- The fields of an `*x509.Certificate` that `Store` reads: `Raw`, `AuthorityKeyId`, and the
    fields `ReconstructIssuerMetadata` gets back from `ParseCertificate` (`NotAfter`, the CRL
    distribution points, `SerialNumber`). -/
structure X509Certificate where
  raw : Bytes
  authorityKeyId : Bytes
  parsed : ParsedCertificate
  deriving DecidableEq, Repr

/-- A `Store(aCert, aLogURL)` call, with the `time.Now()` it reads. -/
structure StoreArgs where
  cert : X509Certificate
  logURL : Bytes
  now : Time
  deriving DecidableEq, Repr

namespace StoreArgs

/-- `filePath` (`part_001:327`). -/
def path (cfg : Config) (a : StoreArgs) : Bytes :=
  getPathForID cfg a.cert.parsed.cert.notAfter a.cert.authorityKeyId

/-- `aCert.SerialNumber`. -/
def serial (a : StoreArgs) : Int := a.cert.parsed.serialNumber

/-- The block `Store` builds (`part_001:329-337`): `Recorded-at` is `time.Now()` in RFC 3339. -/
def stored (a : StoreArgs) : StoredCert := ⟨a.cert.raw, a.logURL, formatRFC3339 a.now⟩

/-- The bytes `pem.Encode(ce.writer, &pemblock)` writes. -/
def block (a : StoreArgs) : Bytes := storedBytes a.stored

end StoreArgs

/-- Modelled from the spec: `KnownCertificates.WasUnknown` of the revision `part_001` calls is
    not under src. This is the test-and-insert of spec section 4.3 on the sorted slice of
    `knowncertificates_test.go`: whether the serial was unknown, and the slice after it is
    inserted. -/
def wasUnknown (known : List Int) (serial : Int) : Bool × List Int :=
  if serial ∈ known then (false, known) else (true, known.orderedInsert (· ≤ ·) serial)

/-- What a `CacheEntry` holds of its shard: `known` and `meta`. -/
structure Entry where
  known : List Int
  meta : Metadata
  deriving DecidableEq, Repr

/-- The entry `NewCacheEntry` builds when neither file loads (`part_001:39-86`). -/
def Entry.fresh : Entry := ⟨[], newIssuerMetadata⟩

/-- For the `.known` and the `.meta` file of a shard, whether its `Load` in `NewCacheEntry`
    (`part_001:38-65`), or its `Save` in `Close` (`part_001:88-100`), succeeds. -/
structure FileOk where
  known : Bool
  meta : Bool
  deriving DecidableEq, Repr

/-- Both files load, or both save. -/
def FileOk.both : FileOk := ⟨true, true⟩

/-- The entry `NewCacheEntry` builds from the saved entry `e`: a half whose `Load` fails is
    left as `NewKnownCertificates` or `NewIssuerMetadata` made it (`part_001:41-45, 55-61`). -/
def Entry.loaded (e : Entry) (ok : FileOk) : Entry :=
  ⟨if ok.known then e.known else [], if ok.meta then e.meta else newIssuerMetadata⟩

/-- The saved entry after `Close` saves `e` over `old`: each half whose `Save` succeeds. -/
def Entry.savedOver (old e : Entry) (ok : FileOk) : Entry :=
  ⟨if ok.known then e.known else old.known, if ok.meta then e.meta else old.meta⟩

@[simp] theorem Entry.loaded_both (e : Entry) : e.loaded .both = e := rfl

@[simp] theorem Entry.savedOver_both (old e : Entry) : old.savedOver e .both = e := rfl

/-- The entry after the calls `ReconstructIssuerMetadata` makes on it (`part_001:250-252`). -/
def Entry.replay (lib : UrlLib) : Entry → List Call → Entry
  | e, [] => e
  | e, .accumulate c :: calls => replay lib ⟨e.known, accumulate lib e.meta c⟩ calls
  | e, .wasUnknown s :: calls => replay lib ⟨(wasUnknown e.known s).2, e.meta⟩ calls

/-- A `CacheEntry` built for the shard file `path`: its entry, and whether `Close` has run. -/
structure Obj where
  path : Bytes
  entry : Entry
  closed : Bool
  deriving DecidableEq, Repr

/-- What the cache reads of an entry: its file, and whether it is closed. -/
def Obj.shape (o : Obj) : Bytes × Bool := (o.path, o.closed)

/-- How a step ends: `ok`, or an error after the first `written` bytes of its write reached the
    file (`written` is read for `pem.Encode` only), or, for a `cache.Get` that misses, an entry
    built with `NewCacheEntry`'s `Load`s succeeding as `loads` says. Steps that build no entry
    read `loaded` as `ok`. -/
inductive Outcome where
  | ok
  | fail (written : Nat)
  | loaded (loads : FileOk)
  deriving DecidableEq, Repr

/-- The step a `Store` call makes next; `pass` is the loop's `t`. -/
inductive Pc where
  /-- `obj, err := db.cache.Get(filePath)` (`part_001:343`). -/
  | get (pass : Nat)
  /-- `ce.known.WasUnknown(aCert.SerialNumber)` on the entry `obj` (`part_001:350`). -/
  | wasUnknown (pass obj : Nat)
  /-- `ce.meta.Accumulate(aCert)` and `pem.Encode` under `ce.mutex` (`part_001:355-360`). -/
  | write (pass obj : Nat)
  /-- `db.markDirty(&aCert.NotAfter)` (`part_001:373`). -/
  | markDirty
  deriving DecidableEq, Repr

/-- Whether a step is between `cache.Get` and the end of the locked write, holding its entry. -/
def Pc.holdsEntry : Pc → Bool
  | .wasUnknown _ _ | .write _ _ => true
  | _ => false

/-- A `Store` call in progress. -/
structure Thread where
  args : StoreArgs
  pc : Pc
  deriving DecidableEq, Repr

/-- What a `Store` call ended with. -/
inductive Result where
  | ok
  | error
  | panic
  deriving DecidableEq, Repr

/-- The entries, the cache, the backend's files, the saved entries and the running calls, with
    two ghost records that no code reads. -/
structure World where
  objs : List Obj
  /-- `gcache`: the shard file of each cached entry, to the entry's index in `objs`. -/
  cache : GoMap Nat
  /-- The backend's files: shard files and `dirty` markers. -/
  files : GoMap Bytes
  /-- The `.known` and `.meta` files of each shard, as the entry `Close` saved. -/
  saved : GoMap Entry
  threads : List Thread
  /-- Ghost: every write that reached a file: the file, the call, and the bytes. -/
  writes : List (Bytes × StoreArgs × Bytes)
  /-- Ghost: the calls that returned, and what they returned. -/
  results : List (StoreArgs × Result)

namespace World

/-- An empty root: no file, no entry, no call. -/
def init : World := ⟨[], ∅, ∅, ∅, [], [], []⟩

/-- The entry `NewCacheEntry` loads for `path`: the one `Close` saved last, or a fresh one. -/
def load (w : World) (path : Bytes) : Entry := w.saved.getD path Entry.fresh

/-- The state of a shard: its cached entry's, or else the one a load would find. -/
def current (w : World) (path : Bytes) : Entry :=
  match w.cache.lookup path with
  | some id => ((w.objs[id]?).map Obj.entry).getD Entry.fresh
  | none => w.load path

/-- The calls that wrote to `path`, in order. -/
def writtenAt (w : World) (path : Bytes) : List StoreArgs :=
  (w.writes.filter fun x => x.1 = path).map fun x => x.2.1

/-- The threads after `t` moves on to `pc`. -/
def moveTo (w : World) (t : Thread) (pc : Pc) : List Thread := w.threads.erase t ++ [⟨t.args, pc⟩]

/-- The call of `t` returns `r`. -/
def finish (w : World) (t : Thread) (r : Result) : World :=
  { w with threads := w.threads.erase t, results := w.results ++ [(t.args, r)] }

/-- The process exits and starts again: the threads and the cache are gone, every writer is
    closed, and nothing is saved. -/
def restart (w : World) : World :=
  { w with objs := w.objs.map fun o => { o with closed := true }, cache := ∅, threads := [] }

/-- The loader of `cache.Get` builds the entry `e` for the shard of `t`, which goes on to
    `WasUnknown` with it. -/
def build (cfg : Config) (w : World) (t : Thread) (pass : Nat) (e : Entry) : World :=
  { w with
    objs := w.objs ++ [⟨t.args.path cfg, e, false⟩]
    cache := w.cache.insert (t.args.path cfg) w.objs.length
    threads := w.moveTo t (.wasUnknown pass w.objs.length) }

/-- `cache.Get(filePath)`: the cached entry, or one the loader builds from the saved entry,
    each half fresh whose `Load` fails; the loader fails when the backend's `Writer` does, and
    `Store` panics. -/
def get (cfg : Config) (w : World) (t : Thread) (pass : Nat) (o : Outcome) : World :=
  let path := t.args.path cfg
  match w.cache.lookup path, o with
  | some id, _ => { w with threads := w.moveTo t (.wasUnknown pass id) }
  | none, .fail _ => { w.restart with results := w.results ++ [(t.args, .panic)] }
  | none, .ok => w.build cfg t pass (w.load path)
  | none, .loaded loads => w.build cfg t pass ((w.load path).loaded loads)

/-- `ce.known.WasUnknown`: its error is returned; an unknown serial goes on to the write, and a
    known one ends the pass with `err == nil`, which breaks the loop. -/
def wasUnknownStep (w : World) (t : Thread) (pass id : Nat) (o : Outcome) : World :=
  match o with
  | .fail _ => w.finish t .error
  | _ =>
    match w.objs[id]? with
    | none => w
    | some obj =>
      let r := wasUnknown obj.entry.known t.args.serial
      { w with
        objs := w.objs.set id { obj with entry := { obj.entry with known := r.2 } }
        threads := w.moveTo t (if r.1 then .write pass id else .markDirty) }

/-- The locked write: `Accumulate` on the entry, then `pem.Encode` through its writer, which
    writes nothing once the entry is closed. Without an error the loop breaks; with one, the
    first pass starts the second and the second ends the loop. -/
def writeStep (cfg : Config) (w : World) (t : Thread) (pass id : Nat) (o : Outcome) : World :=
  match w.objs[id]? with
  | none => w
  | some obj =>
    let written := match o with
      | .fail n => t.args.block.take n
      | _ => t.args.block
    let failed := obj.closed || match o with | .fail _ => true | _ => false
    { w with
      objs := w.objs.set id
        { obj with entry := { obj.entry with
          meta := accumulate cfg.lib obj.entry.meta t.args.cert.parsed.cert } }
      files := if obj.closed then w.files
        else w.files.insert obj.path (w.files.getD obj.path [] ++ written)
      writes := if obj.closed then w.writes else w.writes ++ [(obj.path, t.args, written)]
      threads := w.moveTo t (if failed && pass == 0 then .get 1 else .markDirty) }

/-- `markDirty`, whose error `Store` returns; otherwise `Store` returns `nil`. -/
def markDirtyStep (cfg : Config) (w : World) (t : Thread) (o : Outcome) : World :=
  match o with
  | .fail _ => w.finish t .error
  | _ =>
    { w.finish t .ok with
      files := w.files.insert (dirtyPath cfg t.args.cert.parsed.cert.notAfter) [] }

/-- Thread `t` makes its next step, which ends with `o`. -/
def exec (cfg : Config) (w : World) (t : Thread) (o : Outcome) : World :=
  match t.pc with
  | .get pass => w.get cfg t pass o
  | .wasUnknown pass id => w.wasUnknownStep t pass id o
  | .write pass id => w.writeStep cfg t pass id o
  | .markDirty => w.markDirtyStep cfg t o

/-- The cache evicts the entry of `path`: `Close` closes its writer and saves each half whose
    `Save` succeeds (`saves`); a failed `Save` leaves that half as it was saved. -/
def evict (w : World) (path : Bytes) (saves : FileOk) : World :=
  match w.cache.lookup path with
  | none => w
  | some id =>
    match w.objs[id]? with
    | none => w
    | some obj =>
      { w with
        objs := w.objs.set id { obj with closed := true }
        cache := w.cache.erase path
        saved := w.saved.insert path ((w.load path).savedOver obj.entry saves) }

/-- `Cleanup` (`part_001:381-384`): `cache.Purge()`, whose `PurgeVisitorFunc` closes each cached
    entry as `EvictedFunc` does; `saves` says whose `Save`s succeed. -/
def cleanup (w : World) (saves : Bytes → FileOk) : World :=
  w.cache.keys.foldl (fun w p => w.evict p (saves p)) w

/-- `ReconstructIssuerMetadata(expDate, issuer)` (`part_001:185-263`) on the shard file `path`
    of a world no `Store` call runs in: `NewCacheEntry` loads the saved entry as `loads` says,
    the loop makes its calls on it, and the deferred `Close` saves it whatever the loop
    returned, each half as `saves` says. The loop's error comes back beside the world. A missing
    file reads as empty. -/
def reconstruct (cfg : Config) (x509 : Bytes → Option ParsedCertificate) (c : Bufio.Chunking)
    (w : World) (path : Bytes) (loads saves : FileOk) : Option (World × Option ReconstructError) :=
  match reconstructIssuerMetadata x509 c (w.files.getD path []) with
  | none => none
  | some (err, calls) =>
    let e := ((w.load path).loaded loads).replay cfg.lib calls
    some ({ w with saved := w.saved.insert path ((w.load path).savedOver e saves) }, err)

/-- What can happen next. -/
inductive Action where
  | start (a : StoreArgs)
  | exec (t : Thread) (o : Outcome)
  | evict (path : Bytes) (saves : FileOk)
  | restart
  deriving DecidableEq, Repr

/-- One action; a step of a thread that is not running changes nothing. -/
def act (cfg : Config) (w : World) : Action → World
  | .start a => { w with threads := w.threads ++ [⟨a, .get 0⟩] }
  | .exec t o => if t ∈ w.threads then w.exec cfg t o else w
  | .evict path saves => w.evict path saves
  | .restart => w.restart

/-- The world after a run. -/
def run (cfg : Config) (w : World) (acts : List Action) : World := acts.foldl (act cfg) w

/-- Whether an action is no restart, no failed `Save`, no panic of `cache.Get`, no `Load` that
    starts a half fresh, and no failed `pem.Encode`: the failures that lose state. -/
def Action.isFaultFree : Action → Bool
  | .exec ⟨_, .get _⟩ o | .exec ⟨_, .write _ _⟩ o => o == .ok
  | .exec _ _ | .start _ => true
  | .evict _ saves => saves == .both
  | .restart => false

/-- Whether a running call holds an entry it got for `path`. -/
def holds (cfg : Config) (w : World) (path : Bytes) : Bool :=
  w.threads.any fun t => t.pc.holdsEntry && decide (t.args.path cfg = path)

/-- Whether an action is fault-free and evicts no entry a call holds. -/
def safeAct (cfg : Config) (w : World) : Action → Bool
  | .evict path saves => saves == .both && !w.holds cfg path
  | a => a.isFaultFree

/-- Whether every action of a run is fault-free and evicts no entry in use. -/
def safeRun (cfg : Config) : World → List Action → Bool
  | _, [] => true
  | w, a :: acts => w.safeAct cfg a && safeRun cfg (w.act cfg a) acts

end World

/-! ## Shard files and `dirty` markers -/

namespace StoreArgs

variable {cfg : Config}

/-- A shard file ends in `.pem`, a marker in `dirty`: no write to one reaches the other. -/
theorem path_ne_dirtyPath (a : StoreArgs) (e : Time) : a.path cfg ≠ dirtyPath cfg e := by
  have hpem : (ascii ".pem").getLast? = some 109 := rfl
  have hdirty : (ascii "dirty").getLast? = some 121 := rfl
  intro h
  have := congrArg List.getLast? h
  simp only [path, getPathForID, pemPath, dirtyPath, kSuffixCertificates, List.getLast?_append,
    hpem, hdirty, Option.or_some] at this
  exact absurd this (by decide)

/-- `Recorded-at` holds no newline and does not end like an END line: RFC 3339 text has only
    digits and `-T:Z+`. -/
theorem recordedAt_plain (a : StoreArgs) : Pem.nl ∉ a.stored.recordedAt ∧
    ¬ascii "-----END CERTIFICATE-----" <:+ a.stored.recordedAt := by
  have hchar := formatRFC3339_char a.now
  refine ⟨fun h => ?_, fun h => ?_⟩
  · rcases hchar _ h with h | h | h | h | h | h <;> revert h <;> decide
  · rcases hchar 69 (h.subset (by decide)) with h | h | h | h | h | h <;> revert h <;> decide

end StoreArgs

/-! ## The known serials -/

theorem mem_wasUnknown {known : List Int} {serial s : Int} :
    s ∈ (wasUnknown known serial).2 ↔ s = serial ∨ s ∈ known := by
  unfold wasUnknown
  split_ifs with h
  · exact ⟨Or.inr, by rintro (rfl | h') <;> assumption⟩
  · exact (List.perm_orderedInsert _ serial known).mem_iff.trans List.mem_cons

theorem wasUnknown_fst {known : List Int} {serial : Int} :
    (wasUnknown known serial).1 = true ↔ serial ∉ known := by
  unfold wasUnknown
  split_ifs with h <;> simp [h]

/-! ## The structural invariant -/

section Invariants

variable (cfg : Config)

/-- The invariants of every reachable world. -/
structure Inv (w : World) : Prop where
  /-- The cache holds exactly the open entries, each under its own shard file. -/
  cache_iff : ∀ p id, w.cache.lookup p = some id ↔ (w.objs[id]?).map Obj.shape = some (p, false)
  /-- A thread past `cache.Get` holds an entry built for its own shard file. -/
  thread_obj : ∀ t ∈ w.threads, ∀ pass id, (t.pc = .wasUnknown pass id ∨ t.pc = .write pass id) →
    ∃ c, (w.objs[id]?).map Obj.shape = some (t.args.path cfg, c)
  /-- Every write went to the shard file of its call. -/
  write_path : ∀ x ∈ w.writes, x.1 = x.2.1.path cfg
  /-- A shard file is the bytes written to it, in order. -/
  files_writes : ∀ a : StoreArgs, w.files.getD (a.path cfg) [] =
    ((w.writes.filter fun x => x.1 = a.path cfg).map fun x => x.2.2).flatten

end Invariants

/-! ## Every run keeps `Inv` -/

section Entries

theorem lt_of_getElem?_eq_some {l : List Obj} {id : Nat} {obj : Obj} (h : l[id]? = some obj) :
    id < l.length :=
  (List.getElem?_eq_some_iff.1 h).1

/-- Replacing an entry by one of the same shape changes no shape. -/
theorem shape_set {l : List Obj} {id : Nat} {obj obj' : Obj} (h : l[id]? = some obj)
    (hs : obj'.shape = obj.shape) (j : Nat) :
    ((l.set id obj')[j]?).map Obj.shape = (l[j]?).map Obj.shape := by
  by_cases hj : id = j
  · subst hj
    rw [List.getElem?_set_self (lt_of_getElem?_eq_some h), h]
    simp [hs]
  · rw [List.getElem?_set_ne hj]

theorem getElem?_push {l : List Obj} {x : Obj} (j : Nat) :
    (l ++ [x])[j]? = if j < l.length then l[j]? else if j = l.length then some x else none := by
  rcases Nat.lt_trichotomy j l.length with hj | rfl | hj
  · rw [List.getElem?_append_left hj, if_pos hj]
  · rw [List.getElem?_concat_length, if_neg (Nat.lt_irrefl _), if_pos rfl]
  · rw [List.getElem?_len_le (by simp; omega), if_neg (by omega), if_neg (by omega)]

end Entries

namespace World

variable {w : World} {t : Thread}

theorem mem_moveTo {pc : Pc} {t' : Thread} :
    t' ∈ w.moveTo t pc ↔ t' ∈ w.threads.erase t ∨ t' = ⟨t.args, pc⟩ := by
  simp [moveTo]

variable {cfg : Config} {pass id : Nat} {obj : Obj}

theorem get_hit (hc : w.cache.lookup (t.args.path cfg) = some id) (o : Outcome) :
    w.get cfg t pass o = { w with threads := w.moveTo t (.wasUnknown pass id) } := by
  simp only [get, hc]

theorem get_load (hc : w.cache.lookup (t.args.path cfg) = none) :
    w.get cfg t pass .ok =
      { w with
        objs := w.objs ++ [⟨t.args.path cfg, w.load (t.args.path cfg), false⟩]
        cache := w.cache.insert (t.args.path cfg) w.objs.length
        threads := w.moveTo t (.wasUnknown pass w.objs.length) } := by
  simp only [get, hc]
  rfl

theorem wasUnknownStep_ok (hobj : w.objs[id]? = some obj) :
    w.wasUnknownStep t pass id .ok =
      { w with
        objs := w.objs.set id
          ⟨obj.path, ⟨(wasUnknown obj.entry.known t.args.serial).2, obj.entry.meta⟩, obj.closed⟩
        threads := w.moveTo t
          (if (wasUnknown obj.entry.known t.args.serial).1 then .write pass id else .markDirty) } := by
  simp only [wasUnknownStep, hobj]

theorem writeStep_open (hobj : w.objs[id]? = some obj) (hcl : obj.closed = false) :
    w.writeStep cfg t pass id .ok =
      { w with
        objs := w.objs.set id
          ⟨obj.path, ⟨obj.entry.known, accumulate cfg.lib obj.entry.meta t.args.cert.parsed.cert⟩,
            obj.closed⟩
        files := w.files.insert obj.path (w.files.getD obj.path [] ++ t.args.block)
        writes := w.writes ++ [(obj.path, t.args, t.args.block)]
        threads := w.moveTo t .markDirty } := by
  simp [writeStep, hobj, hcl]

theorem writeStep_closed (hobj : w.objs[id]? = some obj) (hcl : obj.closed = true) (o : Outcome) :
    w.writeStep cfg t pass id o =
      { w with
        objs := w.objs.set id
          ⟨obj.path, ⟨obj.entry.known, accumulate cfg.lib obj.entry.meta t.args.cert.parsed.cert⟩,
            obj.closed⟩
        threads := w.moveTo t (if pass == 0 then .get 1 else .markDirty) } := by
  simp [writeStep, hobj, hcl]

theorem evict_cached {p : Bytes} (hc : w.cache.lookup p = some id) (hobj : w.objs[id]? = some obj)
    (saves : FileOk) :
    w.evict p saves =
      { w with
        objs := w.objs.set id ⟨obj.path, obj.entry, true⟩
        cache := w.cache.erase p
        saved := w.saved.insert p ((w.load p).savedOver obj.entry saves) } := by
  simp only [evict, hc, hobj]

end World

section Preservation

open World

variable {cfg : Config} {w : World} {t : Thread}

/-- A thread that moves on keeps its entry if it holds one, and takes `id` if `pc` names it. -/
theorem Inv.thread_obj_moveTo (hi : Inv cfg w) {objs : List Obj}
    (hobjs : ∀ (id : Nat) (c : Bytes × Bool), (w.objs[id]?).map Obj.shape = some c → (objs[id]?).map Obj.shape = some c)
    {pc : Pc} (hpc : ∀ pass id, (pc = .wasUnknown pass id ∨ pc = .write pass id) →
      ∃ c, (objs[id]?).map Obj.shape = some (t.args.path cfg, c)) :
    ∀ t' ∈ w.moveTo t pc, ∀ pass id, (t'.pc = .wasUnknown pass id ∨ t'.pc = .write pass id) →
      ∃ c, (objs[id]?).map Obj.shape = some (t'.args.path cfg, c) := by
  intro t' ht' pass id h
  rcases mem_moveTo.1 ht' with ht' | rfl
  · obtain ⟨c, hc⟩ := hi.thread_obj t' (List.mem_of_mem_erase ht') pass id h
    exact ⟨c, hobjs id _ hc⟩
  · exact hpc pass id h

theorem Inv.restart (hi : Inv cfg w) : Inv cfg w.restart where
  cache_iff p id := by
    simp only [World.restart, AList.lookup_empty, List.getElem?_map, Option.map_map]
    constructor
    · intro h
      cases h
    · intro h
      obtain ⟨o, -, ho⟩ := Option.map_eq_some'.1 h
      simp [Obj.shape] at ho
  thread_obj _ ht := by simp [World.restart] at ht
  write_path := hi.write_path
  files_writes := hi.files_writes

theorem Inv.start (hi : Inv cfg w) (a : StoreArgs) : Inv cfg (w.act cfg (.start a)) where
  cache_iff := hi.cache_iff
  thread_obj t' ht' pass id hpc := by
    simp only [act, List.mem_append, List.mem_singleton] at ht'
    rcases ht' with ht' | rfl
    · exact hi.thread_obj t' ht' pass id hpc
    · simp at hpc
  write_path := hi.write_path
  files_writes := hi.files_writes

/-- An entry the loader builds, whatever it holds, is cached under its own file and open. -/
theorem Inv.build (hi : Inv cfg w) (hc : w.cache.lookup (t.args.path cfg) = none) (pass : Nat)
    (e : Entry) : Inv cfg (w.build cfg t pass e) := by
  simp only [World.build]
  refine ⟨fun q id => ?_, hi.thread_obj_moveTo (fun id c h => ?_) fun pass' id' h => ?_,
    hi.write_path, hi.files_writes⟩
  · simp only [getElem?_push]
    by_cases hq : q = t.args.path cfg
    · subst hq
      simp only [AList.lookup_insert, Option.some.injEq]
      constructor
      · rintro rfl
        simp [Obj.shape]
      · intro h
        split_ifs at h with hlt heq
        · exact absurd ((hi.cache_iff _ id).2 h) (by simp [hc])
        · exact heq.symm
        · cases h
    · rw [AList.lookup_insert_ne hq, hi.cache_iff]
      split_ifs with hlt heq
      · rfl
      · simp [Obj.shape, Ne.symm hq, List.getElem?_len_le (le_of_eq heq.symm)]
      · simp [List.getElem?_len_le (Nat.le_of_not_lt hlt)]
  · obtain ⟨o, ho, -⟩ := Option.map_eq_some'.1 h
    rw [getElem?_push, if_pos (lt_of_getElem?_eq_some ho)]
    exact h
  · rcases h with h | h <;> cases h
    exact ⟨false, by simp [getElem?_push, Obj.shape]⟩

theorem Inv.get (hi : Inv cfg w) (pass : Nat) (o : Outcome) : Inv cfg (w.get cfg t pass o) := by
  rcases hc : w.cache.lookup (t.args.path cfg) with _ | id
  · cases o with
    | fail n =>
      simp only [World.get, hc]
      exact ⟨hi.restart.1, hi.restart.2, hi.restart.3, hi.restart.4⟩
    | _ => simpa only [World.get, hc] using hi.build hc pass _
  · simp only [World.get, hc]
    refine ⟨hi.cache_iff, hi.thread_obj_moveTo (fun _ _ h => h) fun pass' id' h => ?_,
      hi.write_path, hi.files_writes⟩
    rcases h with h | h <;> cases h
    exact ⟨false, (hi.cache_iff _ _).1 hc⟩

theorem Inv.finish (hi : Inv cfg w) (r : Result) : Inv cfg (w.finish t r) :=
  ⟨hi.cache_iff, fun t' ht' => hi.thread_obj t' (List.mem_of_mem_erase ht'), hi.write_path,
    hi.files_writes⟩

theorem Inv.wasUnknownStep (hi : Inv cfg w) (ht : t ∈ w.threads) {pass id : Nat}
    (hpc : t.pc = .wasUnknown pass id) (o : Outcome) :
    Inv cfg (w.wasUnknownStep t pass id o) := by
  cases o with
  | fail n => exact hi.finish .error
  | _ =>
    rcases hobj : w.objs[id]? with _ | obj
    · simpa only [World.wasUnknownStep, hobj] using hi
    · have hshape : ∀ j, ((w.objs.set id { obj with entry := { obj.entry with
          known := (wasUnknown obj.entry.known t.args.serial).2 } })[j]?).map Obj.shape =
            (w.objs[j]?).map Obj.shape := shape_set hobj rfl
      obtain ⟨c, hc⟩ := hi.thread_obj t ht pass id (.inl hpc)
      simp only [World.wasUnknownStep, hobj]
      refine ⟨fun p id' => by rw [hshape]; exact hi.cache_iff p id',
        hi.thread_obj_moveTo (fun id' c h => by rw [hshape]; exact h) fun pass' id' h => ?_,
        hi.write_path, hi.files_writes⟩
      split at h <;> rcases h with h | h <;> cases h
      exact ⟨c, by rw [hshape]; exact hc⟩

/-- The entry a thread writes through was built for its own shard file. -/
theorem Inv.path_of_write (hi : Inv cfg w) (ht : t ∈ w.threads) {pass id : Nat}
    (hpc : t.pc = .write pass id) {obj : Obj} (hobj : w.objs[id]? = some obj) :
    obj.path = t.args.path cfg := by
  obtain ⟨c, hc⟩ := hi.thread_obj t ht pass id (.inr hpc)
  rw [hobj] at hc
  exact (Prod.mk.inj (Option.some.inj hc)).1

theorem Inv.writeStep (hi : Inv cfg w) (ht : t ∈ w.threads) {pass id : Nat}
    (hpc : t.pc = .write pass id) (o : Outcome) : Inv cfg (w.writeStep cfg t pass id o) := by
  rcases hobj : w.objs[id]? with _ | obj
  · simpa only [World.writeStep, hobj] using hi
  · have hshape : ∀ j, ((w.objs.set id ⟨obj.path, ⟨obj.entry.known,
        accumulate cfg.lib obj.entry.meta t.args.cert.parsed.cert⟩, obj.closed⟩)[j]?).map
          Obj.shape = (w.objs[j]?).map Obj.shape := shape_set hobj rfl
    have hpath := hi.path_of_write ht hpc hobj
    have hthreads : ∀ pc, (pc = .get 1 ∨ pc = .markDirty) → ∀ t' ∈ w.moveTo t pc, ∀ pass' j,
        (t'.pc = .wasUnknown pass' j ∨ t'.pc = .write pass' j) →
        ∃ c, ((w.objs.set id ⟨obj.path, ⟨obj.entry.known,
          accumulate cfg.lib obj.entry.meta t.args.cert.parsed.cert⟩, obj.closed⟩)[j]?).map
            Obj.shape = some (t'.args.path cfg, c) := by
      rintro pc hpc' t' ht' pass' j h
      refine hi.thread_obj_moveTo (fun j c h => by rw [hshape]; exact h) (fun pass' j h => ?_)
        t' ht' pass' j h
      rcases hpc' with rfl | rfl <;> rcases h with h | h <;> cases h
    simp only [World.writeStep, hobj]
    revert hshape hthreads
    cases hcl : obj.closed <;> intro hshape hthreads
    · simp only [Bool.false_eq_true, if_false, Bool.false_or]
      refine ⟨fun p id' => by rw [hshape]; exact hi.cache_iff p id',
        hthreads _ (by split <;> simp), fun x hx => ?_, fun a => ?_⟩
      · rcases List.mem_append.1 hx with hx | hx
        · exact hi.write_path x hx
        · rw [List.mem_singleton.1 hx]
          exact hpath
      · by_cases ha : a.path cfg = obj.path
        · rw [ha, GoMap.getD_insert_self, ← ha, hi.files_writes a, List.filter_append,
            List.map_append, List.flatten_append]
          simp [ha]
        · rw [GoMap.getD_insert_ne _ _ _ ha, hi.files_writes a, List.filter_append]
          simp [Ne.symm ha]
    · simp only [if_true, Bool.true_or, Bool.true_and]
      exact ⟨fun p id' => by rw [hshape]; exact hi.cache_iff p id',
        hthreads _ (by split <;> simp), hi.write_path, hi.files_writes⟩

theorem Inv.markDirtyStep (hi : Inv cfg w) (o : Outcome) : Inv cfg (w.markDirtyStep cfg t o) := by
  cases o with
  | fail n => exact hi.finish .error
  | _ =>
    refine ⟨hi.cache_iff, fun t' ht' => hi.thread_obj t' (List.mem_of_mem_erase ht'),
      hi.write_path, fun a => ?_⟩
    simp only [World.markDirtyStep, World.finish]
    rw [GoMap.getD_insert_ne _ _ _ (StoreArgs.path_ne_dirtyPath a _)]
    exact hi.files_writes a

theorem Inv.exec (hi : Inv cfg w) (ht : t ∈ w.threads) (o : Outcome) : Inv cfg (w.exec cfg t o) := by
  rcases hpc : t.pc with pass | ⟨pass, id⟩ | ⟨pass, id⟩ | _ <;> simp only [World.exec, hpc]
  · exact hi.get pass o
  · exact hi.wasUnknownStep ht hpc o
  · exact hi.writeStep ht hpc o
  · exact hi.markDirtyStep o

theorem Inv.evict (hi : Inv cfg w) (p : Bytes) (saves : FileOk) : Inv cfg (w.evict p saves) := by
  rcases hc : w.cache.lookup p with _ | id
  · simpa only [World.evict, hc] using hi
  rcases hobj : w.objs[id]? with _ | obj
  · simpa only [World.evict, hc, hobj] using hi
  have hopen : obj.shape = (p, false) := by
    have := (hi.cache_iff p id).1 hc
    rwa [hobj, Option.map_some', Option.some.injEq] at this
  have hset : ∀ j, ((w.objs.set id { obj with closed := true })[j]?).map Obj.shape =
      if id = j then some (p, true) else (w.objs[j]?).map Obj.shape := by
    intro j
    split_ifs with hj
    · subst hj
      rw [List.getElem?_set_self (lt_of_getElem?_eq_some hobj)]
      simp only [Option.map_some', Obj.shape] at hopen ⊢
      rw [(Prod.mk.inj hopen).1]
    · rw [List.getElem?_set_ne hj]
  simp only [World.evict, hc, hobj]
  refine ⟨fun q id' => ?_, fun t' ht' pass id' h => ?_, hi.write_path, hi.files_writes⟩
  · rw [hset]
    by_cases hq : q = p
    · subst hq
      rw [AList.lookup_erase]
      split_ifs with hj
      · simp
      · simp only [reduceCtorEq, false_iff]
        intro h
        exact hj (Option.some.inj (hc.symm.trans ((hi.cache_iff q id').2 h)))
    · rw [AList.lookup_erase_ne hq, hi.cache_iff]
      split_ifs with hj
      · subst hj
        simp [hobj, hopen, Ne.symm hq]
      · rfl
  · obtain ⟨c, hc'⟩ := hi.thread_obj t' ht' pass id' h
    rw [hset]
    split_ifs with hj
    · subst hj
      rw [hobj, Option.map_some', hopen] at hc'
      exact ⟨true, by rw [(Prod.mk.inj (Option.some.inj hc')).1]⟩
    · exact ⟨c, hc'⟩

theorem Inv.act (hi : Inv cfg w) (a : Action) : Inv cfg (w.act cfg a) := by
  cases a with
  | start a => exact hi.start a
  | exec t o =>
    simp only [World.act]
    split_ifs with ht
    · exact hi.exec ht o
    · exact hi
  | evict p saves => exact hi.evict p saves
  | restart => exact hi.restart

theorem inv_init : Inv cfg World.init where
  cache_iff p id := by simp [World.init, AList.lookup_empty]
  thread_obj _ ht := by simp [World.init] at ht
  write_path _ hx := by simp [World.init] at hx
  files_writes a := by simp [World.init, GoMap.getD, AList.lookup_empty]

/-- Every run from an empty root keeps `Inv`. -/
theorem inv_run (acts : List Action) : Inv cfg (World.run cfg World.init acts) := by
  suffices ∀ w, Inv cfg w → Inv cfg (World.run cfg w acts) from this _ inv_init
  induction acts with
  | nil => exact fun _ h => h
  | cons a acts ih => exact fun w h => ih _ (h.act a)

end Preservation

/-! ## What each step does to the shards -/

section Frames

open World

variable {cfg : Config} {w : World} {t : Thread}

theorem current_of_lookup {p : Bytes} {id : Nat} {obj : Obj} (hc : w.cache.lookup p = some id)
    (ho : w.objs[id]? = some obj) : w.current p = obj.entry := by
  simp [World.current, hc, ho]

/-- Replacing the entry at `id` changes the state of the shard cached there only. -/
theorem current_set (w' : World) {id : Nat} {obj obj' : Obj} (hobj : w.objs[id]? = some obj)
    (hobjs : w'.objs = w.objs.set id obj') (hcache : w'.cache = w.cache)
    (hsaved : w'.saved = w.saved) (q : Bytes) :
    w'.current q = if w.cache.lookup q = some id then obj'.entry else w.current q := by
  simp only [World.current, World.load, hobjs, hcache, hsaved]
  rcases hq : w.cache.lookup q with _ | id'
  · simp
  · by_cases hj : id = id'
    · subst hj
      simp [List.getElem?_set_self (lt_of_getElem?_eq_some hobj)]
    · simp [List.getElem?_set_ne hj, Ne.symm hj]

theorem writtenAt_push {w' : World} {p : Bytes} {a : StoreArgs} {b : Bytes}
    (h : w'.writes = w.writes ++ [(p, a, b)]) (q : Bytes) :
    w'.writtenAt q = if p = q then w.writtenAt q ++ [a] else w.writtenAt q := by
  simp only [World.writtenAt, h, List.filter_append, List.map_append]
  split_ifs with hq <;> simp [hq]

/-- `cache.Get` changes no shard: a new entry is the one a load finds. -/
theorem current_get (hi : Inv cfg w) (pass : Nat) : (w.get cfg t pass .ok).current = w.current := by
  rcases hc : w.cache.lookup (t.args.path cfg) with _ | id
  · rw [get_load hc]
    funext q
    simp only [World.current, World.load]
    by_cases hq : q = t.args.path cfg
    · subst hq
      simp [hc, World.load, getElem?_push]
    · rw [AList.lookup_insert_ne hq]
      rcases hq' : w.cache.lookup q with _ | id'
      · rfl
      · obtain ⟨o, ho, -⟩ := Option.map_eq_some'.1 ((hi.cache_iff q id').1 hq')
        simp [getElem?_push, lt_of_getElem?_eq_some ho]
  · rw [get_hit hc]
    rfl

theorem writes_get (pass : Nat) (o : Outcome) : (w.get cfg t pass o).writes = w.writes := by
  dsimp only [World.get]
  split <;> rfl

/-- The entry at `id` is cached exactly under its own file, while it is open. -/
theorem Inv.lookup_iff (hi : Inv cfg w) {id : Nat} {obj : Obj} (hobj : w.objs[id]? = some obj)
    (q : Bytes) : w.cache.lookup q = some id ↔ obj.closed = false ∧ obj.path = q := by
  rw [hi.cache_iff, hobj, Option.map_some', Option.some.injEq, Obj.shape, Prod.mk.injEq]
  exact and_comm

section OpenWrite

variable (hi : Inv cfg w) {pass id : Nat} {obj : Obj} (hobj : w.objs[id]? = some obj)
  (hcl : obj.closed = false)
include hi hobj hcl

/-- A write through an open entry changes the metadata of its shard, and nothing else of it. -/
theorem current_writeStep_open (q : Bytes) :
    (w.writeStep cfg t pass id .ok).current q = if obj.path = q then
      ⟨obj.entry.known, accumulate cfg.lib obj.entry.meta t.args.cert.parsed.cert⟩
    else w.current q := by
  have hw : w.writeStep cfg t pass id .ok = _ := writeStep_open hobj hcl
  rw [current_set _ hobj (by rw [hw]) (by rw [hw]) (by rw [hw])]
  simp only [hi.lookup_iff hobj, hcl, true_and]

end OpenWrite

section ClosedWrite

variable (hi : Inv cfg w) {pass id : Nat} {obj : Obj} (hobj : w.objs[id]? = some obj)
  (hcl : obj.closed = true)
include hi hobj hcl

theorem lookup_ne_of_closed (q : Bytes) : w.cache.lookup q ≠ some id := fun hq => by
  simpa [hcl] using ((hi.lookup_iff hobj q).1 hq).1

/-- A write through a closed entry changes no shard. -/
theorem current_writeStep_closed (o : Outcome) :
    (w.writeStep cfg t pass id o).current = w.current := by
  funext q
  rw [writeStep_closed hobj hcl, current_set { w with
    objs := w.objs.set id _
    threads := w.moveTo t (if pass == 0 then .get 1 else .markDirty) } hobj rfl rfl rfl,
    if_neg (lookup_ne_of_closed hi hobj hcl q)]

end ClosedWrite

/-- An eviction whose two `Save`s succeed changes no shard: the entry it saves is the one the next
    load finds. -/
theorem current_evict (hi : Inv cfg w) (p : Bytes) : (w.evict p .both).current = w.current := by
  rcases hc : w.cache.lookup p with _ | id
  · simp only [World.evict, hc]
  rcases hobj : w.objs[id]? with _ | obj
  · simp only [World.evict, hc, hobj]
  rw [evict_cached hc hobj]
  funext q
  by_cases hq : q = p
  · subst hq
    rw [current_of_lookup hc hobj]
    simp [World.current, World.load, AList.lookup_erase]
  · simp only [World.current, World.load, AList.lookup_erase_ne hq, if_true,
      GoMap.getD_insert_ne _ _ _ hq]
    rcases hq' : w.cache.lookup q with _ | id'
    · rfl
    · have hne : id ≠ id' := by
        rintro rfl
        have h₁ := (hi.cache_iff p id).1 hc
        rw [(hi.cache_iff q id).1 hq'] at h₁
        exact hq (Prod.mk.inj (Option.some.inj h₁)).1
      simp only [List.getElem?_set_ne hne]

/-- An eviction changes only the entries, the cache and the saved entries. -/
theorem evict_frame (p : Bytes) (saves : FileOk) :
    (w.evict p saves).files = w.files ∧ (w.evict p saves).threads = w.threads ∧
      (w.evict p saves).writes = w.writes ∧ (w.evict p saves).results = w.results := by
  unfold World.evict
  split
  · exact ⟨rfl, rfl, rfl, rfl⟩
  · split <;> exact ⟨rfl, rfl, rfl, rfl⟩

theorem writes_evict (p : Bytes) (saves : FileOk) : (w.evict p saves).writes = w.writes :=
  (evict_frame p saves).2.2.1

theorem threads_evict (p : Bytes) (saves : FileOk) : (w.evict p saves).threads = w.threads :=
  (evict_frame p saves).2.1

theorem lookup_evict_ne {p q : Bytes} (hq : q ≠ p) (saves : FileOk) :
    (w.evict p saves).cache.lookup q = w.cache.lookup q := by
  unfold World.evict
  split
  · rfl
  · split
    · rfl
    · exact AList.lookup_erase_ne hq

theorem lookup_evict_self (hi : Inv cfg w) (p : Bytes) (saves : FileOk) :
    (w.evict p saves).cache.lookup p = none := by
  rcases hc : w.cache.lookup p with _ | id
  · simp only [World.evict, hc]
  rcases hobj : w.objs[id]? with _ | obj
  · simpa [hobj] using (hi.cache_iff p id).1 hc
  rw [evict_cached hc hobj]
  exact AList.lookup_erase _ _

/-- Evicting the entries of `ks` in turn, each `Save` succeeding, keeps `Inv` and every shard,
    and leaves none of `ks` cached. -/
theorem evict_foldl (ks : List Bytes) : ∀ w : World, Inv cfg w →
    Inv cfg (ks.foldl (fun w p => w.evict p .both) w) ∧
      (ks.foldl (fun w p => w.evict p .both) w).current = w.current ∧
      ∀ p, (ks.foldl (fun w p => w.evict p .both) w).cache.lookup p =
        if p ∈ ks then none else w.cache.lookup p := by
  induction ks with
  | nil => exact fun w hi => ⟨hi, rfl, fun p => by simp⟩
  | cons k ks ih =>
    intro w hi
    obtain ⟨hi', hcur, hlook⟩ := ih _ (hi.evict k .both)
    refine ⟨hi', hcur.trans (current_evict hi k), fun p => ?_⟩
    rw [List.foldl_cons, hlook p]
    by_cases hp : p = k
    · subst hp
      simp [lookup_evict_self hi]
    · simp [hp, lookup_evict_ne hp]

end Frames

/-! ## `Cleanup` -/

section Cleanup

variable {cfg : Config} {w : World}

/-- `Cleanup` changes only the entries, the cache and the saved entries. -/
theorem cleanup_frame (saves : Bytes → FileOk) :
    (w.cleanup saves).files = w.files ∧ (w.cleanup saves).writes = w.writes := by
  unfold World.cleanup
  induction w.cache.keys generalizing w with
  | nil => exact ⟨rfl, rfl⟩
  | cons k ks ih =>
    obtain ⟨hfiles, -, hwrites, -⟩ := evict_frame (w := w) k (saves k)
    obtain ⟨hf, hw⟩ := ih (w := w.evict k (saves k))
    exact ⟨hf.trans hfiles, hw.trans hwrites⟩

/-- After a `Cleanup` whose every `Save` succeeds, each shard loads as it stood before. -/
theorem load_cleanup (hi : Inv cfg w) (q : Bytes) :
    (w.cleanup fun _ => .both).load q = w.current q := by
  obtain ⟨-, hcur, hlook⟩ := evict_foldl w.cache.keys w hi
  have hnone : (w.cleanup fun _ => .both).cache.lookup q = none := by
    rw [World.cleanup, hlook q]
    split_ifs with hq
    · rfl
    · exact AList.lookup_eq_none.2 hq
  rw [← congrFun hcur q, ← World.cleanup, World.current, hnone]

end Cleanup

end CtMapReduce.Storage.DiskStore
