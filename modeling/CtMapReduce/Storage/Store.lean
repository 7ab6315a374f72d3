import CtMapReduce.Storage.ShardHandles
import Mathlib.Data.Multiset.Nodup
import Mathlib.Tactic.Abel

/-!
# `FilesystemDatabase.Store` under every interleaving

`Store` (`part_003:112-164`) makes a fixed sequence of remote calls: the test-and-insert
`WasUnknown`; for an unknown serial, `Accumulate`'s `Exists`, one `SortedInsert` per http(s) CRL
point and one for the issuer DN; `AllocateExpDateAndIssuer` when the issuer was not seen before;
`StoreCertificatePEM`; and `MarkDirty`. Every error is returned at once, and concurrent calls
share only the remote cache and the backend, so a run is an interleaving of these calls. A
`Thread` is a call in progress and its `Pc` the call it makes next; a `World` holds the cache,
the backend's markers and documents, the threads, and ghost records of the calls started, the
PEM stores made, and the shards left `orphaned` by a call that read `seenBefore = false`,
inserted the issuer DN, and failed or stopped before its allocation succeeded.
A run is any list of `Action`s: start a call, let a thread make its next call with any `Outcome`,
or stop a thread. The values `Store` computes first are the fields of `StoreCall`; the `gcache`
lookup always succeeds, and `MarkDirty` writes nothing in either backend.
-/

namespace CtMapReduce.Storage
open CtMapReduce.Go

/-- The values `Store` (`part_003:112-131`) computes before its first remote call. -/
structure StoreCall where
  cert : Certificate
  /-- `NewIssuer(aIssuer)`. -/
  issuer : Issuer
  /-- `NewSerial(aCert)`. -/
  serial : Serial
  /-- `pem.EncodeToMemory(&pemblock)`. -/
  pem : Bytes
  deriving DecidableEq, Repr

namespace StoreCall

/-- `aCert.NotAfter.Format(kExpirationFormat)`. -/
def expDate (r : StoreCall) : Bytes := r.cert.expDate

/-- `ce.known`, the known-set handle of the shard. -/
def known (r : StoreCall) : KnownCertificates := ⟨r.expDate, r.issuer⟩

/-- `ce.meta`, the issuer-metadata handle of the shard. -/
def meta (r : StoreCall) : IssuerMetadata := ⟨r.expDate, r.issuer⟩

/-- The shard `(expDate, issuer)`. -/
def shard (r : StoreCall) : Bytes × Issuer := (r.expDate, r.issuer)

/-- The PEM document `(expDate, issuer, serial)` the call writes. -/
def doc (r : StoreCall) : Bytes × Issuer × Serial := (r.expDate, r.issuer, r.serial)

end StoreCall

/-- How a remote call ends: it succeeds, or it returns an error, its write having taken effect
    (`applied`) or not. -/
inductive Outcome where
  | ok
  | fail (applied : Bool)
  deriving DecidableEq, Repr

/-- Whether the call's write took effect. -/
@[simp] def Outcome.applies : Outcome → Bool
  | .ok => true
  | .fail applied => applied

/-- The remote call a `Store` call makes next. -/
inductive Pc where
  /-- `ce.known.WasUnknown(serialNum)` (`part_003:133`). -/
  | wasUnknown
  /-- `Exists(issuersKey)` in `Accumulate` (`part_005:76`). -/
  | exists_
  /-- Inside `Accumulate` after `Exists` returned `seen`: the CRL inserts still to make
      (`part_005:81-86`), then the issuer DN insert (`part_005:88`). -/
  | accumulate (seen : Bool) (crls : List Bytes)
  /-- `AllocateExpDateAndIssuer(expDate, issuer)` (`part_003:145`). -/
  | allocate
  /-- `StoreCertificatePEM(serialNum, expDate, issuer, pem)` (`part_003:151`). -/
  | storePEM
  /-- `db.markDirty(&aCert.NotAfter)` (`part_003:158`). -/
  | markDirty
  deriving DecidableEq, Repr

/-- A `Store` call in progress. -/
structure Thread where
  call : StoreCall
  pc : Pc
  deriving DecidableEq, Repr

/-- The remote state, the running `Store` calls, and the ghost records. -/
structure World where
  cache : RemoteCache
  /-- The shards `AllocateExpDateAndIssuer` has written markers for. -/
  allocated : Finset (Bytes × Issuer)
  /-- The PEM documents `StoreCertificatePEM` has created. -/
  pems : Finset (Bytes × Issuer × Serial)
  threads : List Thread
  /-- Ghost: every `Store` call started. -/
  started : List StoreCall
  /-- Ghost: every `StoreCertificatePEM` call made, whatever it returned. -/
  pemCalls : List StoreCall
  /-- Ghost: the shards a call left after inserting the issuer DN with `seenBefore = false`
      and before its `AllocateExpDateAndIssuer` succeeded. -/
  orphaned : List (Bytes × Issuer)

/-- The write the call at `pc` makes to the remote cache when it takes effect: `WasUnknown`
    inserts the serial ID, `addCRL` a CRL URL, `addIssuerDN` the issuer DN; the other calls
    write no cache key. -/
def Pc.cacheWrite (r : StoreCall) (c : RemoteCache) : Pc → RemoteCache
  | .wasUnknown => (r.known.wasUnknown c r.serial).2
  | .accumulate _ (url :: _) => (c.sortedInsert r.meta.crlsKey url).2
  | .accumulate _ [] => (c.sortedInsert r.meta.issuersKey r.cert.issuerDN).2
  | _ => c

/-- The call `Store` makes after a successful call at `pc`, whose reply is read on `c`, the
    cache before the call: `Accumulate` only for an unknown serial (`part_003:133-141`), the
    CRL inserts in order and then the DN insert (`part_005:81-88`),
    `AllocateExpDateAndIssuer` only when `seenBefore` is false (`part_003:144-149`). -/
def Pc.next (lib : UrlLib) (r : StoreCall) (c : RemoteCache) : Pc → Option Pc
  | .wasUnknown => some (if (r.known.wasUnknown c r.serial).1 then .exists_ else .markDirty)
  | .exists_ =>
    some (.accumulate (c.exists_ r.meta.issuersKey) (IssuerMetadata.crlTargets lib r.cert))
  | .accumulate seen (_ :: crls) => some (.accumulate seen crls)
  | .accumulate seen [] => some (if seen then .storePEM else .allocate)
  | .allocate => some .storePEM
  | .storePEM => some .markDirty
  | .markDirty => none

/-- Whether the call at `pc` ending with `o` leaves its shard orphaned: the DN insert after
    `seenBefore = false` took effect but returned an error, or the allocation failed. -/
def Pc.orphans : Pc → Outcome → Bool
  | .accumulate false [], .fail applied => applied
  | .allocate, .fail _ => true
  | _, _ => false

namespace World

/-- No `Store` has started: an empty cache and backend. -/
def init : World := ⟨RemoteCache.empty, ∅, ∅, [], [], [], []⟩

/-- A new `Store` call. -/
def start (w : World) (r : StoreCall) : World :=
  { w with threads := w.threads ++ [⟨r, .wasUnknown⟩], started := w.started ++ [r] }

/-- The thread that takes the place of `t` after its call ended with `o`, if `Store` goes on. -/
def nextThreads (lib : UrlLib) (w : World) (t : Thread) (o : Outcome) : List Thread :=
  ((if o = .ok then t.pc.next lib t.call w.cache else none).map (Thread.mk t.call)).toList

/-- Thread `t` makes its next remote call, which ends with `o`. -/
def exec (lib : UrlLib) (w : World) (t : Thread) (o : Outcome) : World where
  cache := if o.applies then t.pc.cacheWrite t.call w.cache else w.cache
  allocated := if t.pc = .allocate ∧ o.applies then insert t.call.shard w.allocated
    else w.allocated
  pems := if t.pc = .storePEM ∧ o.applies then insert t.call.doc w.pems else w.pems
  threads := w.threads.erase t ++ w.nextThreads lib t o
  started := w.started
  pemCalls := if t.pc = .storePEM then w.pemCalls ++ [t.call] else w.pemCalls
  orphaned := if t.pc.orphans o then w.orphaned ++ [t.call.shard] else w.orphaned

/-- Thread `t` stops where it stands (the process exits); a call stopped before its
    allocation leaves its shard orphaned. -/
def stop (w : World) (t : Thread) : World :=
  { w with
    threads := w.threads.erase t
    orphaned := if t.pc = .allocate then w.orphaned ++ [t.call.shard] else w.orphaned }

/-- What can happen next. -/
inductive Action where
  | start (r : StoreCall)
  | exec (t : Thread) (o : Outcome)
  | stop (t : Thread)
  deriving DecidableEq, Repr

/-- One action; one naming a thread that is not running changes nothing. -/
def act (lib : UrlLib) (w : World) : Action → World
  | .start r => w.start r
  | .exec t o => if t ∈ w.threads then w.exec lib t o else w
  | .stop t => if t ∈ w.threads then w.stop t else w

/-- The world after a run. -/
def run (lib : UrlLib) (w : World) (acts : List Action) : World := acts.foldl (act lib) w

/-- Whether an action is neither a failed call nor a stop. -/
def Action.isFaultFree : Action → Bool
  | .start _ => true
  | .exec _ o => o = .ok
  | .stop _ => false

end World

/-! ## Keys of a `Store` call -/

namespace StoreCall

/-- Two calls under one key of a kind are in the same shard. -/
theorem shard_eq_of_shardKey {kind : Bytes} {r r' : StoreCall}
    (h : shardKey kind r.expDate r.issuer = shardKey kind r'.expDate r'.issuer) :
    r.shard = r'.shard := by
  obtain ⟨he, hi⟩ :=
    shardKey_inj (colon_not_mem_expDate r.cert) (colon_not_mem_expDate r'.cert) h
  exact Prod.ext he hi

theorem issuersKey_eq_of_shard {r r' : StoreCall} (h : r.shard = r'.shard) :
    r.meta.issuersKey = r'.meta.issuersKey := by
  simp only [shard, Prod.mk.injEq] at h
  simp [meta, IssuerMetadata.issuersKey, h.1, h.2]

/-- The known-set key and the serial ID name the document. -/
theorem doc_eq_of_serialsKey {r r' : StoreCall} (hk : r.known.serialsKey = r'.known.serialsKey)
    (hs : r.serial.id = r'.serial.id) : r.doc = r'.doc := by
  have h := shard_eq_of_shardKey hk
  simp only [shard, Prod.mk.injEq] at h
  simp [doc, h.1, h.2, serialID_injective hs]

theorem serialsKey_eq_of_doc {r r' : StoreCall} (h : r.doc = r'.doc) :
    r.known.serialsKey = r'.known.serialsKey ∧ r.serial = r'.serial := by
  simp only [doc, Prod.mk.injEq] at h
  simp [known, KnownCertificates.serialsKey, h.1, h.2.1, h.2.2]

theorem serialsKey_ne_crls (r r' : StoreCall) : r.known.serialsKey ≠ r'.meta.crlsKey :=
  serialsKey_ne_crlsKey _ _ _ _

theorem serialsKey_ne_issuers (r r' : StoreCall) : r.known.serialsKey ≠ r'.meta.issuersKey :=
  serialsKey_ne_issuersKey _ _ _ _

theorem issuersKey_ne_crls (r r' : StoreCall) : r.meta.issuersKey ≠ r'.meta.crlsKey :=
  issuersKey_ne_crlsKey _ _ _ _

end StoreCall

/-! ## What one call writes -/

namespace Pc
open StoreCall

theorem le_cacheWrite (r : StoreCall) (c : RemoteCache) (pc : Pc) : c.Le (pc.cacheWrite r c) := by
  rcases pc with _ | _ | ⟨_, _ | _⟩ | _ | _ | _ <;>
    first | exact RemoteCache.le_refl c | exact RemoteCache.le_sortedInsert _ _ _

/-- A serial appears in a known-set only by the `WasUnknown` of its own document. -/
theorem serial_mem_cacheWrite {r r' : StoreCall} {c : RemoteCache} {pc : Pc}
    (h : r'.serial.id ∈ (pc.cacheWrite r c).sets r'.known.serialsKey) :
    r'.serial.id ∈ c.sets r'.known.serialsKey ∨ (pc = .wasUnknown ∧ r'.doc = r.doc) := by
  rcases pc with _ | _ | ⟨_, _ | _⟩ | _ | _ | _
  case wasUnknown =>
    simp only [cacheWrite, KnownCertificates.wasUnknown, RemoteCache.sets_sortedInsert] at h
    split_ifs at h with hk
    · rcases Finset.mem_insert.1 h with hs | hs
      · exact .inr ⟨rfl, doc_eq_of_serialsKey hk hs⟩
      · rw [hk]
        exact .inl hs
    · exact .inl h
  all_goals simpa [cacheWrite, serialsKey_ne_crls, serialsKey_ne_issuers] using h

/-- An issuer key comes to exist only by the DN insert of its own shard. -/
theorem exists_cacheWrite {r r' : StoreCall} {c : RemoteCache} {pc : Pc}
    (h : (pc.cacheWrite r c).exists_ r'.meta.issuersKey = true) :
    c.exists_ r'.meta.issuersKey = true ∨
      (∃ seen, pc = .accumulate seen []) ∧ r'.shard = r.shard := by
  rcases pc with _ | _ | ⟨_, _ | _⟩ | _ | _ | _
  case accumulate.nil seen =>
    simp only [cacheWrite, RemoteCache.exists_, RemoteCache.sets_sortedInsert,
      decide_eq_true_eq] at h ⊢
    split_ifs at h with hk
    · exact .inr ⟨⟨seen, rfl⟩, shard_eq_of_shardKey hk⟩
    · exact .inl h
  all_goals simpa [cacheWrite, RemoteCache.exists_, KnownCertificates.wasUnknown,
    (serialsKey_ne_issuers _ _).symm, issuersKey_ne_crls] using h

end Pc

/-! ## The invariants -/

section Invariants

variable (lib : UrlLib)

/-- What `WasUnknown` and a completed `Accumulate` of `r` leave in the cache: the serial in its
    known-set, the issuer DN under `issuersKey`, every http(s) CRL URL under `crlsKey`. -/
def Recorded (c : RemoteCache) (r : StoreCall) : Prop :=
  r.serial.id ∈ c.sets r.known.serialsKey ∧ r.cert.issuerDN ∈ c.sets r.meta.issuersKey ∧
    ∀ u ∈ IssuerMetadata.crlTargets lib r.cert, u ∈ c.sets r.meta.crlsKey

/-- What the cache holds for a thread, by the call it makes next. -/
def ThreadOk (c : RemoteCache) (t : Thread) : Prop :=
  match t.pc with
  | .wasUnknown | .markDirty => True
  | .exists_ => t.call.serial.id ∈ c.sets t.call.known.serialsKey
  | .accumulate seen crls =>
    t.call.serial.id ∈ c.sets t.call.known.serialsKey ∧
      (∃ done, IssuerMetadata.crlTargets lib t.call.cert = done ++ crls ∧
        ∀ u ∈ done, u ∈ c.sets t.call.meta.crlsKey) ∧
      (seen = true → c.exists_ t.call.meta.issuersKey = true)
  | .allocate | .storePEM => Recorded lib c t.call

/-- Whether a call at `pc` has read `WasUnknown = true` and not yet called
    `StoreCertificatePEM`. -/
def Pc.pending : Pc → Bool
  | .exists_ | .accumulate _ _ | .allocate | .storePEM => true
  | .wasUnknown | .markDirty => false

/-- The document a thread has claimed by its `WasUnknown`, if it has not yet stored it. -/
def Thread.claim (t : Thread) : Multiset (Bytes × Issuer × Serial) :=
  if t.pc.pending then {t.call.doc} else 0

/-- The documents claimed: those `StoreCertificatePEM` was called for, and those of the
    threads on their way to that call. -/
def World.claims (w : World) : Multiset (Bytes × Issuer × Serial) :=
  ↑(w.pemCalls.map StoreCall.doc) + (w.threads : Multiset Thread).bind Thread.claim

/-- The invariants of every reachable world. -/
structure Inv (w : World) : Prop where
  /-- Each thread finds in the cache what its earlier calls wrote. -/
  threads_ok : ∀ t ∈ w.threads, ThreadOk lib w.cache t
  /-- Every `StoreCertificatePEM` call came after its metadata was recorded. -/
  pem_recorded : ∀ r ∈ w.pemCalls, Recorded lib w.cache r
  /-- Every PEM document was written by a `StoreCertificatePEM` call. -/
  pems_called : ∀ d ∈ w.pems, ∃ r ∈ w.pemCalls, r.doc = d
  /-- An existing issuer key has its shard allocated, orphaned, or about to be allocated. -/
  issuer_allocated : ∀ r : StoreCall, w.cache.exists_ r.meta.issuersKey = true →
    r.shard ∈ w.allocated ∨ r.shard ∈ w.orphaned ∨
      ∃ t ∈ w.threads, t.pc = .allocate ∧ t.call.shard = r.shard
  /-- No document is claimed twice. -/
  claims_nodup : w.claims.Nodup
  threads_started : ∀ t ∈ w.threads, t.call ∈ w.started
  pemCalls_started : ∀ r ∈ w.pemCalls, r ∈ w.started

/-- The invariants of a run in which no call fails and no thread stops. -/
structure FaultFreeInv (w : World) : Prop where
  /-- A started call is still before its `WasUnknown`, or its serial is known. -/
  started_known : ∀ r ∈ w.started,
    (⟨r, .wasUnknown⟩ : Thread) ∈ w.threads ∨
      r.serial.id ∈ w.cache.sets r.known.serialsKey
  /-- A known serial is claimed. -/
  known_claimed : ∀ r : StoreCall,
    r.serial.id ∈ w.cache.sets r.known.serialsKey → r.doc ∈ w.claims
  orphaned_nil : w.orphaned = []

end Invariants

/-! ## One call -/

section Step

variable {lib : UrlLib}

theorem Recorded.mono {c c' : RemoteCache} (hc : c.Le c') {r : StoreCall} (h : Recorded lib c r) :
    Recorded lib c' r :=
  ⟨hc _ h.1, hc _ h.2.1, fun u hu => hc _ (h.2.2 u hu)⟩

theorem ThreadOk.mono {c c' : RemoteCache} (hc : c.Le c') {t : Thread} (h : ThreadOk lib c t) :
    ThreadOk lib c' t := by
  obtain ⟨r, pc⟩ := t
  rcases pc with _ | _ | ⟨seen, crls⟩ | _ | _ | _
  case accumulate =>
    obtain ⟨hs, ⟨done, hd, hdone⟩, hseen⟩ := h
    exact ⟨hc _ hs, ⟨done, hd, fun u hu => hc _ (hdone u hu)⟩,
      fun h => RemoteCache.exists_mono hc (hseen h)⟩
  case exists_ => exact hc _ h
  case allocate | storePEM => exact Recorded.mono hc h
  all_goals trivial

theorem ThreadOk.serial_mem {c : RemoteCache} {t : Thread} (h : ThreadOk lib c t)
    (hp : t.pc.pending = true) : t.call.serial.id ∈ c.sets t.call.known.serialsKey := by
  obtain ⟨r, pc⟩ := t
  rcases pc with _ | _ | _ | _ | _ | _
  case exists_ => exact h
  case accumulate => exact h.1
  case allocate | storePEM => exact h.1
  all_goals simp [Pc.pending] at hp

/-- The step lemma of a thread: what its call writes is what the next call relies on. -/
theorem ThreadOk.next {c : RemoteCache} {t : Thread} (h : ThreadOk lib c t) {p : Pc}
    (hp : t.pc.next lib t.call c = some p) :
    ThreadOk lib (t.pc.cacheWrite t.call c) ⟨t.call, p⟩ := by
  obtain ⟨r, pc⟩ := t
  rcases pc with _ | _ | ⟨seen, _ | ⟨url, crls⟩⟩ | _ | _ | _ <;>
    simp only [Pc.next, Option.some.injEq, reduceCtorEq] at hp <;> subst hp <;> dsimp only
  case wasUnknown =>
    split
    · simp only [ThreadOk, Pc.cacheWrite, KnownCertificates.wasUnknown,
        RemoteCache.mem_sortedInsert]
    · trivial
  case exists_ => exact ⟨h, ⟨[], by simp, by simp⟩, id⟩
  -- The written cache is named before anything is said about it: Lean would compare the keys
  -- by evaluation to put a membership in the unfolded write in normal form.
  case nil =>
    obtain ⟨hs, ⟨done, hd, hdone⟩, -⟩ := h
    generalize hc : Pc.cacheWrite r c (.accumulate seen []) = c'
    have hle : c.Le c' := hc ▸ Pc.le_cacheWrite r c _
    have hdn : r.cert.issuerDN ∈ c'.sets r.meta.issuersKey := by
      rw [← hc]
      simp only [Pc.cacheWrite, RemoteCache.mem_sortedInsert]
    have hrec : Recorded lib c' r :=
      ⟨hle _ hs, hdn, fun u hu => hle _ (hdone u (by simpa [hd] using hu))⟩
    split <;> exact hrec
  case cons =>
    obtain ⟨hs, ⟨done, hd, hdone⟩, hseen⟩ := h
    generalize hc : Pc.cacheWrite r c (.accumulate seen (url :: crls)) = c'
    have hle : c.Le c' := hc ▸ Pc.le_cacheWrite r c _
    have hurl : url ∈ c'.sets r.meta.crlsKey := by
      rw [← hc]
      simp only [Pc.cacheWrite, RemoteCache.mem_sortedInsert]
    refine ⟨hle _ hs, ⟨done ++ [url], by simp [hd], fun u hu => ?_⟩,
      fun h => RemoteCache.exists_mono hle (hseen h)⟩
    rcases List.mem_append.1 hu with hu | hu
    · exact hle _ (hdone u hu)
    · rwa [List.mem_singleton.1 hu]
  case allocate => exact h
  case storePEM => trivial

theorem Pc.orphans_ok (pc : Pc) : pc.orphans .ok = false := by
  rcases pc with _ | _ | ⟨_ | _, _ | _⟩ | _ | _ | _ <;> rfl

end Step

namespace World

variable {lib : UrlLib} {w : World} {t : Thread} {o : Outcome}

@[simp] theorem exec_cache :
    (w.exec lib t o).cache = if o.applies then t.pc.cacheWrite t.call w.cache else w.cache := rfl

@[simp] theorem exec_threads :
    (w.exec lib t o).threads = w.threads.erase t ++ w.nextThreads lib t o := rfl

@[simp] theorem exec_started : (w.exec lib t o).started = w.started := rfl

@[simp] theorem exec_pemCalls : (w.exec lib t o).pemCalls =
    if t.pc = .storePEM then w.pemCalls ++ [t.call] else w.pemCalls := rfl

@[simp] theorem exec_pems : (w.exec lib t o).pems =
    if t.pc = .storePEM ∧ o.applies then insert t.call.doc w.pems else w.pems := rfl

@[simp] theorem exec_allocated : (w.exec lib t o).allocated =
    if t.pc = .allocate ∧ o.applies then insert t.call.shard w.allocated else w.allocated := rfl

@[simp] theorem exec_orphaned : (w.exec lib t o).orphaned =
    if t.pc.orphans o then w.orphaned ++ [t.call.shard] else w.orphaned := rfl

theorem mem_exec_pemCalls {r : StoreCall} :
    r ∈ (w.exec lib t o).pemCalls ↔ r ∈ w.pemCalls ∨ t.pc = .storePEM ∧ r = t.call := by
  rw [exec_pemCalls]
  split_ifs with h <;> simp [h]

theorem mem_exec_pems {d : Bytes × Issuer × Serial} : d ∈ (w.exec lib t o).pems ↔
    d ∈ w.pems ∨ (t.pc = .storePEM ∧ o.applies) ∧ d = t.call.doc := by
  rw [exec_pems]
  split_ifs with h
  · rw [Finset.mem_insert, or_comm]
    simp only [h, and_self, true_and]
  · simp only [h, false_and, or_false]

theorem mem_exec_allocated {s : Bytes × Issuer} : s ∈ (w.exec lib t o).allocated ↔
    s ∈ w.allocated ∨ (t.pc = .allocate ∧ o.applies) ∧ s = t.call.shard := by
  rw [exec_allocated]
  split_ifs with h
  · rw [Finset.mem_insert, or_comm]
    simp only [h, and_self, true_and]
  · simp only [h, false_and, or_false]

theorem mem_exec_orphaned {s : Bytes × Issuer} :
    s ∈ (w.exec lib t o).orphaned ↔
      s ∈ w.orphaned ∨ t.pc.orphans o ∧ s = t.call.shard := by
  rw [exec_orphaned]
  split_ifs with h <;> simp [h]

theorem le_exec_cache : w.cache.Le (w.exec lib t o).cache := by
  rw [exec_cache]
  split
  · exact Pc.le_cacheWrite _ _ _
  · exact RemoteCache.le_refl _

theorem mem_nextThreads {t' : Thread} : t' ∈ w.nextThreads lib t o ↔
    o = .ok ∧ ∃ p, t.pc.next lib t.call w.cache = some p ∧ t' = ⟨t.call, p⟩ := by
  unfold nextThreads
  split_ifs with ho
  · rcases t.pc.next lib t.call w.cache with _ | p <;> simp [ho, eq_comm]
  · simp [ho]

theorem mem_exec_threads {t' : Thread} (h : t' ∈ (w.exec lib t o).threads) :
    t' ∈ w.threads.erase t ∨
      o = .ok ∧ ∃ p, t.pc.next lib t.call w.cache = some p ∧ t' = ⟨t.call, p⟩ := by
  simpa [mem_nextThreads] using h

/-- What a thread's call leaves claimed: the document it stored, and the claim of the thread
    in its place. -/
def claimAfter (lib : UrlLib) (w : World) (t : Thread) (o : Outcome) :
    Multiset (Bytes × Issuer × Serial) :=
  (if t.pc = .storePEM then {t.call.doc} else 0) +
    (w.nextThreads lib t o : Multiset Thread).bind Thread.claim

theorem claims_exec (ht : t ∈ w.threads) :
    (w.exec lib t o).claims + t.claim = w.claims + claimAfter lib w t o := by
  have hw : (w.threads : Multiset Thread).bind Thread.claim =
      t.claim + (w.threads.erase t : Multiset Thread).bind Thread.claim := by
    rw [← Multiset.cons_bind, ← Multiset.coe_erase, Multiset.cons_erase (Multiset.mem_coe.2 ht)]
  simp only [claims, claimAfter, exec_pemCalls, exec_threads, ← Multiset.coe_add,
    Multiset.add_bind, hw]
  split_ifs <;> simp only [List.map_append, List.map_singleton, ← Multiset.coe_add,
    Multiset.coe_singleton, zero_add] <;> abel

/-- A successful call adds a claim exactly when it is a `WasUnknown` that inserted. -/
theorem claimAfter_ok : claimAfter lib w t .ok = t.claim +
    if t.pc = .wasUnknown ∧ (t.call.known.wasUnknown w.cache t.call.serial).1 = true
    then {t.call.doc} else 0 := by
  obtain ⟨r, pc⟩ := t
  rcases pc with _ | _ | ⟨_ | _, _ | _⟩ | _ | _ | _
  case wasUnknown =>
    by_cases hu : (r.known.wasUnknown w.cache r.serial).1 = true <;>
      simp [claimAfter, nextThreads, Pc.next, Thread.claim, Pc.pending, hu]
  all_goals simp [claimAfter, nextThreads, Pc.next, Thread.claim, Pc.pending]

theorem claimAfter_fail (a : Bool) : claimAfter lib w t (.fail a) ≤ t.claim := by
  obtain ⟨r, pc⟩ := t
  rcases pc with _ | _ | ⟨_, _ | _⟩ | _ | _ | _ <;>
    simp [claimAfter, nextThreads, Thread.claim, Pc.pending]

theorem claims_exec_ok (ht : t ∈ w.threads) : (w.exec lib t .ok).claims = w.claims +
    if t.pc = .wasUnknown ∧ (t.call.known.wasUnknown w.cache t.call.serial).1 = true
    then {t.call.doc} else 0 := by
  have h := @claims_exec lib w t .ok ht
  rw [claimAfter_ok, ← add_assoc] at h
  exact add_right_cancel (h.trans (add_right_comm _ _ _))

theorem claims_exec_fail (ht : t ∈ w.threads) (a : Bool) :
    (w.exec lib t (.fail a)).claims ≤ w.claims := by
  have h := @claims_exec lib w t (.fail a) ht
  exact le_of_add_le_add_right (h.trans_le (add_le_add_left (claimAfter_fail a) _))

theorem claims_start (r : StoreCall) : (w.start r).claims = w.claims := by
  simp [start, claims, ← Multiset.coe_add, Multiset.add_bind, Thread.claim, Pc.pending]

theorem claims_stop_le (ht : t ∈ w.threads) : (w.stop t).claims ≤ w.claims := by
  have hw : (w.threads : Multiset Thread).bind Thread.claim =
      t.claim + (w.threads.erase t : Multiset Thread).bind Thread.claim := by
    rw [← Multiset.cons_bind, ← Multiset.coe_erase, Multiset.cons_erase (Multiset.mem_coe.2 ht)]
  simp only [claims, stop, hw]
  exact add_le_add_left (Multiset.le_add_left _ _) _

end World

/-! ### The invariants, action by action -/

section Preservation

variable {lib : UrlLib} {w : World} {t : Thread} {o : Outcome}
open World

theorem Inv.serial_mem_of_mem_claims (hi : Inv lib w) {d : Bytes × Issuer × Serial}
    (hd : d ∈ w.claims) :
    ∃ r : StoreCall, r.doc = d ∧ r.serial.id ∈ w.cache.sets r.known.serialsKey := by
  simp only [claims, Multiset.mem_add, Multiset.mem_coe, List.mem_map, Multiset.mem_bind,
    Thread.claim] at hd
  rcases hd with ⟨r, hr, rfl⟩ | ⟨t, ht, hd⟩
  · exact ⟨r, rfl, (hi.pem_recorded r hr).1⟩
  · split_ifs at hd with hp
    · exact ⟨t.call, (Multiset.mem_singleton.1 hd).symm, (hi.threads_ok t ht).serial_mem hp⟩
    · simp at hd

theorem Inv.claims_exec_nodup (hi : Inv lib w) (ht : t ∈ w.threads) :
    (w.exec lib t o).claims.Nodup := by
  cases o with
  | fail a => exact Multiset.nodup_of_le (claims_exec_fail ht a) hi.claims_nodup
  | ok =>
    rw [claims_exec_ok ht]
    split_ifs with hu
    · rw [add_comm, Multiset.singleton_add, Multiset.nodup_cons]
      refine ⟨fun hd => ?_, hi.claims_nodup⟩
      obtain ⟨r, hr, hs⟩ := hi.serial_mem_of_mem_claims hd
      obtain ⟨hk, hs'⟩ := StoreCall.serialsKey_eq_of_doc hr
      simp [KnownCertificates.wasUnknown, ← hk, ← hs', hs] at hu
    · simpa using hi.claims_nodup

theorem Inv.issuer_exec (hi : Inv lib w) (ht : t ∈ w.threads) (r : StoreCall)
    (hr : (w.exec lib t o).cache.exists_ r.meta.issuersKey = true) :
    r.shard ∈ (w.exec lib t o).allocated ∨ r.shard ∈ (w.exec lib t o).orphaned ∨
      ∃ t' ∈ (w.exec lib t o).threads, t'.pc = .allocate ∧ t'.call.shard = r.shard := by
  have hkept : ∀ t' ∈ w.threads, t' ≠ t → t' ∈ (w.exec lib t o).threads :=
    fun t' h hne => by simp [List.mem_erase_of_ne hne, h]
  -- the key existed before, or this call is the DN insert of a thread that read `false`
  have hold : w.cache.exists_ r.meta.issuersKey = true ∨
      (t.pc = .accumulate false [] ∧ o.applies = true ∧ r.shard = t.call.shard) := by
    rw [exec_cache] at hr
    split_ifs at hr with ha
    · rcases Pc.exists_cacheWrite hr with h | ⟨⟨seen, hpc⟩, hs⟩
      · exact .inl h
      · cases seen
        · exact .inr ⟨hpc, ha, hs⟩
        · have := hi.threads_ok t ht
          simp only [ThreadOk, hpc] at this
          rw [StoreCall.issuersKey_eq_of_shard hs]
          exact .inl (this.2.2 (by trivial))
    · exact .inl hr
  rcases hold with hold | ⟨hpc, ha, hs⟩
  · rcases hi.issuer_allocated r hold with h | h | ⟨t', ht', hpc, hs⟩
    · exact .inl (mem_exec_allocated.2 (.inl h))
    · exact .inr (.inl (mem_exec_orphaned.2 (.inl h)))
    · by_cases hne : t' = t
      · subst hne
        cases o with
        | ok => exact .inl (mem_exec_allocated.2 (.inr ⟨⟨hpc, rfl⟩, hs.symm⟩))
        | fail a => exact .inr (.inl (mem_exec_orphaned.2 (.inr ⟨by rw [hpc]; rfl, hs.symm⟩)))
      · exact .inr (.inr ⟨t', hkept t' ht' hne, hpc, hs⟩)
  · cases o with
    | ok =>
      refine .inr (.inr ⟨⟨t.call, .allocate⟩, ?_, rfl, hs.symm⟩)
      simp [mem_nextThreads, hpc, Pc.next]
    | fail a => exact .inr (.inl (mem_exec_orphaned.2 (.inr ⟨by rw [hpc]; exact ha, hs⟩)))

theorem Inv.exec (hi : Inv lib w) (ht : t ∈ w.threads) : Inv lib (w.exec lib t o) where
  threads_ok t' h' := by
    rcases mem_exec_threads h' with h' | ⟨rfl, p, hp, rfl⟩
    · exact (hi.threads_ok t' (List.mem_of_mem_erase h')).mono le_exec_cache
    · exact (hi.threads_ok t ht).next hp
  pem_recorded r hr := by
    rcases mem_exec_pemCalls.1 hr with hr | ⟨hpc, rfl⟩
    · exact (hi.pem_recorded r hr).mono le_exec_cache
    · have := hi.threads_ok t ht
      simp only [ThreadOk, hpc] at this
      exact this.mono le_exec_cache
  pems_called d hd := by
    rcases mem_exec_pems.1 hd with hd | ⟨⟨hpc, -⟩, rfl⟩
    · obtain ⟨r, hr, rfl⟩ := hi.pems_called d hd
      exact ⟨r, mem_exec_pemCalls.2 (.inl hr), rfl⟩
    · exact ⟨t.call, mem_exec_pemCalls.2 (.inr ⟨hpc, rfl⟩), rfl⟩
  issuer_allocated := hi.issuer_exec ht
  claims_nodup := hi.claims_exec_nodup ht
  threads_started t' h' := by
    rcases mem_exec_threads h' with h' | ⟨-, p, -, rfl⟩
    · exact hi.threads_started t' (List.mem_of_mem_erase h')
    · exact hi.threads_started t ht
  pemCalls_started r hr := by
    rcases mem_exec_pemCalls.1 hr with hr | ⟨-, rfl⟩
    · exact hi.pemCalls_started r hr
    · exact hi.threads_started t ht

theorem Inv.start (hi : Inv lib w) (r : StoreCall) : Inv lib (w.start r) where
  threads_ok t' h' := by
    rcases List.mem_append.1 h' with h' | h'
    · exact hi.threads_ok t' h'
    · rw [List.mem_singleton.1 h']; trivial
  pem_recorded := hi.pem_recorded
  pems_called := hi.pems_called
  issuer_allocated r' hr := by
    rcases hi.issuer_allocated r' hr with h | h | ⟨t', ht', h⟩
    · exact .inl h
    · exact .inr (.inl h)
    · exact .inr (.inr ⟨t', List.mem_append_left _ ht', h⟩)
  claims_nodup := by rw [claims_start]; exact hi.claims_nodup
  threads_started t' h' := by
    rcases List.mem_append.1 h' with h' | h'
    · exact List.mem_append_left _ (hi.threads_started t' h')
    · simp [World.start, List.mem_singleton.1 h']
  pemCalls_started r' hr := List.mem_append_left _ (hi.pemCalls_started r' hr)

theorem Inv.stop (hi : Inv lib w) (ht : t ∈ w.threads) : Inv lib (w.stop t) where
  threads_ok t' h' := hi.threads_ok t' (List.mem_of_mem_erase h')
  pem_recorded := hi.pem_recorded
  pems_called := hi.pems_called
  issuer_allocated r hr := by
    rcases hi.issuer_allocated r hr with h | h | ⟨t', ht', hpc, hs⟩
    · exact .inl h
    · exact .inr (.inl (by simp only [World.stop]; split_ifs <;> simp [h]))
    · by_cases hne : t' = t
      · subst hne
        exact .inr (.inl (by simp [World.stop, hpc, hs]))
      · exact .inr (.inr ⟨t', List.mem_erase_of_ne hne |>.2 ht', hpc, hs⟩)
  claims_nodup := Multiset.nodup_of_le (claims_stop_le ht) hi.claims_nodup
  threads_started t' h' := hi.threads_started t' (List.mem_of_mem_erase h')
  pemCalls_started := hi.pemCalls_started

theorem Inv.act (hi : Inv lib w) (a : Action) : Inv lib (w.act lib a) := by
  cases a with
  | start r => exact hi.start r
  | exec t o =>
    simp only [World.act]
    split_ifs with ht
    · exact hi.exec ht
    · exact hi
  | stop t =>
    simp only [World.act]
    split_ifs with ht
    · exact hi.stop ht
    · exact hi

theorem inv_init : Inv lib World.init where
  threads_ok := by simp [init]
  pem_recorded := by simp [init]
  pems_called := by simp [init]
  issuer_allocated r h := by simp [init, RemoteCache.exists_, RemoteCache.empty] at h
  claims_nodup := by simp [init, claims]
  threads_started := by simp [init]
  pemCalls_started := by simp [init]

/-- The invariants hold after every run. -/
theorem inv_run (lib : UrlLib) (acts : List Action) : Inv lib (World.init.run lib acts) := by
  suffices ∀ w, Inv lib w → Inv lib (w.run lib acts) from this _ inv_init
  induction acts with
  | nil => exact fun _ h => h
  | cons a acts ih => exact fun w h => ih _ (h.act a)

/-! ### Runs with no failure -/

theorem FaultFreeInv.exec (hf : FaultFreeInv w) (ht : t ∈ w.threads) :
    FaultFreeInv (w.exec lib t .ok) where
  started_known r hr := by
    rcases hf.started_known r hr with h | h
    · by_cases hne : (⟨r, .wasUnknown⟩ : Thread) = t
      · subst hne
        simp [Pc.cacheWrite, KnownCertificates.wasUnknown]
      · exact .inl (by simp [List.mem_erase_of_ne hne, h])
    · exact .inr (le_exec_cache _ h)
  known_claimed r hr := by
    rw [claims_exec_ok ht]
    by_cases hold : r.serial.id ∈ w.cache.sets r.known.serialsKey
    · exact Multiset.mem_add.2 (.inl (hf.known_claimed r hold))
    · rcases Pc.serial_mem_cacheWrite (by simpa [Outcome.applies] using hr) with h | ⟨hpc, hd⟩
      · exact absurd h hold
      · obtain ⟨hk, hs⟩ := StoreCall.serialsKey_eq_of_doc hd
        have hu : (t.call.known.wasUnknown w.cache t.call.serial).1 = true := by
          simpa [KnownCertificates.wasUnknown, ← hk, ← hs] using hold
        simp [hpc, hu, hd]
  orphaned_nil := by simp [Pc.orphans_ok, hf.orphaned_nil]

theorem FaultFreeInv.start (hf : FaultFreeInv w) (r : StoreCall) :
    FaultFreeInv (w.start r) where
  started_known r' hr := by
    rcases List.mem_append.1 hr with hr | hr
    · rcases hf.started_known r' hr with h | h
      · exact .inl (List.mem_append_left _ h)
      · exact .inr h
    · exact .inl (by simp [World.start, List.mem_singleton.1 hr])
  known_claimed r' hr := by rw [claims_start]; exact hf.known_claimed r' hr
  orphaned_nil := hf.orphaned_nil

theorem faultFreeInv_init : FaultFreeInv World.init where
  started_known := by simp [init]
  known_claimed r h := by simp [init, RemoteCache.empty] at h
  orphaned_nil := rfl

/-- The fault-free invariants hold after every run with no failed call and no stop. -/
theorem faultFreeInv_run (lib : UrlLib) (acts : List Action)
    (hacts : ∀ a ∈ acts, a.isFaultFree = true) :
    FaultFreeInv (World.init.run lib acts) := by
  suffices ∀ w, FaultFreeInv w → FaultFreeInv (w.run lib acts) from this _ faultFreeInv_init
  induction acts with
  | nil => exact fun _ h => h
  | cons a acts ih =>
    intro w hf
    refine ih (fun a ha => hacts a (List.mem_cons_of_mem _ ha)) _ ?_
    have ha := hacts a (List.mem_cons_self _ _)
    cases a with
    | start r => exact hf.start r
    | exec t o =>
      simp only [Action.isFaultFree, decide_eq_true_eq] at ha
      subst ha
      simp only [World.act]
      split_ifs with ht
      · exact hf.exec ht
      · exact hf
    | stop t => simp [Action.isFaultFree] at ha

end Preservation

/-! ## Shard allocation -/

/-- A certificate expiring on 2020-01-01 with no CRL distribution point, and two serials. -/
def sampleCall (serial : Bytes) : StoreCall :=
  ⟨⟨⟨1577836800, 0, .utc⟩, [], ascii "CN=CA"⟩, ⟨ascii "I"⟩, ⟨serial⟩, []⟩

/-- A `Store` whose `AllocateExpDateAndIssuer` fails after its DN insert, then a `Store` of a
    second serial of the same shard that runs to the end. -/
def orphaningRun : List World.Action :=
  let r₁ := sampleCall [1]
  let r₂ := sampleCall [2]
  [.start r₁, .exec ⟨r₁, .wasUnknown⟩ .ok, .exec ⟨r₁, .exists_⟩ .ok,
    .exec ⟨r₁, .accumulate false []⟩ .ok, .exec ⟨r₁, .allocate⟩ (.fail false),
    .start r₂, .exec ⟨r₂, .wasUnknown⟩ .ok, .exec ⟨r₂, .exists_⟩ .ok,
    .exec ⟨r₂, .accumulate true []⟩ .ok, .exec ⟨r₂, .storePEM⟩ .ok,
    .exec ⟨r₂, .markDirty⟩ .ok]

/-- A library that parses nothing; the sample certificates have no distribution point. -/
def noUrlLib : UrlLib := ⟨id, fun _ => none⟩

theorem pem_shard_unallocated :
    ¬ ∀ (lib : UrlLib) (acts : List World.Action), (World.init.run lib acts).threads = [] →
      ∀ d ∈ (World.init.run lib acts).pems, (d.1, d.2.1) ∈ (World.init.run lib acts).allocated := by
  intro h
  revert h
  simp only [imp_false, not_forall]
  exact ⟨noUrlLib, orphaningRun, by decide, by decide⟩

/-- Where no `Store` is in progress, the shard of every PEM document is allocated, or was
    orphaned by a call that failed or stopped between its DN insert and its allocation, which
    takes a failed call or a stop in the run. -/
theorem pem_shard_allocated_or_orphaned (lib : UrlLib) (acts : List World.Action) :
    let w := World.init.run lib acts
    w.threads = [] → ∀ d ∈ w.pems, (d.1, d.2.1) ∈ w.allocated ∨
      ((d.1, d.2.1) ∈ w.orphaned ∧ ∃ a ∈ acts, a.isFaultFree = false) := by
  intro w hq d hd
  have hi := inv_run lib acts
  obtain ⟨r, hr, rfl⟩ := hi.pems_called d hd
  have hex : w.cache.exists_ r.meta.issuersKey = true := by
    simpa [RemoteCache.exists_] using ⟨_, (hi.pem_recorded r hr).2.1⟩
  rcases hi.issuer_allocated r hex with h | h | ⟨t, ht, -⟩
  · exact .inl h
  · refine .inr ⟨h, ?_⟩
    by_contra hff
    simp only [not_exists, not_and, Bool.not_eq_false] at hff
    simp [(faultFreeInv_run lib acts hff).orphaned_nil] at h
  · rw [hq] at ht
    exact absurd ht (List.not_mem_nil t)

theorem pem_shard_orphaned_in_orphaningRun :
    (World.init.run noUrlLib orphaningRun).threads = [] ∧
      ∀ d ∈ (World.init.run noUrlLib orphaningRun).pems,
        (d.1, d.2.1) ∈ (World.init.run noUrlLib orphaningRun).allocated ∨
          ((d.1, d.2.1) ∈ (World.init.run noUrlLib orphaningRun).orphaned ∧
            ∃ a ∈ orphaningRun, a.isFaultFree = false) :=
  ⟨by decide, pem_shard_allocated_or_orphaned noUrlLib orphaningRun (by decide)⟩

/-! ## One PEM write per document -/

/-- `StoreCertificatePEM` is called at most once per document in every run, and only after the
    serial, the issuer DN and every http(s) CRL URL of the certificate are in the cache; where
    no call failed and no `Store` stopped, once all calls returned, it was called exactly once
    for each distinct document submitted. -/
theorem storeCertificatePEM_once (lib : UrlLib) (acts : List World.Action) :
    let w := World.init.run lib acts
    (w.pemCalls.map StoreCall.doc).Nodup ∧ (∀ r ∈ w.pemCalls, Recorded lib w.cache r) ∧
      ((∀ a ∈ acts, a.isFaultFree = true) → w.threads = [] →
        (w.pemCalls.map StoreCall.doc).Perm (w.started.map StoreCall.doc).dedup) := by
  intro w
  have hi := inv_run lib acts
  have hnd : (w.pemCalls.map StoreCall.doc).Nodup :=
    Multiset.coe_nodup.1 (Multiset.nodup_of_le (Multiset.le_add_right _ _) hi.claims_nodup)
  refine ⟨hnd, hi.pem_recorded, fun hff hq => ?_⟩
  have hf := faultFreeInv_run lib acts hff
  refine (List.perm_ext_iff_of_nodup hnd (List.nodup_dedup _)).2 fun d => ?_
  simp only [List.mem_dedup, List.mem_map]
  constructor
  · rintro ⟨r, hr, rfl⟩
    exact ⟨r, hi.pemCalls_started r hr, rfl⟩
  · rintro ⟨r, hr, rfl⟩
    rcases hf.started_known r hr with h | h
    · rw [hq] at h
      exact absurd h (List.not_mem_nil _)
    · have hc := hf.known_claimed r h
      rw [World.claims, hq] at hc
      simpa using hc

/-- Two `Store` calls of one certificate, interleaved, with no failure. -/
def duplicateRun : List World.Action :=
  let r := sampleCall [1]
  [.start r, .start r, .exec ⟨r, .wasUnknown⟩ .ok, .exec ⟨r, .wasUnknown⟩ .ok,
    .exec ⟨r, .exists_⟩ .ok, .exec ⟨r, .accumulate false []⟩ .ok,
    .exec ⟨r, .allocate⟩ .ok, .exec ⟨r, .storePEM⟩ .ok, .exec ⟨r, .markDirty⟩ .ok,
    .exec ⟨r, .markDirty⟩ .ok]

theorem storeCertificatePEM_once_duplicateRun :
    (∀ a ∈ duplicateRun, a.isFaultFree = true) ∧
      (World.init.run noUrlLib duplicateRun).threads = [] ∧
      ((World.init.run noUrlLib duplicateRun).pemCalls.map StoreCall.doc).Perm
        ((World.init.run noUrlLib duplicateRun).started.map StoreCall.doc).dedup :=
  ⟨by decide, by decide,
    (storeCertificatePEM_once noUrlLib duplicateRun).2.2 (by decide) (by decide)⟩

end CtMapReduce.Storage
