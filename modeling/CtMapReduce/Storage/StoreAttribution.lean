import CtMapReduce.Storage.Store

/-!
# Where the members of the remote cache come from

`Store` (`part_003:112-164`) writes three kinds of member to the remote cache, each under a key
of its own shard: the serial ID under the known-set key, every http(s) CRL URL of the
certificate under `crl::<expDate>::<issuerID>`, and the issuer DN under
`issuer::<expDate>::<issuerID>` (`part_005:33-89`). In every run, whatever fails and wherever a
thread stops, every member of every key is one of these writes of a `Store` call that was
started (`attributed_run`): a call whose write took effect, even one that then returned an
error, wrote its own values, and the three kinds of key never meet.

`Issuers()` and `CRLs()` (`part_005:91-105`) read a shard's two keys back. A shard whose date
holds no `:` lists only the DNs and CRL URLs of certificates stored into that shard, and every
one of those of each call that reached `StoreCertificatePEM` (`issuers_crls_attributed`).
-/

namespace CtMapReduce.Storage
open CtMapReduce.Go

namespace IssuerMetadata

/-- `Issuers()` (`part_005:91-97`) on a cache whose calls succeed. -/
def issuers (im : IssuerMetadata) (cache : RemoteCache) : List Bytes :=
  cache.sortedList im.issuersKey

/-- `CRLs()` (`part_005:99-105`) on a cache whose calls succeed. -/
def crls (im : IssuerMetadata) (cache : RemoteCache) : List Bytes := cache.sortedList im.crlsKey

end IssuerMetadata

/-- A member of a key after `SortedInsert` was there before, or is the one inserted. -/
theorem RemoteCache.mem_of_mem_sortedInsert {c : RemoteCache} {key m k v : Bytes}
    (h : v ∈ (c.sortedInsert key m).2.sets k) : v ∈ c.sets k ∨ (k = key ∧ v = m) := by
  rw [RemoteCache.sets_sortedInsert] at h
  split_ifs at h with hk
  · rcases Finset.mem_insert.1 h with rfl | h
    · exact .inr ⟨hk, rfl⟩
    · exact .inl (hk ▸ h)
  · exact .inl h

/-- The shard of a key determines the shard's handle, for dates without `:`. -/
theorem StoreCall.meta_eq_of_shardKey {kind : Bytes} {r : StoreCall} {im : IssuerMetadata}
    (him : colon ∉ im.expDate)
    (h : shardKey kind im.expDate im.issuer = shardKey kind r.expDate r.issuer) : r.meta = im := by
  obtain ⟨he, hi⟩ := shardKey_inj him (colon_not_mem_expDate r.cert) h
  exact (congrArg₂ IssuerMetadata.mk he hi).symm

section Attribution

variable (lib : UrlLib)

/-- The members a `Store` of `r` writes, by key. -/
def StoreCall.Writes (r : StoreCall) (k v : Bytes) : Prop :=
  (k = r.known.serialsKey ∧ v = r.serial.id) ∨ (k = r.meta.issuersKey ∧ v = r.cert.issuerDN) ∨
    (k = r.meta.crlsKey ∧ v ∈ IssuerMetadata.crlTargets lib r.cert)

/-- Every member of the cache was written by a started `Store`. -/
def Attributed (w : World) : Prop :=
  ∀ k v, v ∈ w.cache.sets k → ∃ r ∈ w.started, r.Writes lib k v

end Attribution

section Steps

variable {lib : UrlLib} {w : World}

/-- What a call adds to the cache is one of its own writes; a CRL URL is one of the
    certificate's because the thread's CRL inserts are a suffix of them. -/
theorem Pc.mem_cacheWrite {t : Thread} {c : RemoteCache} (hok : ThreadOk lib c t) {k v : Bytes}
    (h : v ∈ (t.pc.cacheWrite t.call c).sets k) : v ∈ c.sets k ∨ t.call.Writes lib k v := by
  obtain ⟨r, pc⟩ := t
  rcases pc with _ | _ | ⟨seen, _ | ⟨url, crls⟩⟩ | _ | _ | _
  case wasUnknown =>
    rcases RemoteCache.mem_of_mem_sortedInsert h with h | ⟨rfl, rfl⟩
    · exact .inl h
    · exact .inr (.inl ⟨rfl, rfl⟩)
  case accumulate.nil =>
    rcases RemoteCache.mem_of_mem_sortedInsert h with h | ⟨rfl, rfl⟩
    · exact .inl h
    · exact .inr (.inr (.inl ⟨rfl, rfl⟩))
  case accumulate.cons =>
    obtain ⟨-, ⟨done, hd, -⟩, -⟩ := hok
    rcases RemoteCache.mem_of_mem_sortedInsert h with h | ⟨rfl, rfl⟩
    · exact .inl h
    · exact .inr (.inr (.inr ⟨rfl, by simp [hd]⟩))
  all_goals exact .inl h

/-- Every action keeps the cache attributed. -/
theorem Attributed.act (hi : Inv lib w) (ha : Attributed lib w) (a : World.Action) :
    Attributed lib (w.act lib a) := by
  cases a with
  | start r =>
    intro k v hv
    obtain ⟨r', hr', hw⟩ := ha k v hv
    exact ⟨r', List.mem_append_left _ hr', hw⟩
  | exec t o =>
    simp only [World.act]
    split_ifs with ht
    · intro k v hv
      simp only [World.exec_cache, World.exec_started] at hv ⊢
      split_ifs at hv
      · rcases Pc.mem_cacheWrite (hi.threads_ok t ht) hv with hv | hw
        · exact ha k v hv
        · exact ⟨t.call, hi.threads_started t ht, hw⟩
      · exact ha k v hv
    · exact ha
  | stop t =>
    simp only [World.act]
    split_ifs
    · exact ha
    · exact ha

/-- In every run, every member of the cache was written by a started `Store`. -/
theorem attributed_run (lib : UrlLib) (acts : List World.Action) :
    Attributed lib (World.init.run lib acts) := by
  suffices ∀ w, Inv lib w → Attributed lib w → Attributed lib (w.run lib acts) from
    this _ inv_init fun k v h => by simp [World.init, RemoteCache.empty] at h
  induction acts with
  | nil => exact fun _ _ h => h
  | cons a acts ih => exact fun w hi ha => ih _ (hi.act a) (ha.act hi a)

end Steps

/-- In every run of concurrent `Store` calls, whatever fails or stops, `Issuers()` of a shard
    whose date holds no `:` lists only the issuer DNs of certificates some `Store` of that shard
    was called with, and `CRLs()` only their http(s) CRL URLs; and both list those of every call
    of the shard that reached `StoreCertificatePEM`. -/
theorem issuers_crls_attributed (lib : UrlLib) (acts : List World.Action) (im : IssuerMetadata)
    (him : colon ∉ im.expDate) :
    let w := World.init.run lib acts
    (∀ dn ∈ im.issuers w.cache, ∃ r ∈ w.started, r.meta = im ∧ r.cert.issuerDN = dn) ∧
      (∀ u ∈ im.crls w.cache, ∃ r ∈ w.started, r.meta = im ∧
        u ∈ IssuerMetadata.crlTargets lib r.cert) ∧
      ∀ r ∈ w.pemCalls, r.meta = im → r.cert.issuerDN ∈ im.issuers w.cache ∧
        ∀ u ∈ IssuerMetadata.crlTargets lib r.cert, u ∈ im.crls w.cache := by
  intro w
  have ha := attributed_run lib acts
  refine ⟨fun dn hdn => ?_, fun u hu => ?_, fun r hr hm => ?_⟩
  · obtain ⟨r, hr, hw⟩ := ha _ _ ((Finset.mem_sort _).1 hdn)
    rcases hw with ⟨hk, -⟩ | ⟨hk, rfl⟩ | ⟨hk, -⟩
    · exact absurd hk.symm (serialsKey_ne_issuersKey _ _ _ _)
    · exact ⟨r, hr, StoreCall.meta_eq_of_shardKey him hk, rfl⟩
    · exact absurd hk (issuersKey_ne_crlsKey _ _ _ _)
  · obtain ⟨r, hr, hw⟩ := ha _ _ ((Finset.mem_sort _).1 hu)
    rcases hw with ⟨hk, -⟩ | ⟨hk, -⟩ | ⟨hk, hu⟩
    · exact absurd hk.symm (serialsKey_ne_crlsKey _ _ _ _)
    · exact absurd hk.symm (issuersKey_ne_crlsKey _ _ _ _)
    · exact ⟨r, hr, StoreCall.meta_eq_of_shardKey him hk, hu⟩
  · obtain ⟨-, hdn, hcrls⟩ := (inv_run lib acts).pem_recorded r hr
    subst hm
    exact ⟨(Finset.mem_sort _).2 hdn, fun u hu => (Finset.mem_sort _).2 (hcrls u hu)⟩

theorem issuers_crls_attributed_orphaningRun :
    colon ∉ (sampleCall [1]).meta.expDate ∧
      let w := World.init.run noUrlLib orphaningRun
      let im := (sampleCall [1]).meta
      (∀ dn ∈ im.issuers w.cache, ∃ r ∈ w.started, r.meta = im ∧ r.cert.issuerDN = dn) ∧
        (∀ u ∈ im.crls w.cache, ∃ r ∈ w.started, r.meta = im ∧
          u ∈ IssuerMetadata.crlTargets noUrlLib r.cert) ∧
        ∀ r ∈ w.pemCalls, r.meta = im → r.cert.issuerDN ∈ im.issuers w.cache ∧
          ∀ u ∈ IssuerMetadata.crlTargets noUrlLib r.cert, u ∈ im.crls w.cache :=
  ⟨by decide, issuers_crls_attributed noUrlLib orphaningRun _ (by decide)⟩

end CtMapReduce.Storage
