import CtMapReduce.Storage.RemoteCache

/-!
# Shard handles: known certificates and issuer metadata

The two per-shard handles of the cache-backed revision. `IssuerMetadata` (`part_005`) keeps
the issuer distinguished names of a shard under `issuer::<expDate>::<issuerID>` and its CRL
distribution points under `crl::<expDate>::<issuerID>`. `KnownCertificates` keeps the shard's
serials under `serials::<expDate>::<issuerID>`; its cache-backed code is not under src, so it
is modelled from the spec (§3 and §4.3).

`addCRL` parses a distribution point with `url.Parse(strings.TrimSpace(dp))`. Both are Go
library functions and are taken as given (`UrlLib`): every result holds for all of them.

The keys are built with `fmt.Sprintf("%s::%s", ...)`. An expiration date is a formatted date
and holds no `:`, so the key of a shard determines the shard (`shardKey_inj`), and the three
kinds of key never meet (`issuersKey_ne_crlsKey` and its siblings).
-/

namespace CtMapReduce.Storage
open CtMapReduce.Go

/-- What `addCRL` reads of a parsed `*url.URL`: its scheme and `String()`. -/
structure URL where
  scheme : Bytes
  string : Bytes
  deriving DecidableEq, Repr

/-- The library functions `addCRL` calls: `strings.TrimSpace` and `url.Parse` (`none` for an
    error). -/
structure UrlLib where
  trimSpace : Bytes → Bytes
  parse : Bytes → Option URL

/-- `kIssuers` (`part_005:12`). -/
def kIssuers : Bytes := ascii "issuer"

/-- `kCrls` (`part_005:13`). -/
def kCrls : Bytes := ascii "crl"

/-- The known-set prefix of spec §3, `serials::<expDate>::<issuerID>`. -/
def kSerials : Bytes := ascii "serials"

/-- `fmt.Sprintf("%s::%s", a, b)`. -/
def sprintfPair (a b : Bytes) : Bytes := a ++ ascii "::" ++ b

/-- The key of kind `kind` for the shard `(expDate, issuer)`. -/
def shardKey (kind expDate : Bytes) (issuer : Issuer) : Bytes :=
  sprintfPair kind (sprintfPair expDate issuer.id)

/-- `type IssuerMetadata struct` of the cache-backed revision (`part_005:15-19`). -/
structure IssuerMetadata where
  expDate : Bytes
  issuer : Issuer
  deriving DecidableEq, Repr

namespace IssuerMetadata

/-- `fmt.Sprintf("%s::%s", kIssuers, im.id())`. -/
def issuersKey (im : IssuerMetadata) : Bytes := shardKey kIssuers im.expDate im.issuer

/-- `fmt.Sprintf("%s::%s", kCrls, im.id())`. -/
def crlsKey (im : IssuerMetadata) : Bytes := shardKey kCrls im.expDate im.issuer

/-- The member `addCRL` (`part_005:33-58`) inserts for a distribution point, if any: the
    `String()` of the parsed URL when it parses and its scheme is `http` or `https`; `ldap`
    and `ldaps` are skipped silently, other schemes and parse errors with a log line. -/
def crlTarget (lib : UrlLib) (dp : Bytes) : Option Bytes :=
  match lib.parse (lib.trimSpace dp) with
  | none => none
  | some url =>
    if url.scheme = ascii "ldap" ∨ url.scheme = ascii "ldaps" then none
    else if url.scheme ≠ ascii "http" ∧ url.scheme ≠ ascii "https" then none
    else some url.string

/-- The members `Accumulate`'s loop inserts under `crlsKey`, in order. -/
def crlTargets (lib : UrlLib) (c : Certificate) : List Bytes :=
  c.crlDistributionPoints.filterMap (crlTarget lib)

/-- `addCRL` on a cache whose calls all succeed. -/
def addCRL (lib : UrlLib) (im : IssuerMetadata) (cache : RemoteCache) (dp : Bytes) :
    RemoteCache :=
  match crlTarget lib dp with
  | none => cache
  | some url => (cache.sortedInsert im.crlsKey url).2

/-- `addIssuerDN` (`part_005:60-72`) on a cache whose calls all succeed. -/
def addIssuerDN (im : IssuerMetadata) (cache : RemoteCache) (dn : Bytes) : RemoteCache :=
  (cache.sortedInsert im.issuersKey dn).2

/-- `Accumulate` (`part_005:74-89`) on a cache whose calls all succeed: `seenBefore` is read
    with `Exists` before any insert. -/
def accumulate (lib : UrlLib) (im : IssuerMetadata) (cache : RemoteCache) (c : Certificate) :
    Bool × RemoteCache :=
  (cache.exists_ im.issuersKey,
    im.addIssuerDN (c.crlDistributionPoints.foldl (im.addCRL lib) cache) c.issuerDN)

/-- The CRL inserts of `Accumulate` are those of its http(s) distribution points, in order. -/
theorem foldl_addCRL (lib : UrlLib) (im : IssuerMetadata) (cache : RemoteCache)
    (dps : List Bytes) :
    dps.foldl (im.addCRL lib) cache =
      (dps.filterMap (crlTarget lib)).foldl (fun c url => (c.sortedInsert im.crlsKey url).2)
        cache := by
  induction dps generalizing cache with
  | nil => rfl
  | cons dp dps ih =>
    rw [List.foldl_cons, ih, List.filterMap_cons, addCRL]
    cases crlTarget lib dp <;> rfl

end IssuerMetadata

/-- Modelled from the spec: `KnownCertificates` of the cache-backed revision is absent from
    src (only its callers are there); §3 keeps a shard's serials in the sorted set
    `serials::<expDate>::<issuerID>`. -/
structure KnownCertificates where
  expDate : Bytes
  issuer : Issuer
  deriving DecidableEq, Repr

namespace KnownCertificates

/-- Modelled from the spec: the key `serials::<expDate>::<issuerID>` of §3. -/
def serialsKey (kc : KnownCertificates) : Bytes := shardKey kSerials kc.expDate kc.issuer

/-- Modelled from the spec: `WasUnknown(serial)` is the single atomic
    `SortedInsert(serialsKey, serial.ID())` of §4.3, returning the insert's result. -/
def wasUnknown (kc : KnownCertificates) (cache : RemoteCache) (s : Serial) :
    Bool × RemoteCache :=
  cache.sortedInsert kc.serialsKey s.id

end KnownCertificates

/-! ## Keys -/

/-- The byte `':'`. -/
def colon : Fin 256 := 58

theorem ascii_sep : ascii "::" = [colon, colon] := rfl

theorem append_cons_inj {α : Type} {c : α} :
    ∀ {a a' r r' : List α}, c ∉ a → c ∉ a' → a ++ c :: r = a' ++ c :: r' →
      a = a' ∧ r = r'
  | [], [], _, _, _, _, h => ⟨rfl, by simpa using h⟩
  | [], x :: a', _, _, _, h', h => by
    simp only [List.nil_append, List.cons_append, List.cons.injEq] at h
    exact absurd (h.1 ▸ List.mem_cons_self x a') h'
  | x :: a, [], _, _, h, _, h' => by
    simp only [List.nil_append, List.cons_append, List.cons.injEq] at h'
    exact absurd (h'.1 ▸ List.mem_cons_self x a) h
  | x :: a, y :: a', _, _, h, h', he => by
    simp only [List.cons_append, List.cons.injEq] at he
    obtain ⟨rfl, he⟩ := he
    obtain ⟨rfl, rfl⟩ := append_cons_inj (List.not_mem_of_not_mem_cons h)
      (List.not_mem_of_not_mem_cons h') he
    exact ⟨rfl, rfl⟩

/-- A formatted expiration date holds no `:`. -/
theorem colon_not_mem_expDate (c : Certificate) : colon ∉ c.expDate := by
  intro h
  rcases formatDate_digit_or_dash _ _ h with h | h <;> revert h <;> decide

/-- The key of a shard determines the shard, for dates without `:`. -/
theorem shardKey_inj {kind e e' : Bytes} {i i' : Issuer} (he : colon ∉ e) (he' : colon ∉ e')
    (h : shardKey kind e i = shardKey kind e' i') : e = e' ∧ i = i' := by
  simp only [shardKey, sprintfPair, ascii_sep, List.append_assoc, List.cons_append,
    List.nil_append, List.append_cancel_left_eq, List.cons.injEq, true_and] at h
  obtain ⟨rfl, h⟩ := append_cons_inj he he' h
  exact ⟨rfl, by cases i; cases i'; simp_all⟩

theorem head?_shardKey {kind : Bytes} (e : Bytes) (i : Issuer) (h : kind ≠ []) :
    (shardKey kind e i).head? = kind.head? := by
  cases kind with
  | nil => contradiction
  | cons x xs => rfl

theorem issuersKey_ne_crlsKey (e e' : Bytes) (i i' : Issuer) :
    shardKey kIssuers e i ≠ shardKey kCrls e' i' := fun h => by
  have := congrArg List.head? h
  rw [head?_shardKey _ _ (by decide), head?_shardKey _ _ (by decide)] at this
  exact absurd this (by decide)

theorem serialsKey_ne_crlsKey (e e' : Bytes) (i i' : Issuer) :
    shardKey kSerials e i ≠ shardKey kCrls e' i' := fun h => by
  have := congrArg List.head? h
  rw [head?_shardKey _ _ (by decide), head?_shardKey _ _ (by decide)] at this
  exact absurd this (by decide)

theorem serialsKey_ne_issuersKey (e e' : Bytes) (i i' : Issuer) :
    shardKey kSerials e i ≠ shardKey kIssuers e' i' := fun h => by
  have := congrArg List.head? h
  rw [head?_shardKey _ _ (by decide), head?_shardKey _ _ (by decide)] at this
  exact absurd this (by decide)

/-! ## What `Accumulate` does to the cache -/

namespace IssuerMetadata

theorem issuersKey_ne_crlsKey_self (im : IssuerMetadata) : im.issuersKey ≠ im.crlsKey :=
  issuersKey_ne_crlsKey _ _ _ _

/-- A distribution point yields a CRL member exactly when it parses after trimming with scheme
    `http` or `https`; the member is the parsed URL's `String()`. -/
theorem crlTarget_eq_some {lib : UrlLib} {dp u : Bytes} :
    crlTarget lib dp = some u ↔ ∃ url, lib.parse (lib.trimSpace dp) = some url ∧
      (url.scheme = ascii "http" ∨ url.scheme = ascii "https") ∧ url.string = u := by
  unfold crlTarget
  cases lib.parse (lib.trimSpace dp) with
  | none => simp
  | some url =>
    by_cases hweb : url.scheme = ascii "http" ∨ url.scheme = ascii "https"
    · have hldap : ¬(url.scheme = ascii "ldap" ∨ url.scheme = ascii "ldaps") := by
        rcases hweb with h | h <;> rw [h] <;> decide
      dsimp only
      rw [if_neg hldap, if_neg (by tauto)]
      simp only [Option.some.injEq, exists_eq_left', hweb, true_and]
    · simp only [not_or] at hweb
      simp [hweb]

/-- The set `H(c)` of the spec: the members of `crlTargets`, whatever sits around them in the
    list of distribution points. -/
theorem mem_crlTargets {lib : UrlLib} {c : Certificate} {u : Bytes} :
    u ∈ crlTargets lib c ↔ ∃ dp ∈ c.crlDistributionPoints, ∃ url,
      lib.parse (lib.trimSpace dp) = some url ∧
      (url.scheme = ascii "http" ∨ url.scheme = ascii "https") ∧ url.string = u := by
  simp only [crlTargets, List.mem_filterMap, crlTarget_eq_some]

/-- `Accumulate` adds the issuer DN under `issuersKey`, the CRL targets under `crlsKey`, and
    touches no other key. -/
theorem sets_accumulate (lib : UrlLib) (im : IssuerMetadata) (cache : RemoteCache)
    (c : Certificate) (k : Bytes) :
    (im.accumulate lib cache c).2.sets k =
      if k = im.issuersKey then insert c.issuerDN (cache.sets k)
      else if k = im.crlsKey then cache.sets k ∪ (crlTargets lib c).toFinset
      else cache.sets k := by
  simp only [accumulate, addIssuerDN, RemoteCache.sets_sortedInsert, foldl_addCRL,
    RemoteCache.sets_foldl_sortedInsert, crlTargets, if_neg im.issuersKey_ne_crlsKey_self]
  split_ifs <;> subst_vars <;> rfl

/-- `Accumulate` (`part_005:74-89`) returns whether the shard's issuer key existed, adds to the
    CRL key every http(s) distribution point (an ldap, unknown-scheme or unparseable point
    is skipped on its own and never stops the loop), adds the issuer DN to the issuer key and
    leaves every other key alone. Its effect on the sets is therefore a union, so accumulating
    a certificate twice is accumulating it once, and two certificates commute (spec P5). -/
theorem accumulate_sets_union (lib : UrlLib) (im : IssuerMetadata) (cache : RemoteCache)
    (c c₁ c₂ : Certificate) :
    (im.accumulate lib cache c).1 = cache.exists_ im.issuersKey ∧
    (∀ u, u ∈ (im.accumulate lib cache c).2.sets im.crlsKey ↔
      u ∈ cache.sets im.crlsKey ∨ ∃ dp ∈ c.crlDistributionPoints, ∃ url,
        lib.parse (lib.trimSpace dp) = some url ∧
        (url.scheme = ascii "http" ∨ url.scheme = ascii "https") ∧ url.string = u) ∧
    (im.accumulate lib cache c).2.sets im.issuersKey =
      insert c.issuerDN (cache.sets im.issuersKey) ∧
    (∀ k, k ≠ im.issuersKey → k ≠ im.crlsKey → (im.accumulate lib cache c).2.sets k = cache.sets k) ∧
    (im.accumulate lib (im.accumulate lib cache c).2 c).2 = (im.accumulate lib cache c).2 ∧
    (im.accumulate lib (im.accumulate lib cache c₁).2 c₂).2 =
      (im.accumulate lib (im.accumulate lib cache c₂).2 c₁).2 := by
  have hne := im.issuersKey_ne_crlsKey_self
  refine ⟨rfl, fun u => ?_, ?_, fun k h₁ h₂ => ?_, ?_, ?_⟩
  · simp [sets_accumulate, hne.symm, ← mem_crlTargets]
  · simp [sets_accumulate]
  · simp [sets_accumulate, h₁, h₂]
  · ext k : 2
    simp only [sets_accumulate]
    split_ifs <;> simp [Finset.union_assoc]
  · ext k : 2
    simp only [sets_accumulate]
    split_ifs
    · exact Finset.Insert.comm _ _ _
    · exact Finset.union_right_comm _ _ _
    · rfl

end IssuerMetadata

end CtMapReduce.Storage
