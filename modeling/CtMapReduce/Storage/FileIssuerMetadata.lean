import CtMapReduce.Storage.ShardHandles

/-!
# Issuer metadata of the file-backed revision

`storage/issuermetadata.go` keeps the CRL distribution points of one shard as the slice
`metadata.Crls`, sorted by `strings.Compare`; `addCRL` is the binary-search insert shared with
the mock cache. `Accumulate` parses each point with `url.Parse(dp)`, with no `TrimSpace`:
`continue` on a parse error or an unknown scheme, `addCRL` for `http(s)`, and `return` for
`ldap(s)`, which ends the whole loop where the cache-backed `addCRL` (`part_005:40-41`) skips
only that point. A run of `Accumulate` calls keeps the list strictly increasing and gains the
`http(s)` points of each certificate before its first `ldap(s)` point (`accumulate_run`);
`accumulate_stops_at_ldap` is spec E3 on this revision. `Load` and `Save`, which move the slice
to and from disk, are not modelled here; `Accumulate` holds the mutex for its whole loop, so a
run of its calls is a sequence.
-/

namespace CtMapReduce.Storage.FileIssuerMetadata
open CtMapReduce.Go

/-- `type metadata struct { Crls []*string }` (`issuermetadata.go:23-25`), each pointer as the
    string it points at. -/
structure Metadata where
  crls : List Bytes
  deriving DecidableEq, Repr

/-- The metadata `NewIssuerMetadata` (`issuermetadata.go:27-37`) starts from. -/
def newIssuerMetadata : Metadata := ⟨[]⟩

/-- `addCRL` (`issuermetadata.go:87-110`): search the lower bound `idx` of `aCRL`, return if
    `Crls[idx]` is `aCRL`, and insert it at `idx` otherwise. -/
def addCRL (m : Metadata) (aCRL : Bytes) : Metadata :=
  let count := m.crls.length
  let idx := lowerBound m.crls aCRL
  if idx < count ∧ stringsCompare aCRL (m.crls.getD idx []) = 0 then m
  else ⟨insertAt m.crls idx aCRL⟩

/-- The loop of `Accumulate` (`issuermetadata.go:117-131`) over the remaining points. -/
def accumulateLoop (lib : UrlLib) (m : Metadata) : List Bytes → Metadata
  | [] => m
  | dp :: dps =>
    match lib.parse dp with
    | none => accumulateLoop lib m dps
    | some url =>
      if url.scheme = ascii "http" ∨ url.scheme = ascii "https" then
        accumulateLoop lib (addCRL m dp) dps
      else if url.scheme = ascii "ldap" ∨ url.scheme = ascii "ldaps" then m
      else accumulateLoop lib m dps

/-- Modelled from the spec: `IssuerMetadata.Accumulate` of the revision `part_001` calls is not
    under src, and spec section 4.3 gives its effect. This is `Accumulate` of the revision under
    src (`issuermetadata.go:113-132`), taken for it. -/
def accumulate (lib : UrlLib) (m : Metadata) (c : Certificate) : Metadata :=
  accumulateLoop lib m c.crlDistributionPoints

/-- Whether `url.Parse(dp)` succeeds with scheme `http` or `https`: the points `Accumulate`
    adds. -/
def isWeb (lib : UrlLib) (dp : Bytes) : Bool :=
  match lib.parse dp with
  | some url => decide (url.scheme = ascii "http" ∨ url.scheme = ascii "https")
  | none => false

/-- Whether `url.Parse(dp)` succeeds with scheme `ldap` or `ldaps`: the points where
    `Accumulate` returns. -/
def isLdap (lib : UrlLib) (dp : Bytes) : Bool :=
  match lib.parse dp with
  | some url => decide (url.scheme = ascii "ldap" ∨ url.scheme = ascii "ldaps")
  | none => false

/-- `addCRL` of a point already in a strictly increasing slice finds it and returns. -/
theorem addCRL_of_mem {m : Metadata} (hs : StrictlySorted m.crls) {aCRL : Bytes}
    (hmem : aCRL ∈ m.crls) : addCRL m aCRL = m := by
  simp only [addCRL, if_pos ((lowerBound_found_iff hs).2 hmem)]

/-- `addCRL` keeps the slice strictly increasing and adds exactly its argument. -/
theorem addCRL_spec {m : Metadata} (hs : StrictlySorted m.crls) (aCRL : Bytes) :
    StrictlySorted (addCRL m aCRL).crls ∧ ∀ u, u ∈ (addCRL m aCRL).crls ↔ u = aCRL ∨ u ∈ m.crls := by
  by_cases hmem : aCRL ∈ m.crls
  · rw [addCRL_of_mem hs hmem]
    exact ⟨hs, fun u => ⟨Or.inr, by rintro (rfl | h) <;> assumption⟩⟩
  · have hfound := mt (lowerBound_found_iff hs).1 hmem
    simp only [addCRL, if_neg hfound]
    exact ⟨insertAt_sorted hs hmem, fun u => mem_insertAt⟩

/-- One point of the loop: an `ldap(s)` point ends it, an `http(s)` point is added, and any
    other point is passed over. -/
theorem accumulateLoop_cons (lib : UrlLib) (m : Metadata) (dp : Bytes) (dps : List Bytes) :
    accumulateLoop lib m (dp :: dps) =
      if isLdap lib dp then m
      else accumulateLoop lib (if isWeb lib dp then addCRL m dp else m) dps := by
  rcases hp : lib.parse dp with _ | url
  · simp [accumulateLoop, isLdap, isWeb, hp]
  · by_cases hweb : url.scheme = ascii "http" ∨ url.scheme = ascii "https"
    · have hldap : ¬(url.scheme = ascii "ldap" ∨ url.scheme = ascii "ldaps") := by
        rcases hweb with h | h <;> rw [h] <;> decide
      simp [accumulateLoop, isLdap, isWeb, hp, hweb, hldap]
    · simp [accumulateLoop, isLdap, isWeb, hp, hweb]

/-- The loop keeps the slice strictly increasing and adds the `http(s)` points before the first
    `ldap(s)` point. -/
theorem accumulateLoop_spec (lib : UrlLib) {m : Metadata} (hs : StrictlySorted m.crls)
    (dps : List Bytes) :
    StrictlySorted (accumulateLoop lib m dps).crls ∧
      ∀ u, u ∈ (accumulateLoop lib m dps).crls ↔
        u ∈ m.crls ∨ u ∈ (dps.takeWhile fun dp => !isLdap lib dp).filter (isWeb lib) := by
  induction dps generalizing m with
  | nil => simpa [accumulateLoop] using hs
  | cons dp dps ih =>
    rw [accumulateLoop_cons]
    by_cases hldap : isLdap lib dp
    · simp [hldap, hs]
    · by_cases hweb : isWeb lib dp
      · obtain ⟨hs', hmem⟩ := addCRL_spec hs dp
        obtain ⟨hsorted, hrun⟩ := ih hs'
        refine ⟨by simpa [hldap, hweb] using hsorted, fun u => ?_⟩
        simp only [hldap, hweb, if_true, Bool.false_eq_true, if_false, hrun, hmem,
          List.takeWhile_cons, Bool.not_false, List.filter_cons, List.mem_cons, or_assoc]
        exact or_left_comm
      · simpa [hldap, hweb] using ih hs

theorem sorted_foldl_accumulate (lib : UrlLib) {m : Metadata} (hs : StrictlySorted m.crls)
    (certs : List Certificate) : StrictlySorted (certs.foldl (accumulate lib) m).crls := by
  induction certs generalizing m with
  | nil => exact hs
  | cons c certs ih => exact ih (accumulateLoop_spec lib hs c.crlDistributionPoints).1

theorem mem_foldl_accumulate (lib : UrlLib) {m : Metadata} (hs : StrictlySorted m.crls)
    (certs : List Certificate) (u : Bytes) :
    u ∈ (certs.foldl (accumulate lib) m).crls ↔ u ∈ m.crls ∨
      ∃ c ∈ certs, u ∈ (c.crlDistributionPoints.takeWhile fun dp => !isLdap lib dp).filter
        (isWeb lib) := by
  induction certs generalizing m with
  | nil => simp
  | cons c certs ih =>
    obtain ⟨hs', hmem⟩ := accumulateLoop_spec lib hs c.crlDistributionPoints
    simp only [List.foldl_cons, ih hs', accumulate, hmem, List.mem_cons, exists_eq_or_imp]
    exact or_assoc

/-- A run of `Accumulate` calls from a strictly increasing slice keeps it strictly increasing
    and records the `http(s)` points of each certificate that come before its first `ldap(s)`
    point. -/
theorem accumulate_run (lib : UrlLib) {m : Metadata} (hs : StrictlySorted m.crls)
    (certs : List Certificate) :
    StrictlySorted (certs.foldl (accumulate lib) m).crls ∧
      ∀ u, u ∈ (certs.foldl (accumulate lib) m).crls ↔ u ∈ m.crls ∨
        ∃ c ∈ certs, u ∈ (c.crlDistributionPoints.takeWhile fun dp => !isLdap lib dp).filter
          (isWeb lib) :=
  ⟨sorted_foldl_accumulate lib hs certs, mem_foldl_accumulate lib hs certs⟩

/-- The loop changes nothing once the slice holds every point it would add. -/
theorem accumulateLoop_of_mem (lib : UrlLib) {m : Metadata} (hs : StrictlySorted m.crls)
    (dps : List Bytes)
    (hmem : ∀ u ∈ (dps.takeWhile fun dp => !isLdap lib dp).filter (isWeb lib), u ∈ m.crls) :
    accumulateLoop lib m dps = m := by
  induction dps with
  | nil => rfl
  | cons dp dps ih =>
    rw [accumulateLoop_cons]
    cases hldap : isLdap lib dp
    · simp only [List.takeWhile_cons, hldap, Bool.not_false, if_true] at hmem
      cases hweb : isWeb lib dp
      · rw [List.filter_cons_of_neg (by simp [hweb])] at hmem
        simp only [hweb, ih hmem, Bool.false_eq_true, if_false]
      · rw [List.filter_cons_of_pos hweb, List.forall_mem_cons] at hmem
        simp only [hweb, if_true, Bool.false_eq_true, if_false, addCRL_of_mem hs hmem.1, ih hmem.2]
    · rfl

/-- A run of `Accumulate` calls changes nothing once the slice holds every point it would add. -/
theorem foldl_accumulate_of_mem (lib : UrlLib) {m : Metadata} (hs : StrictlySorted m.crls)
    (certs : List Certificate)
    (hmem : ∀ c ∈ certs, ∀ u ∈ (c.crlDistributionPoints.takeWhile fun dp => !isLdap lib dp
      ).filter (isWeb lib), u ∈ m.crls) :
    certs.foldl (accumulate lib) m = m := by
  induction certs with
  | nil => rfl
  | cons c certs ih =>
    rw [List.foldl_cons, accumulate, accumulateLoop_of_mem lib hs _ (hmem c (List.mem_cons_self c certs))]
    exact ih fun c' hc' => hmem c' (List.mem_cons_of_mem c hc')

/-- Accumulating the same certificates a second time changes nothing. -/
theorem foldl_accumulate_idem (lib : UrlLib) {m : Metadata} (hs : StrictlySorted m.crls)
    (certs : List Certificate) :
    certs.foldl (accumulate lib) (certs.foldl (accumulate lib) m) =
      certs.foldl (accumulate lib) m :=
  foldl_accumulate_of_mem lib (sorted_foldl_accumulate lib hs certs) certs
    fun c hc u hu => (mem_foldl_accumulate lib hs certs u).2 (.inr ⟨c, hc, hu⟩)

/-- A `url.Parse` that reads the scheme as the text before the first `:`, which is what Go's
    `getScheme` does for the points of spec E3. -/
def schemePrefixLib : UrlLib := ⟨id, fun s => some ⟨s.takeWhile (· != colon), s⟩⟩

theorem accumulate_run_e3 :
    let c : Certificate := ⟨Time.zero,
      [ascii "http://a/crl", ascii "ldap://b", ascii "https://c/crl", ascii "http://a/crl"],
      ascii "CN=E3"⟩
    StrictlySorted newIssuerMetadata.crls ∧
      StrictlySorted ([c].foldl (accumulate schemePrefixLib) newIssuerMetadata).crls ∧
      ∀ u, u ∈ ([c].foldl (accumulate schemePrefixLib) newIssuerMetadata).crls ↔
        u ∈ newIssuerMetadata.crls ∨ ∃ c' ∈ [c], u ∈ (c'.crlDistributionPoints.takeWhile
          fun dp => !isLdap schemePrefixLib dp).filter (isWeb schemePrefixLib) := by
  intro c
  exact ⟨List.sorted_nil, accumulate_run schemePrefixLib List.sorted_nil [c]⟩

/-- Spec E3 on this revision: the `ldap` point returns from the loop, so `https://c/crl`, which
    follows it, is never recorded. Only the schemes `url.Parse` reads in the first two points
    matter. -/
theorem accumulate_stops_at_ldap (lib : UrlLib) (c : Certificate)
    (hdps : c.crlDistributionPoints =
      [ascii "http://a/crl", ascii "ldap://b", ascii "https://c/crl", ascii "http://a/crl"])
    (hhttp : (lib.parse (ascii "http://a/crl")).map URL.scheme = some (ascii "http"))
    (hldap : (lib.parse (ascii "ldap://b")).map URL.scheme = some (ascii "ldap")) :
    (accumulate lib newIssuerMetadata c).crls = [ascii "http://a/crl"] := by
  obtain ⟨u₁, hp₁, hs₁⟩ := Option.map_eq_some'.1 hhttp
  obtain ⟨u₂, hp₂, hs₂⟩ := Option.map_eq_some'.1 hldap
  have hweb₁ : isWeb lib (ascii "http://a/crl") = true := by simp [isWeb, hp₁, hs₁]
  have hldap₁ : isLdap lib (ascii "http://a/crl") = false := by
    simp only [isLdap, hp₁, hs₁]
    decide
  have hldap₂ : isLdap lib (ascii "ldap://b") = true := by simp [isLdap, hp₂, hs₂]
  simp only [accumulate, hdps, accumulateLoop_cons, hweb₁, hldap₁, hldap₂]
  rfl

theorem accumulate_stops_at_ldap_e3 :
    let c : Certificate := ⟨Time.zero,
      [ascii "http://a/crl", ascii "ldap://b", ascii "https://c/crl", ascii "http://a/crl"],
      ascii "CN=E3"⟩
    c.crlDistributionPoints =
        [ascii "http://a/crl", ascii "ldap://b", ascii "https://c/crl", ascii "http://a/crl"] ∧
      (schemePrefixLib.parse (ascii "http://a/crl")).map URL.scheme = some (ascii "http") ∧
      (schemePrefixLib.parse (ascii "ldap://b")).map URL.scheme = some (ascii "ldap") ∧
      (accumulate schemePrefixLib newIssuerMetadata c).crls = [ascii "http://a/crl"] := by
  intro c
  exact ⟨rfl, by decide, by decide,
    accumulate_stops_at_ldap schemePrefixLib c rfl (by decide) (by decide)⟩

end CtMapReduce.Storage.FileIssuerMetadata
