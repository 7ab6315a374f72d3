import CtMapReduce.Storage.RemoteCache

/-!
# `MockRemoteCache`

The in-process stand-in for Redis (`part_006:13-142`): `Data` maps each key to a slice kept
sorted by `SetInsert`'s binary-search insert, and `Expirations` maps keys to expiry instants
that `CleanupExpiry` enforces. `CleanupExpiry` is called by `SetRemove`, `SetContains`,
`SetList` and `Exists`, and not by `SetInsert`, `ExpireAt` or `Keys`. Calls that read the
clock take its reading `now`.

Without expirations the mock refines the abstract cache of `Storage/RemoteCache.lean`:
`setInsert_refines` and its siblings are the step lemmas, under the invariant `Inv` (every
slice strictly increasing, every present key non-empty), and `runCalls_abs` carries them
over a whole sequence of calls.
-/

namespace CtMapReduce.Storage
open CtMapReduce.Go

/-- `type MockRemoteCache struct` (`part_006:13-16`). -/
structure MockRemoteCache where
  data : GoMap (List Bytes)
  expirations : GoMap Time

namespace MockRemoteCache

/-- `NewMockRemoteCache` (`part_006:18-23`). -/
def new : MockRemoteCache := ⟨∅, ∅⟩

/-- `CleanupExpiry` (`part_006:25-33`): every key whose expiry is before `now` is deleted from
    both maps. -/
def cleanupExpiry (now : Time) (ec : MockRemoteCache) : MockRemoteCache :=
  ec.expirations.entries.foldl
    (fun ec e => if e.2.before now then ⟨ec.data.erase e.1, ec.expirations.erase e.1⟩ else ec) ec

/-- The search shared by `SetInsert`, `SetRemove` and `SetContains`: the lower bound `idx` of
    `entry` in `Data[key]`, and the test `idx < count && strings.Compare(entry, l[idx]) == 0`. -/
def locate (ec : MockRemoteCache) (key entry : Bytes) : Nat × Bool :=
  let l := ec.data.getD key []
  (lowerBound l entry,
    decide (lowerBound l entry < l.length ∧ stringsCompare entry (l.getD (lowerBound l entry) []) = 0))

/-- `SetInsert` (`part_006:35-58`). -/
def setInsert (ec : MockRemoteCache) (key entry : Bytes) : Bool × MockRemoteCache :=
  if (ec.locate key entry).2 then (false, ec)
  else (true, { ec with
    data := (ec.data.insert key (insertAt (ec.data.getD key []) (ec.locate key entry).1 entry)) })

/-- `SetRemove` (`part_006:60-79`): on a hit it stores back `append(l[:idx], l[idx:]...)`. -/
def setRemove (now : Time) (ec : MockRemoteCache) (key entry : Bytes) : Bool × MockRemoteCache :=
  let ec := ec.cleanupExpiry now
  let l := ec.data.getD key []
  if (ec.locate key entry).2 then
    (true, { ec with data := (ec.data.insert key (l.take (ec.locate key entry).1 ++
      l.drop (ec.locate key entry).1)) })
  else (false, ec)

/-- `SetContains` (`part_006:81-99`). -/
def setContains (now : Time) (ec : MockRemoteCache) (key entry : Bytes) :
    Bool × MockRemoteCache :=
  ((ec.cleanupExpiry now).locate key entry |>.2, ec.cleanupExpiry now)

/-- `SetList` (`part_006:101-104`). -/
def setList (now : Time) (ec : MockRemoteCache) (key : Bytes) : List Bytes × MockRemoteCache :=
  ((ec.cleanupExpiry now).data.getD key [], ec.cleanupExpiry now)

/-- `Exists` (`part_006:106-110`). -/
def exists_ (now : Time) (ec : MockRemoteCache) (key : Bytes) : Bool × MockRemoteCache :=
  (decide (key ∈ (ec.cleanupExpiry now).data), ec.cleanupExpiry now)

/-- `ExpireAt` (`part_006:112-115`). -/
def expireAt (ec : MockRemoteCache) (key : Bytes) (expTime : Time) : MockRemoteCache :=
  { ec with expirations := ec.expirations.insert key expTime }

/-- The loop of `Keys` over the keys of `Data`; `filepathMatch` is `filepath.Match`, `none` for
    its `ErrBadPattern`. -/
def keysLoop (filepathMatch : Bytes → Bytes → Option Bool) (pattern : Bytes) :
    List Bytes → List Bytes → Option (List Bytes)
  | [], found => some found
  | key :: keys, found =>
    match filepathMatch pattern key with
    | none => none
    | some true => keysLoop filepathMatch pattern keys (found ++ [key])
    | some false => keysLoop filepathMatch pattern keys found

/-- `Keys` (`part_006:129-142`). -/
def keys (filepathMatch : Bytes → Bytes → Option Bool) (rc : MockRemoteCache)
    (pattern : Bytes) : Option (List Bytes) :=
  keysLoop filepathMatch pattern rc.data.keys []

/-- The remote-cache calls on the mock: `SortedInsert` is `SetInsert`, and so on. -/
def call (ec : MockRemoteCache) : RemoteCache.Call → RemoteCache.Reply × MockRemoteCache
  | .sortedInsert k e => (.bool (ec.setInsert k e).1, (ec.setInsert k e).2)
  | .sortedContains now k e => (.bool (ec.setContains now k e).1, (ec.setContains now k e).2)
  | .sortedList now k => (.list (ec.setList now k).1, (ec.setList now k).2)
  | .exists_ now k => (.bool (ec.exists_ now k).1, (ec.exists_ now k).2)

/-- The mock after a sequence of calls. -/
def runCalls (ec : MockRemoteCache) (calls : List RemoteCache.Call) : MockRemoteCache :=
  calls.foldl (fun ec x => (ec.call x).2) ec

/-! ## Refinement of the abstract cache -/

/-- The abstract cache the mock stands for: the members of each slice. -/
def abs (ec : MockRemoteCache) : RemoteCache := ⟨fun k => (ec.data.getD k []).toFinset⟩

/-- The invariant of a mock without expirations. -/
structure Inv (ec : MockRemoteCache) : Prop where
  noExpirations : ec.expirations.entries = []
  sorted : ∀ k, StrictlySorted (ec.data.getD k [])
  nonempty : ∀ k ∈ ec.data, ec.data.getD k [] ≠ []

theorem inv_new : Inv new := ⟨rfl, fun k => by simp [new, GoMap.getD], by simp [new]⟩

@[simp] theorem abs_sets (ec : MockRemoteCache) (k : Bytes) :
    (abs ec).sets k = (ec.data.getD k []).toFinset := rfl

theorem cleanupExpiry_of_noExpirations {ec : MockRemoteCache} (h : ec.expirations.entries = [])
    (now : Time) : ec.cleanupExpiry now = ec := by
  simp [cleanupExpiry, h]

@[simp] theorem locate_fst (ec : MockRemoteCache) (key entry : Bytes) :
    (ec.locate key entry).1 = lowerBound (ec.data.getD key []) entry := rfl

/-- On a sorted slice the search finds exactly the members. -/
theorem locate_snd {ec : MockRemoteCache} {key entry : Bytes}
    (hs : StrictlySorted (ec.data.getD key [])) :
    (ec.locate key entry).2 = decide (entry ∈ ec.data.getD key []) := by
  simp only [locate, lowerBound_found_iff hs]

/-- `SetInsert` of a present entry answers `false` and changes nothing. -/
theorem setInsert_of_mem {ec : MockRemoteCache} {key entry : Bytes}
    (hs : StrictlySorted (ec.data.getD key [])) (hmem : entry ∈ ec.data.getD key []) :
    ec.setInsert key entry = (false, ec) := by
  simp [setInsert, locate_snd hs, hmem]

/-- `SetInsert` of an absent entry answers `true` and inserts it at its lower bound. -/
theorem setInsert_of_not_mem {ec : MockRemoteCache} {key entry : Bytes}
    (hs : StrictlySorted (ec.data.getD key [])) (hmem : entry ∉ ec.data.getD key []) :
    ec.setInsert key entry = (true, { ec with data := (ec.data.insert key
      (insertAt (ec.data.getD key []) (lowerBound (ec.data.getD key []) entry) entry)) }) := by
  simp [setInsert, locate_snd hs, hmem]

/-- `SetInsert` answers and updates as `SortedInsert` does on the abstract cache. -/
theorem setInsert_refines {ec : MockRemoteCache} (hi : Inv ec) (key entry : Bytes) :
    (ec.setInsert key entry).1 = ((abs ec).sortedInsert key entry).1 ∧
      abs (ec.setInsert key entry).2 = ((abs ec).sortedInsert key entry).2 ∧
      Inv (ec.setInsert key entry).2 := by
  by_cases hmem : entry ∈ ec.data.getD key []
  · rw [setInsert_of_mem (hi.sorted key) hmem,
      RemoteCache.sortedInsert_of_mem (by simpa using hmem)]
    exact ⟨rfl, rfl, hi⟩
  · rw [setInsert_of_not_mem (hi.sorted key) hmem]
    refine ⟨by simp [hmem], ?_, ⟨hi.noExpirations, fun k => ?_, fun k hk => ?_⟩⟩
    · ext k x
      by_cases hk : k = key
      · subst hk; simp
      · simp [hk, GoMap.getD_insert_ne _ _ _ hk]
    · by_cases hk : k = key
      · subst hk
        simpa using insertAt_sorted (hi.sorted k) hmem
      · simpa [GoMap.getD_insert_ne _ _ _ hk] using hi.sorted k
    · by_cases hk' : k = key
      · subst hk'; simp [insertAt]
      · rw [GoMap.getD_insert_ne _ _ _ hk']
        exact hi.nonempty k (by simpa [hk'] using hk)

/-- Every call of the mock answers as the abstract cache does, and keeps `Inv`. -/
theorem call_refines {ec : MockRemoteCache} (hi : Inv ec) (x : RemoteCache.Call) :
    (ec.call x).1 = ((abs ec).call x).1 ∧ abs (ec.call x).2 = ((abs ec).call x).2 ∧
      Inv (ec.call x).2 := by
  have hc := cleanupExpiry_of_noExpirations hi.noExpirations
  cases x with
  | sortedInsert k e =>
    obtain ⟨h1, h2, h3⟩ := setInsert_refines hi k e
    exact ⟨by simp [call, RemoteCache.call, h1], h2, h3⟩
  | sortedContains now k e =>
    refine ⟨?_, by simp [call, setContains, hc, RemoteCache.call],
      by simpa [call, setContains, hc]⟩
    simp [call, setContains, hc, RemoteCache.call, RemoteCache.sortedContains,
      locate_snd (hi.sorted k)]
  | sortedList now k =>
    refine ⟨?_, by simp [call, setList, hc, RemoteCache.call], by simpa [call, setList, hc]⟩
    simp only [call, setList, hc, RemoteCache.call, RemoteCache.sortedList, abs_sets]
    rw [(List.toFinset_sort _ (hi.sorted k).nodup).mpr (hi.sorted k).le_of_lt]
  | exists_ now k =>
    refine ⟨?_, by simp [call, exists_, hc, RemoteCache.call], by simpa [call, exists_, hc]⟩
    simp only [call, exists_, hc, RemoteCache.call, RemoteCache.exists_, abs_sets,
      List.toFinset_nonempty_iff, RemoteCache.Reply.bool.injEq]
    by_cases hk : k ∈ ec.data
    · simp [hk, hi.nonempty k hk]
    · simp [hk, GoMap.getD, AList.lookup_eq_none.mpr hk]

/-- Over every sequence of calls without expirations, the mock stays an `Inv` mock that stands
    for the abstract cache run on the same calls. -/
theorem runCalls_abs (calls : List RemoteCache.Call) :
    ∀ ec, Inv ec →
      Inv (ec.runCalls calls) ∧ abs (ec.runCalls calls) = (abs ec).runCalls calls := by
  induction calls with
  | nil => exact fun ec hi => ⟨hi, rfl⟩
  | cons x calls ih =>
    intro ec hi
    obtain ⟨-, habs, hinv⟩ := call_refines hi x
    obtain ⟨h1, h2⟩ := ih _ hinv
    exact ⟨h1, by rw [runCalls, List.foldl_cons, ← runCalls, h2, habs]; rfl⟩

theorem abs_new : abs new = RemoteCache.empty := by
  ext k x
  simp [new, GoMap.getD, RemoteCache.empty]

/-- After any sequence of `SetInsert`, `SetContains`, `SetList` and `Exists` calls on a new
    mock, with any clock readings and no expiry set, every slice is strictly increasing and the
    next call answers as the abstract cache run on the same calls: `SetInsert` is true iff the
    entry was absent, `SetContains` is membership, `SetList` the members in ascending byte order,
    and `Exists` is true iff an insert on the key occurred. -/
theorem refines_remoteCache (calls : List RemoteCache.Call) (x : RemoteCache.Call) :
    (∀ k, StrictlySorted ((new.runCalls calls).data.getD k [])) ∧
      ((new.runCalls calls).call x).1 = ((RemoteCache.empty.runCalls calls).call x).1 ∧
      ∀ k, (RemoteCache.empty.runCalls calls).exists_ k = true ↔
        ∃ e, RemoteCache.Call.sortedInsert k e ∈ calls := by
  obtain ⟨hinv, habs⟩ := runCalls_abs calls new inv_new
  rw [abs_new] at habs
  refine ⟨hinv.sorted, ?_, fun k => RemoteCache.exists_runCalls_empty calls k⟩
  rw [(call_refines hinv x).1, habs]

/-! ## Expiry -/

/-- The keys `CleanupExpiry` deletes: those whose expiry instant is before `now`. -/
theorem foldl_cleanup_lookup (now : Time) (k : Bytes) :
    ∀ (entries : List (Σ _ : Bytes, Time)) (ec : MockRemoteCache),
      (entries.foldl (fun ec e => if e.2.before now then
          (⟨ec.data.erase e.1, ec.expirations.erase e.1⟩ : MockRemoteCache) else ec)
        ec).data.lookup k =
        if entries.any (fun e => e.1 = k && e.2.before now) then none else ec.data.lookup k
  | [], ec => by simp
  | ⟨k', t'⟩ :: entries, ec => by
    rw [List.foldl_cons, foldl_cleanup_lookup now k entries, List.any_cons]
    by_cases hb : t'.before now = true
    · by_cases hk : k' = k
      · subst hk; simp [hb]
      · simp only [hb, if_true, Bool.and_true, decide_eq_false hk, Bool.false_or,
          AList.lookup_erase_ne (Ne.symm hk)]
    · simp only [hb, Bool.false_eq_true, if_false, Bool.and_false, Bool.false_or]

/-- After `CleanupExpiry`, a key is gone exactly when its expiry instant is before `now`. -/
theorem cleanupExpiry_lookup (now : Time) (ec : MockRemoteCache) (k : Bytes) :
    (ec.cleanupExpiry now).data.lookup k =
      if (ec.expirations.lookup k).any (·.before now) then none else ec.data.lookup k := by
  rw [cleanupExpiry, foldl_cleanup_lookup]
  congr 1
  apply propext
  rw [List.any_eq_true]
  constructor
  · rintro ⟨⟨k', t⟩, hmem, h⟩
    simp only [Bool.and_eq_true, decide_eq_true_eq] at h
    obtain ⟨rfl, hb⟩ := h
    rw [(AList.mem_lookup_iff.mpr hmem : ec.expirations.lookup k' = some t)]
    exact hb
  · intro h
    cases hl : ec.expirations.lookup k with
    | none => simp [hl] at h
    | some t =>
      simp only [hl, Option.any_some] at h
      exact ⟨⟨k, t⟩, AList.mem_lookup_iff.mp hl, by simp [h]⟩

/-- The calls that run `CleanupExpiry` see a key whose expiry has passed as absent. -/
theorem exists_of_expired {ec : MockRemoteCache} {k : Bytes} {t now : Time}
    (ht : ec.expirations.lookup k = some t) (hb : t.before now = true) :
    (ec.exists_ now k).1 = false ∧ (ec.setList now k).1 = [] := by
  have h : (ec.cleanupExpiry now).data.lookup k = none := by
    rw [cleanupExpiry_lookup, ht]; simp [hb]
  simp [exists_, setList, GoMap.getD, h, ← AList.lookup_eq_none]

/-- `SetInsert` does not run `CleanupExpiry`: after the expiry of a key has passed it still
    answers `false` for an entry inserted before, and a later `SetList` lets the old expiry
    delete an entry inserted after it. -/
theorem setInsert_ignores_expiry :
    let k : Bytes := ascii "serials::2020-01-01::I"
    let ec := (new.setInsert k (ascii "AQ==")).2.expireAt k ⟨5, 0, .utc⟩
    Time.before ⟨5, 0, .utc⟩ ⟨10, 0, .utc⟩ = true ∧
      (ec.setInsert k (ascii "AQ==")).1 = false ∧
      (ec.setInsert k (ascii "Ag==")).1 = true ∧
      ((ec.setInsert k (ascii "Ag==")).2.setList ⟨10, 0, .utc⟩ k).1 = [] := by
  decide

/-! ## `SetRemove` -/

/-- `SetRemove` on a mock without expirations answers whether the entry is present, and on a
    hit stores back `append(l[:idx], l[idx:]...)`, which is `l` itself: no slice changes. -/
theorem setRemove_spec {ec : MockRemoteCache} {key : Bytes} (hx : ec.expirations.entries = [])
    (hs : StrictlySorted (ec.data.getD key [])) (now : Time) (entry : Bytes) :
    (ec.setRemove now key entry).1 = decide (entry ∈ ec.data.getD key []) ∧
      (ec.setRemove now key entry).2.expirations = ec.expirations ∧
      ∀ k, (ec.setRemove now key entry).2.data.getD k [] = ec.data.getD k [] := by
  simp only [setRemove, cleanupExpiry_of_noExpirations hx, locate_snd hs, List.take_append_drop]
  split_ifs with hhit
  · refine ⟨by simpa using hhit, rfl, fun k => ?_⟩
    by_cases hk : k = key
    · subst hk; simp
    · exact GoMap.getD_insert_ne _ _ _ hk
  · simpa using hhit

/-- `SetRemove` of a present entry answers `true`, yet the entry is still listed by `SetList`
    and still found by `SetContains` afterwards, at any clock reading. -/
theorem setRemove_keeps_entry {ec : MockRemoteCache} {key entry : Bytes}
    (hx : ec.expirations.entries = []) (hs : StrictlySorted (ec.data.getD key []))
    (hmem : entry ∈ ec.data.getD key []) (now now' : Time) :
    (ec.setRemove now key entry).1 = true ∧
      entry ∈ ((ec.setRemove now key entry).2.setList now' key).1 ∧
      ((ec.setRemove now key entry).2.setContains now' key entry).1 = true := by
  obtain ⟨hr, hexp, hdata⟩ := setRemove_spec hx hs now entry
  generalize ec.setRemove now key entry = r at hr hexp hdata
  have hc : r.2.cleanupExpiry now' = r.2 := cleanupExpiry_of_noExpirations (hexp ▸ hx) now'
  have hs' : StrictlySorted (r.2.data.getD key []) := hdata key ▸ hs
  refine ⟨by simpa [hmem] using hr, ?_, ?_⟩
  · simpa [setList, hc, hdata] using hmem
  · simpa [setContains, hc, locate_snd hs', hdata] using hmem

theorem setRemove_keeps_entry_afterInsert :
    let k : Bytes := ascii "serials::2020-01-01::I"
    let ec := (new.setInsert k (ascii "AQ==")).2
    ec.expirations.entries = [] ∧ StrictlySorted (ec.data.getD k []) ∧
      ascii "AQ==" ∈ ec.data.getD k [] ∧
      (ec.setRemove Time.zero k (ascii "AQ==")).1 = true ∧
      ascii "AQ==" ∈ ((ec.setRemove Time.zero k (ascii "AQ==")).2.setList Time.zero k).1 ∧
      ((ec.setRemove Time.zero k (ascii "AQ==")).2.setContains Time.zero k
        (ascii "AQ==")).1 = true := by
  intro k ec
  have hx : ec.expirations.entries = [] := rfl
  have hl : ec.data.getD k [] = [ascii "AQ=="] := by decide
  have hs : StrictlySorted (ec.data.getD k []) := hl ▸ List.sorted_singleton _
  have hmem : ascii "AQ==" ∈ ec.data.getD k [] := hl ▸ List.mem_singleton_self _
  exact ⟨hx, hs, hmem, setRemove_keeps_entry hx hs hmem Time.zero Time.zero⟩

end MockRemoteCache

end CtMapReduce.Storage
