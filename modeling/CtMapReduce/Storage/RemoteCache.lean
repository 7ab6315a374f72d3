import CtMapReduce.Storage.Types
import Mathlib.Data.Finset.Sort

/-!
# The remote cache

The `RemoteCache` interface (`types.go:114-120`) as the core relies on it (spec §4.1):
each key holds a set of members, `SortedInsert` adds one and says whether it was new,
`SortedContains` tests membership, `SortedList` enumerates in byte order and `Exists`
holds once a member was inserted. In production this is Redis (`ZADD`, `ZSCORE`, `ZRANGE`,
`EXISTS`), where a sorted set with members all of score 0 is ordered by the bytes of the
members and a key exists exactly while its set is non-empty. `RedisCache` and
`MockRemoteCache` both implement it; `MockRemoteCache` is shown to refine it in
`Storage/MockRemoteCache.lean`. This is the cache the interleavings of `Store` run against.
-/

namespace CtMapReduce.Storage
open CtMapReduce.Go

/-- The abstract remote cache: the set of members under every key. -/
@[ext] structure RemoteCache where
  sets : Bytes → Finset Bytes

namespace RemoteCache

/-- The empty cache. -/
def empty : RemoteCache := ⟨fun _ => ∅⟩

/-- `SortedInsert(key, member)`: `true` iff the member was new; the member is then present. -/
def sortedInsert (c : RemoteCache) (key member : Bytes) : Bool × RemoteCache :=
  (decide (member ∉ c.sets key), ⟨Function.update c.sets key (insert member (c.sets key))⟩)

/-- `SortedContains(key, member)`. -/
def sortedContains (c : RemoteCache) (key member : Bytes) : Bool := decide (member ∈ c.sets key)

/-- `SortedList(key)`: the members in ascending byte order. -/
def sortedList (c : RemoteCache) (key : Bytes) : List Bytes := (c.sets key).sort (· ≤ ·)

/-- `Exists(key)`. -/
def exists_ (c : RemoteCache) (key : Bytes) : Bool := decide (c.sets key).Nonempty

/-- One cache holds every member the other holds: caches only grow under `SortedInsert`. -/
def Le (c d : RemoteCache) : Prop := ∀ k, c.sets k ⊆ d.sets k

@[simp] theorem sets_sortedInsert (c : RemoteCache) (key member k : Bytes) :
    (c.sortedInsert key member).2.sets k =
      if k = key then insert member (c.sets key) else c.sets k := by
  simp [sortedInsert, Function.update_apply]

@[simp] theorem sortedInsert_fst (c : RemoteCache) (key member : Bytes) :
    (c.sortedInsert key member).1 = decide (member ∉ c.sets key) := rfl

theorem sortedInsert_of_mem {c : RemoteCache} {key member : Bytes} (h : member ∈ c.sets key) :
    c.sortedInsert key member = (false, c) := by
  ext k <;> simp [sortedInsert, h, Function.update_apply]

theorem mem_sortedInsert (c : RemoteCache) (key member : Bytes) :
    member ∈ (c.sortedInsert key member).2.sets key := by simp

theorem le_refl (c : RemoteCache) : c.Le c := fun _ => Finset.Subset.refl _

theorem le_trans {c d e : RemoteCache} (h₁ : c.Le d) (h₂ : d.Le e) : c.Le e :=
  fun k => (h₁ k).trans (h₂ k)

theorem le_sortedInsert (c : RemoteCache) (key member : Bytes) :
    c.Le (c.sortedInsert key member).2 := by
  intro k x hx
  rw [sets_sortedInsert]
  split
  · subst k; exact Finset.mem_insert_of_mem hx
  · exact hx

theorem exists_mono {c d : RemoteCache} (h : c.Le d) {key : Bytes} (hc : c.exists_ key = true) :
    d.exists_ key = true := by
  simp only [exists_, decide_eq_true_eq] at hc ⊢
  exact hc.mono (h key)

/-- A run of `SortedInsert`s on one key adds its members there and touches no other key. -/
theorem sets_foldl_sortedInsert (c : RemoteCache) (key : Bytes) (members : List Bytes)
    (k : Bytes) :
    (members.foldl (fun c m => (c.sortedInsert key m).2) c).sets k =
      if k = key then c.sets key ∪ members.toFinset else c.sets k := by
  induction members generalizing c with
  | nil => split_ifs with h <;> simp [h]
  | cons m members ih =>
    rw [List.foldl_cons, ih]
    split_ifs with h
    · simp [h, Finset.insert_union, Finset.union_insert]
    · simp [h]

/-- A call on the remote cache, with the clock reading of the calls that read the clock in
    `MockRemoteCache`. -/
inductive Call where
  | sortedInsert (key member : Bytes)
  | sortedContains (now : Time) (key member : Bytes)
  | sortedList (now : Time) (key : Bytes)
  | exists_ (now : Time) (key : Bytes)

/-- What a call returns. -/
inductive Reply where
  | bool (b : Bool)
  | list (l : List Bytes)
  deriving DecidableEq

/-- One call on the abstract cache: its reply and the cache after it. -/
def call (c : RemoteCache) : Call → Reply × RemoteCache
  | .sortedInsert k m => (.bool (c.sortedInsert k m).1, (c.sortedInsert k m).2)
  | .sortedContains _ k m => (.bool (c.sortedContains k m), c)
  | .sortedList _ k => (.list (c.sortedList k), c)
  | .exists_ _ k => (.bool (c.exists_ k), c)

/-- The cache after a sequence of calls. -/
def runCalls (c : RemoteCache) (calls : List Call) : RemoteCache :=
  calls.foldl (fun c x => (c.call x).2) c

/-- The member a call inserts under `key`, if it is an insert on `key`. -/
def Call.insertedUnder (key : Bytes) : Call → Option Bytes
  | .sortedInsert k m => if k = key then some m else none
  | _ => none

@[simp] theorem runCalls_cons (c : RemoteCache) (x : Call) (calls : List Call) :
    c.runCalls (x :: calls) = (c.call x).2.runCalls calls := rfl

/-- A sequence of calls adds to every key exactly the members inserted under it. -/
theorem runCalls_sets (c : RemoteCache) (calls : List Call) (key : Bytes) :
    (c.runCalls calls).sets key =
      c.sets key ∪ (calls.filterMap (Call.insertedUnder key)).toFinset := by
  induction calls generalizing c with
  | nil => simp [runCalls]
  | cons x calls ih =>
    rw [runCalls_cons, ih]
    cases x with
    | sortedInsert k m =>
      by_cases hk : k = key
      · subst hk
        simp only [call, sets_sortedInsert, if_true, Call.insertedUnder, List.filterMap_cons,
          List.toFinset_cons, Finset.insert_union, Finset.union_insert]
      · simp [call, Call.insertedUnder, hk, Ne.symm hk]
    | _ => simp [call, Call.insertedUnder]

/-- From the empty cache, a key holds exactly the members inserted under it. -/
theorem runCalls_empty_sets (calls : List Call) (key : Bytes) :
    (empty.runCalls calls).sets key = (calls.filterMap (Call.insertedUnder key)).toFinset := by
  simp [runCalls_sets, empty]

/-- `Exists(key)` after a sequence of calls from the empty cache holds iff one of them inserted
    under `key`. -/
theorem exists_runCalls_empty (calls : List Call) (key : Bytes) :
    (empty.runCalls calls).exists_ key = true ↔ ∃ m, Call.sortedInsert key m ∈ calls := by
  simp only [exists_, decide_eq_true_eq, runCalls_empty_sets, List.toFinset_nonempty_iff,
    ne_eq, List.filterMap_eq_nil_iff, not_forall, Call.insertedUnder]
  constructor
  · rintro ⟨x, hx, h⟩
    cases x <;> simp at h
    rename_i k m
    exact ⟨m, by simpa [h] using hx⟩
  · rintro ⟨m, hm⟩
    exact ⟨_, hm, by simp⟩

end RemoteCache

end CtMapReduce.Storage
