import CtMapReduce.Storage.DiskStore
import Mathlib.Data.Multiset.Nodup
import Mathlib.Tactic.Abel

/-!
# The shard files of `DiskDatabase.Store`, over every run

A serial reaches a shard file only through a call that found it unknown to the shard's cached
entry and inserted it; it is claimed from that `WasUnknown` until its block is written
(`World.claims`). In a run with no fault that loses state (`Action.isFaultFree`: no restart, no
failed `Save` or `Load`, no panic, no failed write), no serial is claimed twice in a shard and
every claimed serial is known there (`FaultFreeInv`). So a shard file holds each block written
to it whole and no serial twice (`shard_file_no_duplicate`), and `ReconstructIssuerMetadata`
rebuilds its metadata (`reconstruct_current`). An eviction between a call's `WasUnknown` and its
write loses the write but not the known serial; when no entry in use is evicted
(`World.safeRun`), a shard knows exactly the serials written or about to be
(`known_iff_written`), and a serial known but not written is never written later
(`known_unwritten_never_written`).
-/

namespace CtMapReduce.Storage.DiskStore
open CtMapReduce.Go FileIssuerMetadata

/-! ## Claims -/

section Invariants

variable (cfg : Config)

/-- The serial a thread has found unknown through the cached entry of its shard, and not yet
    written. -/
def Thread.claim (cache : GoMap Nat) (t : Thread) : Multiset (Bytes × Int) :=
  match t.pc with
  | .write _ id =>
    if cache.lookup (t.args.path cfg) = some id then {(t.args.path cfg, t.args.serial)} else 0
  | _ => 0

/-- The serials claimed in each shard: those written there, and those of the threads on their
    way to write them through an open entry. -/
def World.claims (w : World) : Multiset (Bytes × Int) :=
  ↑(w.writes.map fun x => (x.1, x.2.1.serial)) +
    (w.threads : Multiset Thread).bind (Thread.claim cfg w.cache)

/-- The invariants of a run with no fault that loses state. -/
structure FaultFreeInv (w : World) : Prop where
  /-- Every write wrote its whole block. -/
  whole : ∀ x ∈ w.writes, x.2.2 = x.2.1.block
  /-- A shard's metadata is the `Accumulate` of the certificates written to its file. -/
  meta_writes : ∀ p, (w.current p).meta =
    ((w.writtenAt p).map fun a => a.cert.parsed.cert).foldl (accumulate cfg.lib) newIssuerMetadata
  /-- No serial is claimed twice in a shard. -/
  claims_nodup : (w.claims cfg).Nodup
  /-- A claimed serial is known to its shard. -/
  claims_known : ∀ x ∈ w.claims cfg, x.2 ∈ (w.current x.1).known

/-- The invariants of a fault-free run in which the cache evicts no entry in use. -/
structure SafeInv (w : World) : Prop where
  /-- A thread past `cache.Get` holds the cached entry of its shard. -/
  held_cached : ∀ t ∈ w.threads, ∀ pass id, (t.pc = .wasUnknown pass id ∨ t.pc = .write pass id) →
    w.cache.lookup (t.args.path cfg) = some id
  /-- A shard knows only the serials claimed in it. -/
  known_claimed : ∀ p s, s ∈ (w.current p).known → (p, s) ∈ w.claims cfg

end Invariants

section Claims

open World

variable {cfg : Config} {w : World} {t : Thread}

theorem bind_erase {α : Type} (f : Thread → Multiset α) (ht : t ∈ w.threads) :
    (w.threads : Multiset Thread).bind f =
      f t + ((w.threads.erase t : List Thread) : Multiset Thread).bind f := by
  rw [← Multiset.cons_bind, ← Multiset.coe_erase, Multiset.cons_erase (Multiset.mem_coe.2 ht)]

theorem bind_moveTo {α : Type} (f : Thread → Multiset α) (ht : t ∈ w.threads) (pc : Pc) :
    ((w.moveTo t pc : List Thread) : Multiset Thread).bind f + f t =
      (w.threads : Multiset Thread).bind f + f ⟨t.args, pc⟩ := by
  simp only [World.moveTo, ← Multiset.coe_add, Multiset.add_bind, bind_erase f ht,
    Multiset.coe_singleton, Multiset.singleton_bind]
  abel

theorem claim_of_not_write {cache : GoMap Nat} (t' : Thread) (h : ∀ pass id, t'.pc ≠ .write pass id) :
    Thread.claim cfg cache t' = 0 := by
  unfold Thread.claim
  split
  · next heq => exact absurd heq (h _ _)
  · rfl

/-- A thread claims at most its own serial, in its own shard, at the entry it holds. -/
theorem mem_claim {cache : GoMap Nat} {t' : Thread} {x : Bytes × Int}
    (hx : x ∈ Thread.claim cfg cache t') :
    ∃ pass id, t'.pc = .write pass id ∧ cache.lookup x.1 = some id ∧
      x = (t'.args.path cfg, t'.args.serial) := by
  unfold Thread.claim at hx
  split at hx
  · next pass id heq =>
    split_ifs at hx with hc
    · obtain rfl := Multiset.mem_singleton.1 hx
      exact ⟨pass, id, heq, hc, rfl⟩
    · simp at hx
  · simp at hx

theorem claim_nodup {cache : GoMap Nat} (t' : Thread) : (Thread.claim cfg cache t').Nodup := by
  unfold Thread.claim
  split
  · split_ifs
    · exact Multiset.nodup_singleton _
    · exact Multiset.nodup_zero
  · exact Multiset.nodup_zero

/-- A thread claims no more through a cache that holds fewer entries. -/
theorem claim_mono {c c' : GoMap Nat} (h : ∀ q id, c'.lookup q = some id → c.lookup q = some id)
    (t' : Thread) : Thread.claim cfg c' t' ≤ Thread.claim cfg c t' := by
  unfold Thread.claim
  split
  · split_ifs with h₁ h₂
    · exact le_rfl
    · exact absurd (h _ _ h₁) h₂
    · exact Multiset.zero_le _
    · exact le_rfl
  · exact le_rfl

theorem bind_claim_mono {c c' : GoMap Nat}
    (h : ∀ q id, c'.lookup q = some id → c.lookup q = some id) (ts : List Thread) :
    (ts : Multiset Thread).bind (Thread.claim cfg c') ≤
      (ts : Multiset Thread).bind (Thread.claim cfg c) := by
  induction ts with
  | nil => simp
  | cons t' ts ih =>
    simp only [← Multiset.cons_coe, Multiset.cons_bind]
    exact add_le_add (claim_mono h t') ih

/-- A thread that ends takes its claim with it. -/
theorem claims_finish_le (ht : t ∈ w.threads) (r : Result) :
    (w.finish t r).claims cfg ≤ w.claims cfg := by
  simp only [World.claims, World.finish, bind_erase _ ht]
  exact add_le_add_left (Multiset.le_add_left _ _) _

/-- A thread that ends with no claim changes no claim. -/
theorem claims_finish (ht : t ∈ w.threads) (h : ∀ pass id, t.pc ≠ .write pass id) (r : Result) :
    (w.finish t r).claims cfg = w.claims cfg := by
  simp only [World.claims, World.finish, bind_erase _ ht, claim_of_not_write t h, zero_add]

theorem claims_start (a : StoreArgs) : (w.act cfg (.start a)).claims cfg = w.claims cfg := by
  simp [World.act, World.claims, ← Multiset.coe_add, Multiset.add_bind, Thread.claim]

/-- A thread moving on trades its claim for the claim of its next step. -/
theorem claims_moveTo (w' : World) (ht : t ∈ w.threads) (pc : Pc)
    (hthreads : w'.threads = w.moveTo t pc) (hcache : w'.cache = w.cache)
    (hwrites : w'.writes = w.writes) :
    w'.claims cfg + Thread.claim cfg w.cache t =
      w.claims cfg + Thread.claim cfg w.cache ⟨t.args, pc⟩ := by
  simp only [World.claims, hthreads, hcache, hwrites, add_assoc, bind_moveTo _ ht]

end Claims

/-! ## Fault-free runs keep `FaultFreeInv` -/

section FaultFree

open World

variable {cfg : Config} {w : World} {t : Thread}

theorem faultFreeInv_init : FaultFreeInv cfg World.init where
  whole _ hx := by simp [World.init] at hx
  meta_writes _ := rfl
  claims_nodup := by simp [World.claims, World.init]
  claims_known _ hx := by simp [World.claims, World.init] at hx

/-- A step that leaves the shards, the writes and the cache as they were, and claims no more. -/
theorem FaultFreeInv.of_claims_le {w' : World} (hf : FaultFreeInv cfg w)
    (hcur : w'.current = w.current) (hwrites : w'.writes = w.writes)
    (hle : w'.claims cfg ≤ w.claims cfg) : FaultFreeInv cfg w' where
  whole := hwrites ▸ hf.whole
  meta_writes p := by rw [hcur, World.writtenAt, hwrites]; exact hf.meta_writes p
  claims_nodup := Multiset.nodup_of_le hle hf.claims_nodup
  claims_known x hx := hcur ▸ hf.claims_known x (Multiset.mem_of_le hle hx)

theorem FaultFreeInv.finish (hf : FaultFreeInv cfg w) (ht : t ∈ w.threads) (r : Result) :
    FaultFreeInv cfg (w.finish t r) :=
  hf.of_claims_le rfl rfl (claims_finish_le ht r)

theorem FaultFreeInv.start (hf : FaultFreeInv cfg w) (a : StoreArgs) :
    FaultFreeInv cfg (w.act cfg (.start a)) :=
  hf.of_claims_le rfl rfl (le_of_eq (claims_start a))

/-- A thread moving between steps that claim nothing changes no claim. -/
theorem FaultFreeInv.moveTo (hf : FaultFreeInv cfg w) (ht : t ∈ w.threads) {pc : Pc}
    (h₀ : ∀ pass id, t.pc ≠ .write pass id) (h₁ : ∀ pass id, pc ≠ .write pass id) :
    FaultFreeInv cfg { w with threads := w.moveTo t pc } := by
  refine hf.of_claims_le rfl rfl (le_of_eq ?_)
  have h : _ + Thread.claim cfg w.cache t = _ :=
    claims_moveTo { w with threads := w.moveTo t pc } ht pc rfl rfl rfl
  rwa [claim_of_not_write t h₀, claim_of_not_write ⟨t.args, pc⟩ h₁, add_zero, add_zero] at h

/-- `cache.Get` changes no claim: no thread holds a new entry yet. -/
theorem claims_get (hi : Inv cfg w) (ht : t ∈ w.threads) {pass : Nat} (hpc : t.pc = .get pass) :
    (w.get cfg t pass .ok).claims cfg = w.claims cfg := by
  have h₀ : ∀ pass' id, t.pc ≠ .write pass' id := by simp [hpc]
  rcases hc : w.cache.lookup (t.args.path cfg) with _ | id
  · rw [get_load hc]
    set p := t.args.path cfg
    have hclaim : ∀ t' ∈ w.threads, Thread.claim cfg (w.cache.insert p w.objs.length) t' =
        Thread.claim cfg w.cache t' := by
      intro t' ht'
      unfold Thread.claim
      split
      · next pass' id heq =>
        obtain ⟨c, hc'⟩ := hi.thread_obj t' ht' pass' id (.inr heq)
        obtain ⟨o, ho, -⟩ := Option.map_eq_some'.1 hc'
        by_cases hq : t'.args.path cfg = p
        · rw [hq, AList.lookup_insert, hc]
          simp [Nat.ne_of_gt (lt_of_getElem?_eq_some ho)]
        · rw [AList.lookup_insert_ne hq]
      · rfl
    have h : _ + Thread.claim cfg w.cache t = _ := claims_moveTo
      { w with threads := w.moveTo t (.wasUnknown pass w.objs.length) } ht _ rfl rfl rfl
    rw [claim_of_not_write t h₀, claim_of_not_write ⟨t.args, _⟩ (by simp), add_zero,
      add_zero] at h
    rw [← h]
    simp only [World.claims]
    congr 1
    refine Multiset.bind_congr fun t' ht' => ?_
    rcases World.mem_moveTo.1 (Multiset.mem_coe.1 ht') with ht' | rfl
    · exact hclaim t' (List.mem_of_mem_erase ht')
    · rfl
  · rw [get_hit hc]
    have h : _ + Thread.claim cfg w.cache t = _ := claims_moveTo
      { w with threads := w.moveTo t (.wasUnknown pass id) } ht _ rfl rfl rfl
    rwa [claim_of_not_write t h₀, claim_of_not_write ⟨t.args, _⟩ (by simp), add_zero,
      add_zero] at h

theorem FaultFreeInv.get (hi : Inv cfg w) (hf : FaultFreeInv cfg w) (ht : t ∈ w.threads)
    {pass : Nat} (hpc : t.pc = .get pass) : FaultFreeInv cfg (w.get cfg t pass .ok) :=
  hf.of_claims_le (current_get hi pass) (writes_get pass .ok) (le_of_eq (claims_get hi ht hpc))

theorem FaultFreeInv.wasUnknownStep (hf : FaultFreeInv cfg w)
    (ht : t ∈ w.threads) {pass id : Nat} (hpc : t.pc = .wasUnknown pass id) (o : Outcome) :
    FaultFreeInv cfg (w.wasUnknownStep t pass id o) := by
  suffices hok : FaultFreeInv cfg (w.wasUnknownStep t pass id .ok) by
    cases o with
    | fail n => exact hf.finish ht .error
    | _ => exact hok
  rcases hobj : w.objs[id]? with _ | obj
  · simpa only [World.wasUnknownStep, hobj] using hf
  rw [wasUnknownStep_ok hobj]
  set r := wasUnknown obj.entry.known t.args.serial with hr
  set pc : Pc := if r.1 then .write pass id else .markDirty
  have hcur := current_set { w with
    objs := w.objs.set id ⟨obj.path, ⟨r.2, obj.entry.meta⟩, obj.closed⟩
    threads := w.moveTo t pc } hobj rfl rfl rfl
  -- the entry at `id` is the shard's when cached, so the shard's serials only grow
  have hentry : ∀ q, w.cache.lookup q = some id → w.current q = obj.entry :=
    fun q hq => current_of_lookup hq hobj
  have hclaims : _ + Thread.claim cfg w.cache t = _ := claims_moveTo
    { w with objs := w.objs.set id ⟨obj.path, ⟨r.2, obj.entry.meta⟩, obj.closed⟩
             threads := w.moveTo t pc } ht pc rfl rfl rfl
  rw [claim_of_not_write t (by simp [hpc]), add_zero] at hclaims
  -- a new claim is the thread's serial, found unknown through the cached entry at `id`
  have hnew : ∀ x ∈ Thread.claim cfg w.cache ⟨t.args, pc⟩, r.1 = true ∧
      w.cache.lookup x.1 = some id ∧ x = (t.args.path cfg, t.args.serial) := by
    intro x hx
    obtain ⟨pass', id', hpc', hc, rfl⟩ := mem_claim hx
    simp only [pc] at hpc'
    split_ifs at hpc' with hu
    · cases hpc'
      exact ⟨hu, hc, rfl⟩
  refine ⟨hf.whole, fun q => ?_, ?_, fun x hx => ?_⟩
  · rw [hcur]
    split_ifs with hq
    · have := hf.meta_writes q
      rw [hentry q hq] at this
      exact this
    · exact hf.meta_writes q
  · rw [hclaims]
    refine Multiset.nodup_add.2 ⟨hf.claims_nodup, claim_nodup _,
      Multiset.disjoint_left.2 fun hx hx' => ?_⟩
    obtain ⟨hu, hq, rfl⟩ := hnew _ hx'
    have := hf.claims_known _ hx
    rw [hentry _ hq] at this
    exact wasUnknown_fst.1 hu this
  · rw [hclaims] at hx
    rw [hcur]
    rcases Multiset.mem_add.1 hx with hx | hx
    · have hk := hf.claims_known x hx
      split_ifs with hq
      · exact mem_wasUnknown.2 (.inr (hentry _ hq ▸ hk))
      · exact hk
    · obtain ⟨-, hq, rfl⟩ := hnew x hx
      rw [if_pos hq]
      exact mem_wasUnknown.2 (.inl rfl)

section OpenWrite

variable (hi : Inv cfg w) {pass id : Nat} {obj : Obj} (hobj : w.objs[id]? = some obj)
  (hcl : obj.closed = false)
include hi hobj hcl

/-- A write through an open entry moves the thread's claim to the file. -/
theorem claims_writeStep_open (ht : t ∈ w.threads) (hpc : t.pc = .write pass id) :
    (w.writeStep cfg t pass id .ok).claims cfg = w.claims cfg := by
  have hpath := hi.path_of_write ht hpc hobj
  have hclaim : Thread.claim cfg w.cache t = {(obj.path, t.args.serial)} := by
    simp [Thread.claim, hpc, hpath, (hi.lookup_iff hobj _).2 ⟨hcl, hpath⟩]
  have hclaims : _ + Thread.claim cfg w.cache t = _ := claims_moveTo
    { w with threads := w.moveTo t .markDirty } ht .markDirty rfl rfl rfl
  rw [claim_of_not_write ⟨t.args, .markDirty⟩ (by simp), add_zero, hclaim] at hclaims
  rw [writeStep_open hobj hcl, ← hclaims]
  simp only [World.claims, List.map_append, List.map_singleton, ← Multiset.coe_add,
    Multiset.coe_singleton]
  abel

end OpenWrite

section ClosedWrite

variable (hi : Inv cfg w) {pass id : Nat} {obj : Obj} (hobj : w.objs[id]? = some obj)
  (hcl : obj.closed = true)
include hi hobj hcl

/-- A write through a closed entry changes no claim: the thread held none. -/
theorem claims_writeStep_closed (ht : t ∈ w.threads) (hpc : t.pc = .write pass id) (o : Outcome) :
    (w.writeStep cfg t pass id o).claims cfg = w.claims cfg := by
  have hclaims : _ + Thread.claim cfg w.cache t = _ := claims_moveTo
    { w with threads := w.moveTo t (if pass == 0 then .get 1 else .markDirty) } ht _ rfl rfl rfl
  have hclaim : Thread.claim cfg w.cache t = 0 := by
    simp only [Thread.claim, hpc]
    rw [if_neg (lookup_ne_of_closed hi hobj hcl _)]
  rw [hclaim, claim_of_not_write ⟨t.args, _⟩ (by split <;> simp), add_zero, add_zero] at hclaims
  rw [writeStep_closed hobj hcl]
  exact hclaims

end ClosedWrite

theorem FaultFreeInv.writeStep (hi : Inv cfg w) (hf : FaultFreeInv cfg w) (ht : t ∈ w.threads)
    {pass id : Nat} (hpc : t.pc = .write pass id) :
    FaultFreeInv cfg (w.writeStep cfg t pass id .ok) := by
  rcases hobj : w.objs[id]? with _ | obj
  · simpa only [World.writeStep, hobj] using hf
  cases hcl : obj.closed
  · have hsame := claims_writeStep_open hi hobj hcl ht hpc
    have hcur : ∀ q, (w.writeStep cfg t pass id .ok).current q = _ :=
      current_writeStep_open hi hobj hcl
    refine ⟨fun x hx => ?_, fun q => ?_, hsame ▸ hf.claims_nodup, fun x hx => ?_⟩
    · rw [writeStep_open hobj hcl] at hx
      rcases List.mem_append.1 hx with hx | hx
      · exact hf.whole x hx
      · rw [List.mem_singleton.1 hx]
    · rw [hcur, writtenAt_push (by rw [writeStep_open hobj hcl])]
      split_ifs with hq
      · subst hq
        rw [List.map_append, List.foldl_append, ← hf.meta_writes,
          current_of_lookup ((hi.lookup_iff hobj _).2 ⟨hcl, rfl⟩) hobj]
        rfl
      · exact hf.meta_writes q
    · rw [hsame] at hx
      rw [hcur]
      split_ifs with hq
      · simpa [current_of_lookup ((hi.lookup_iff hobj _).2 ⟨hcl, hq⟩) hobj] using
          hf.claims_known x hx
      · exact hf.claims_known x hx
  · exact hf.of_claims_le (current_writeStep_closed hi hobj hcl .ok)
      (by rw [writeStep_closed hobj hcl]) (claims_writeStep_closed hi hobj hcl ht hpc .ok).le

theorem FaultFreeInv.markDirtyStep (hf : FaultFreeInv cfg w) (ht : t ∈ w.threads) (o : Outcome) :
    FaultFreeInv cfg (w.markDirtyStep cfg t o) := by
  cases o with
  | fail n => exact hf.finish ht .error
  | _ => exact hf.of_claims_le rfl rfl (claims_finish_le ht .ok)

/-- An eviction takes the claims made through the entry it closes. -/
theorem claims_evict_le (p : Bytes) (saves : FileOk) : (w.evict p saves).claims cfg ≤ w.claims cfg := by
  rcases hc : w.cache.lookup p with _ | id
  · simp only [World.evict, hc, le_rfl]
  rcases hobj : w.objs[id]? with _ | obj
  · simp only [World.evict, hc, hobj, le_rfl]
  rw [evict_cached hc hobj]
  refine add_le_add_left (bind_claim_mono (fun q id' h => ?_) w.threads) _
  by_cases hq : q = p
  · subst hq
    simp [AList.lookup_erase] at h
  · rwa [AList.lookup_erase_ne hq] at h

theorem FaultFreeInv.evict (hi : Inv cfg w) (hf : FaultFreeInv cfg w) (p : Bytes) :
    FaultFreeInv cfg (w.evict p .both) :=
  hf.of_claims_le (current_evict hi p) (writes_evict p .both) (claims_evict_le p .both)

theorem FaultFreeInv.act (hi : Inv cfg w) (hf : FaultFreeInv cfg w) {a : Action}
    (ha : a.isFaultFree = true) : FaultFreeInv cfg (w.act cfg a) := by
  cases a with
  | start a => exact hf.start a
  | exec t o =>
    obtain ⟨args, pc⟩ := t
    simp only [World.act]
    split_ifs with ht
    · cases pc with
      | get pass =>
        obtain rfl : o = .ok := by simpa [Action.isFaultFree] using ha
        exact hf.get hi ht rfl
      | wasUnknown pass id => exact hf.wasUnknownStep ht rfl o
      | write pass id =>
        obtain rfl : o = .ok := by simpa [Action.isFaultFree] using ha
        exact hf.writeStep hi ht rfl
      | markDirty => exact hf.markDirtyStep ht o
    · exact hf
  | evict p saves =>
    obtain rfl : saves = .both := beq_iff_eq.1 ha
    exact hf.evict hi p
  | restart => cases ha

/-- Every fault-free run from an empty root keeps both invariants. -/
theorem faultFreeInv_run (acts : List Action) (h : ∀ a ∈ acts, a.isFaultFree = true) :
    Inv cfg (World.run cfg World.init acts) ∧ FaultFreeInv cfg (World.run cfg World.init acts) := by
  suffices ∀ w, Inv cfg w → FaultFreeInv cfg w →
      Inv cfg (World.run cfg w acts) ∧ FaultFreeInv cfg (World.run cfg w acts) from
    this _ inv_init faultFreeInv_init
  induction acts with
  | nil => exact fun _ hi hf => ⟨hi, hf⟩
  | cons a acts ih =>
    intro w hi hf
    exact ih (fun b hb => h b (List.mem_cons_of_mem a hb)) _ (hi.act a)
      (hf.act hi (h a (List.mem_cons_self a acts)))

end FaultFree

/-! ## Shard files of fault-free runs -/

section Files

open World

variable {cfg : Config} {w : World}

/-- A shard file holds the whole block of each call written to it, in order. -/
theorem files_shardFile (hi : Inv cfg w) (hf : FaultFreeInv cfg w) (a : StoreArgs) :
    w.files.getD (a.path cfg) [] = shardFile ((w.writtenAt (a.path cfg)).map StoreArgs.stored) := by
  rw [hi.files_writes a, shardFile, List.flatMap_def, World.writtenAt, List.map_map, List.map_map]
  congr 1
  exact List.map_congr_left fun x hx => hf.whole x (List.mem_of_mem_filter hx)

theorem written_serials_nodup (hf : FaultFreeInv cfg w) (p : Bytes) :
    ((w.writtenAt p).map StoreArgs.serial).Nodup := by
  have hw : (w.writes.map fun x => (x.1, x.2.1.serial)).Nodup :=
    Multiset.coe_nodup.1 (Multiset.nodup_add.1 hf.claims_nodup).1
  have heq : ((w.writtenAt p).map StoreArgs.serial).map (Prod.mk p) =
      (w.writes.map fun x => (x.1, x.2.1.serial)).filter fun y => y.1 = p := by
    rw [List.filter_map, World.writtenAt, List.map_map, List.map_map]
    refine List.map_congr_left fun x hx => ?_
    have hx : x.1 = p := by simpa using (List.mem_filter.1 hx).2
    simp [hx]
  exact List.Nodup.of_map _ (heq ▸ hw.filter _)

/-- In every run from an empty root with no fault that loses state, each shard file holds, in
    order, the whole block of every `Store` call that wrote to it, and no serial twice. -/
theorem shard_file_no_duplicate (acts : List Action) (h : ∀ a ∈ acts, a.isFaultFree = true)
    (a : StoreArgs) :
    let w := World.run cfg World.init acts
    w.files.getD (a.path cfg) [] = shardFile ((w.writtenAt (a.path cfg)).map StoreArgs.stored) ∧
      ((w.writtenAt (a.path cfg)).map StoreArgs.serial).Nodup :=
  have hw := faultFreeInv_run acts h
  ⟨files_shardFile hw.1 hw.2 a, written_serials_nodup hw.2 _⟩

/-- A configuration for the runs below: the root `/ct`, and the AKI bytes as their own ID. -/
def sampleConfig : Config := ⟨ascii "/ct", id, schemePrefixLib⟩

/-- A certificate with serial 5 that expires on 2019-09-01, logged that day. -/
def sampleStore : StoreArgs :=
  ⟨⟨[48, 0], [1], ⟨⟨⟨1567296000, 0, .utc⟩, [ascii "http://crl.example/a"], ascii "CN=CA"⟩, 5⟩⟩,
    ascii "https://ct.example/log", ⟨1567296000, 0, .utc⟩⟩

/-- Two `Store` calls of that certificate at once: both pass `cache.Get`, and one writes. -/
def storeTwice : List World.Action :=
  [.start sampleStore, .start sampleStore, .exec ⟨sampleStore, .get 0⟩ .ok,
    .exec ⟨sampleStore, .get 0⟩ .ok, .exec ⟨sampleStore, .wasUnknown 0 0⟩ .ok,
    .exec ⟨sampleStore, .wasUnknown 0 0⟩ .ok, .exec ⟨sampleStore, .write 0 0⟩ .ok,
    .exec ⟨sampleStore, .markDirty⟩ .ok, .exec ⟨sampleStore, .markDirty⟩ .ok]

theorem shard_file_no_duplicate_storeTwice :
    (∀ a ∈ storeTwice, a.isFaultFree = true) ∧
      let w := World.run sampleConfig World.init storeTwice
      w.files.getD (sampleStore.path sampleConfig) [] =
          shardFile ((w.writtenAt (sampleStore.path sampleConfig)).map StoreArgs.stored) ∧
        ((w.writtenAt (sampleStore.path sampleConfig)).map StoreArgs.serial).Nodup :=
  ⟨by decide, shard_file_no_duplicate storeTwice (by decide) sampleStore⟩

/-- The calls `ReconstructIssuerMetadata` makes for the blocks of `certs` when each re-parses. -/
def storedCalls (certs : List StoreArgs) : List Call :=
  certs.flatMap fun b => [.accumulate b.cert.parsed.cert, .wasUnknown b.serial]

theorem replay_storedCalls (lib : UrlLib) (e : Entry) (certs : List StoreArgs) :
    e.replay lib (storedCalls certs) =
      ⟨certs.foldl (fun k b => (wasUnknown k b.serial).2) e.known,
        (certs.map fun b => b.cert.parsed.cert).foldl (accumulate lib) e.meta⟩ := by
  induction certs generalizing e with
  | nil => rfl
  | cons b certs ih =>
    show e.replay lib (.accumulate b.cert.parsed.cert :: .wasUnknown b.serial :: storedCalls certs) = _
    rw [Entry.replay, Entry.replay, ih]
    rfl

theorem mem_foldl_wasUnknown {s : Int} (certs : List StoreArgs) (k : List Int) :
    s ∈ certs.foldl (fun k b => (wasUnknown k b.serial).2) k ↔
      s ∈ k ∨ s ∈ certs.map StoreArgs.serial := by
  induction certs generalizing k with
  | nil => simp
  | cons b certs ih =>
    rw [List.foldl_cons, ih, mem_wasUnknown, List.map_cons, List.mem_cons]
    tauto

theorem claims_of_written {p : Bytes} {b : StoreArgs} (hb : b ∈ w.writtenAt p) :
    (p, b.serial) ∈ w.claims cfg := by
  obtain ⟨x, hx, rfl⟩ := List.mem_map.1 hb
  have hp : x.1 = p := by simpa using (List.mem_filter.1 hx).2
  refine Multiset.mem_add.2 (.inl (Multiset.mem_coe.2 (List.mem_map.2 ⟨x, ?_, by rw [hp]⟩)))
  exact List.mem_of_mem_filter hx

theorem written_of_mem_writes {p : Bytes} {s : Int}
    (h : (p, s) ∈ (↑(w.writes.map fun x => (x.1, x.2.1.serial)) : Multiset (Bytes × Int))) :
    s ∈ (w.writtenAt p).map StoreArgs.serial := by
  obtain ⟨x, hxw, hxe⟩ := List.mem_map.1 (Multiset.mem_coe.1 h)
  obtain ⟨rfl, rfl⟩ := Prod.mk.inj hxe
  exact List.mem_map.2 ⟨x.2.1, List.mem_map.2 ⟨x, List.mem_filter.2 ⟨hxw, by simp⟩, rfl⟩, rfl⟩

/-- A shard file of a fault-free run reads back, in any chunks, as the calls for its blocks in
    order, when each `Log` value is plain, each block fits the scan buffer and each certificate
    re-parses. -/
theorem reconstruct_writtenAt (hi : Inv cfg w) (hf : FaultFreeInv cfg w)
    (x509 : Bytes → Option ParsedCertificate) (c : Bufio.Chunking) (a : StoreArgs)
    (hlog : ∀ b ∈ w.writtenAt (a.path cfg),
      Pem.nl ∉ b.logURL ∧ ¬ascii "-----END CERTIFICATE-----" <:+ b.logURL)
    (hfit : ∀ b ∈ w.writtenAt (a.path cfg), b.block.length ≤ kScanBufferSize)
    (hparse : ∀ b ∈ w.writtenAt (a.path cfg), x509 b.cert.raw = some b.cert.parsed) :
    reconstructIssuerMetadata x509 c (w.files.getD (a.path cfg) []) =
      some (none, storedCalls (w.writtenAt (a.path cfg))) := by
  set certs := w.writtenAt (a.path cfg)
  have hnl : ∀ e ∈ certs.map StoreArgs.stored, Pem.nl ∉ e.logURL ∧ Pem.nl ∉ e.recordedAt := by
    simp only [List.mem_map]
    rintro _ ⟨b, hb, rfl⟩
    exact ⟨(hlog b hb).1, b.recordedAt_plain.1⟩
  have hend : ∀ e ∈ certs.map StoreArgs.stored, ¬ascii "-----END CERTIFICATE-----" <:+ e.logURL ∧
      ¬ascii "-----END CERTIFICATE-----" <:+ e.recordedAt := by
    simp only [List.mem_map]
    rintro _ ⟨b, hb, rfl⟩
    exact ⟨(hlog b hb).2, b.recordedAt_plain.2⟩
  have htok := scanTokens_shardFile c _ hnl hend (by simpa using hfit)
  rw [files_shardFile hi hf, reconstructIssuerMetadata,
    reconstructLoop_eq x509 c _ _ [] _ _ htok, handleTokens_storedBytes x509 _ [] hnl,
    List.nil_append, List.flatMap_map]
  congr 2
  exact List.flatMap_congr fun b hb => by simp [parsedCalls, StoreArgs.stored, hparse b hb,
    StoreArgs.serial]

/-- In every fault-free run from an empty root, `ReconstructIssuerMetadata` reads each shard file
    back, in any chunks, when each `Log` value holds no newline and does not end with
    `-----END CERTIFICATE-----`, each block fits the scan buffer, and each certificate re-parses:
    it returns `nil` after calling `Accumulate` and `WasUnknown` for each block, in file order.
    From a fresh entry those calls rebuild the shard's metadata exactly, and every serial they
    insert is one the shard knows. -/
theorem reconstruct_current (x509 : Bytes → Option ParsedCertificate) (c : Bufio.Chunking)
    {acts : List Action} (h : ∀ a ∈ acts, a.isFaultFree = true) (a : StoreArgs)
    (hlog : ∀ b ∈ (World.run cfg World.init acts).writtenAt (a.path cfg),
      Pem.nl ∉ b.logURL ∧ ¬ascii "-----END CERTIFICATE-----" <:+ b.logURL)
    (hfit : ∀ b ∈ (World.run cfg World.init acts).writtenAt (a.path cfg),
      b.block.length ≤ kScanBufferSize)
    (hparse : ∀ b ∈ (World.run cfg World.init acts).writtenAt (a.path cfg),
      x509 b.cert.raw = some b.cert.parsed) :
    let w := World.run cfg World.init acts
    let calls := storedCalls (w.writtenAt (a.path cfg))
    reconstructIssuerMetadata x509 c (w.files.getD (a.path cfg) []) = some (none, calls) ∧
      (Entry.fresh.replay cfg.lib calls).meta = (w.current (a.path cfg)).meta ∧
      ∀ s ∈ (Entry.fresh.replay cfg.lib calls).known, s ∈ (w.current (a.path cfg)).known := by
  intro w calls
  obtain ⟨hi, hf⟩ := faultFreeInv_run acts h
  refine ⟨reconstruct_writtenAt hi hf x509 c a hlog hfit hparse, ?_, fun s hs => ?_⟩
  · rw [replay_storedCalls, hf.meta_writes]
    rfl
  · rw [replay_storedCalls, mem_foldl_wasUnknown] at hs
    rcases hs with hs | hs
    · cases hs
    · obtain ⟨b, hb, rfl⟩ := List.mem_map.1 hs
      exact hf.claims_known _ (claims_of_written hb)

/-- `x509.ParseCertificate`, knowing the one certificate of these runs. -/
def sampleParse (raw : Bytes) : Option ParsedCertificate :=
  if raw = sampleStore.cert.raw then some sampleStore.cert.parsed else none

/-- The one block `storeTwice` writes meets the conditions of the read-back. -/
theorem storeTwice_blocks :
    let ws := (World.run sampleConfig World.init storeTwice).writtenAt
      (sampleStore.path sampleConfig)
    (∀ b ∈ ws, Pem.nl ∉ b.logURL ∧ ¬ascii "-----END CERTIFICATE-----" <:+ b.logURL) ∧
      (∀ b ∈ ws, b.block.length ≤ kScanBufferSize) ∧
      (∀ b ∈ ws, sampleParse b.cert.raw = some b.cert.parsed) := by
  have hw : (World.run sampleConfig World.init storeTwice).writtenAt
      (sampleStore.path sampleConfig) = [sampleStore] := by decide
  have hnow : formatRFC3339 sampleStore.now = ascii "2019-09-01T00:00:00Z" := by decide
  simp only [hw, List.forall_mem_singleton]
  refine ⟨⟨by decide, fun h => absurd h.length_le (by decide)⟩, ?_, rfl⟩
  simp only [StoreArgs.block, StoreArgs.stored, hnow]
  decide

theorem reconstruct_current_storeTwice :
    let w := World.run sampleConfig World.init storeTwice
    let p := sampleStore.path sampleConfig
    let calls := storedCalls (w.writtenAt p)
    (∀ a ∈ storeTwice, a.isFaultFree = true) ∧
      (∀ b ∈ w.writtenAt p, Pem.nl ∉ b.logURL ∧ ¬ascii "-----END CERTIFICATE-----" <:+ b.logURL) ∧
      (∀ b ∈ w.writtenAt p, b.block.length ≤ kScanBufferSize) ∧
      (∀ b ∈ w.writtenAt p, sampleParse b.cert.raw = some b.cert.parsed) ∧
      reconstructIssuerMetadata sampleParse ⟨fun _ => 1, fun _ => Nat.one_pos⟩ (w.files.getD p []) =
        some (none, calls) ∧
      (Entry.fresh.replay sampleConfig.lib calls).meta = (w.current p).meta ∧
      ∀ s ∈ (Entry.fresh.replay sampleConfig.lib calls).known, s ∈ (w.current p).known := by
  obtain ⟨hlog, hfit, hparse⟩ := storeTwice_blocks
  exact ⟨by decide, hlog, hfit, hparse,
    reconstruct_current sampleParse _ (by decide) sampleStore hlog hfit hparse⟩

end Files

/-! ## Runs that evict no entry in use -/

section Safe

open World

variable {cfg : Config} {w : World} {t : Thread}

/-- A step that keeps the cache, the shards and the claims, and moves no thread onto an entry. -/
theorem SafeInv.of_eq {w' : World} (hs : SafeInv cfg w)
    (hheld : ∀ t' ∈ w'.threads, t'.pc.holdsEntry = true → t' ∈ w.threads)
    (hcache : w'.cache = w.cache) (hcur : w'.current = w.current)
    (hclaims : w'.claims cfg = w.claims cfg) : SafeInv cfg w' where
  held_cached t' ht' pass id h := hcache ▸ hs.held_cached t' (hheld t' ht' (by
    rcases h with h | h <;> simp [h, Pc.holdsEntry])) pass id h
  known_claimed p s h := hclaims ▸ hs.known_claimed p s (hcur ▸ h)

theorem SafeInv.finish (hs : SafeInv cfg w) (ht : t ∈ w.threads)
    (h : ∀ pass id, t.pc ≠ .write pass id) (r : Result) : SafeInv cfg (w.finish t r) :=
  hs.of_eq (fun _ ht' _ => List.mem_of_mem_erase ht') rfl rfl (claims_finish ht h r)

theorem SafeInv.get (hi : Inv cfg w) (hs : SafeInv cfg w) (ht : t ∈ w.threads) {pass : Nat}
    (hpc : t.pc = .get pass) : SafeInv cfg (w.get cfg t pass .ok) := by
  refine ⟨fun t' ht' pass' id' h => ?_, fun p s h => ?_⟩
  · rcases hc : w.cache.lookup (t.args.path cfg) with _ | id
    · rw [get_load hc] at ht' ⊢
      rcases World.mem_moveTo.1 ht' with ht' | rfl
      · have hold := hs.held_cached t' (List.mem_of_mem_erase ht') pass' id' h
        have hne : t'.args.path cfg ≠ t.args.path cfg := fun heq => by
          rw [heq, hc] at hold
          cases hold
        rwa [AList.lookup_insert_ne hne]
      · rcases h with h | h <;> cases h
        exact AList.lookup_insert _
    · rw [get_hit hc] at ht' ⊢
      rcases World.mem_moveTo.1 ht' with ht' | rfl
      · exact hs.held_cached t' (List.mem_of_mem_erase ht') pass' id' h
      · rcases h with h | h <;> cases h
        exact hc
  · rw [current_get hi pass] at h
    rw [claims_get hi ht hpc]
    exact hs.known_claimed p s h

theorem SafeInv.wasUnknownStep (hi : Inv cfg w) (hs : SafeInv cfg w) (ht : t ∈ w.threads)
    {pass id : Nat} (hpc : t.pc = .wasUnknown pass id) (o : Outcome) :
    SafeInv cfg (w.wasUnknownStep t pass id o) := by
  suffices hok : SafeInv cfg (w.wasUnknownStep t pass id .ok) by
    cases o with
    | fail n => exact hs.finish ht (by simp [hpc]) .error
    | _ => exact hok
  rcases hobj : w.objs[id]? with _ | obj
  · simpa only [World.wasUnknownStep, hobj] using hs
  have hheld := hs.held_cached t ht pass id (.inl hpc)
  rw [wasUnknownStep_ok hobj]
  set r := wasUnknown obj.entry.known t.args.serial
  set pc : Pc := if r.1 then .write pass id else .markDirty
  have hclaims : _ + Thread.claim cfg w.cache t = _ := claims_moveTo
    { w with objs := w.objs.set id ⟨obj.path, ⟨r.2, obj.entry.meta⟩, obj.closed⟩
             threads := w.moveTo t pc } ht pc rfl rfl rfl
  rw [claim_of_not_write t (by simp [hpc]), add_zero] at hclaims
  refine ⟨fun t' ht' pass' id' h => ?_, fun p s h => ?_⟩
  · rcases World.mem_moveTo.1 ht' with ht' | rfl
    · exact hs.held_cached t' (List.mem_of_mem_erase ht') pass' id' h
    · simp only [pc] at h
      split_ifs at h <;> rcases h with h | h <;> cases h
      exact hheld
  · rw [current_set { w with
      objs := w.objs.set id ⟨obj.path, ⟨r.2, obj.entry.meta⟩, obj.closed⟩
      threads := w.moveTo t pc } hobj rfl rfl rfl] at h
    rw [hclaims]
    split_ifs at h with hq
    · rcases mem_wasUnknown.1 h with rfl | h
      · by_cases hu : r.1 = true
        · -- the serial was unknown: the thread now claims it in its own shard
          have hp : t.args.path cfg = p := by
            have h₁ := (hi.cache_iff _ _).1 hheld
            rw [(hi.cache_iff _ _).1 hq] at h₁
            exact (Prod.mk.inj (Option.some.inj h₁)).1.symm
          refine Multiset.mem_add.2 (.inr ?_)
          simp [pc, hu, Thread.claim, hheld, hp]
        · have hk := not_not.1 (mt wasUnknown_fst.2 hu)
          rw [← current_of_lookup hq hobj] at hk
          exact Multiset.mem_add.2 (.inl (hs.known_claimed p _ hk))
      · rw [← current_of_lookup hq hobj] at h
        exact Multiset.mem_add.2 (.inl (hs.known_claimed p s h))
    · exact Multiset.mem_add.2 (.inl (hs.known_claimed p s h))

theorem SafeInv.writeStep (hi : Inv cfg w) (hs : SafeInv cfg w) (ht : t ∈ w.threads)
    {pass id : Nat} (hpc : t.pc = .write pass id) :
    SafeInv cfg (w.writeStep cfg t pass id .ok) := by
  rcases hobj : w.objs[id]? with _ | obj
  · simpa only [World.writeStep, hobj] using hs
  have hheld := hs.held_cached t ht pass id (.inr hpc)
  have hcl : obj.closed = false := ((hi.lookup_iff hobj _).1 hheld).1
  refine ⟨fun t' ht' pass' id' h => ?_, fun p s h => ?_⟩
  · rw [writeStep_open hobj hcl] at ht' ⊢
    rcases World.mem_moveTo.1 ht' with ht' | rfl
    · exact hs.held_cached t' (List.mem_of_mem_erase ht') pass' id' h
    · rcases h with h | h <;> cases h
  · rw [claims_writeStep_open hi hobj hcl ht hpc]
    rw [current_writeStep_open hi hobj hcl] at h
    split_ifs at h with hq
    · rw [← current_of_lookup ((hi.lookup_iff hobj _).2 ⟨hcl, hq⟩) hobj] at h
      exact hs.known_claimed p s h
    · exact hs.known_claimed p s h

theorem SafeInv.markDirtyStep (hs : SafeInv cfg w) (ht : t ∈ w.threads)
    (hpc : t.pc = .markDirty) (o : Outcome) : SafeInv cfg (w.markDirtyStep cfg t o) := by
  have h : ∀ pass id, t.pc ≠ .write pass id := by simp [hpc]
  cases o with
  | fail n => exact hs.finish ht h .error
  | _ => exact (hs.finish ht h .ok).of_eq (fun t' ht' _ => ht') rfl rfl rfl

/-- An eviction of an entry no call holds, whose `Save` succeeds, changes no claim. -/
theorem claims_evict {p : Bytes} (hp : w.holds cfg p = false) : (w.evict p .both).claims cfg = w.claims cfg := by
  rcases hc : w.cache.lookup p with _ | id
  · simp only [World.evict, hc]
  rcases hobj : w.objs[id]? with _ | obj
  · simp only [World.evict, hc, hobj]
  rw [evict_cached hc hobj]
  simp only [World.claims]
  congr 1
  refine Multiset.bind_congr fun t' ht' => ?_
  unfold Thread.claim
  split
  · next pass id' heq =>
    have hne : t'.args.path cfg ≠ p := fun heq' => by
      have := List.any_eq_false.1 hp t' (Multiset.mem_coe.1 ht')
      simp [heq, heq', Pc.holdsEntry] at this
    rw [AList.lookup_erase_ne hne]
  · rfl

theorem SafeInv.evict (hi : Inv cfg w) (hs : SafeInv cfg w) {p : Bytes}
    (hp : w.holds cfg p = false) : SafeInv cfg (w.evict p .both) := by
  refine ⟨fun t' ht' pass id h => ?_, fun q s h => ?_⟩
  · rw [threads_evict] at ht'
    have hne : t'.args.path cfg ≠ p := fun heq => by
      have := List.any_eq_false.1 hp t' ht'
      rcases h with h | h <;> simp [h, heq, Pc.holdsEntry] at this
    rw [lookup_evict_ne hne]
    exact hs.held_cached t' ht' pass id h
  · rw [claims_evict hp]
    rw [current_evict hi p] at h
    exact hs.known_claimed q s h

theorem SafeInv.act (hi : Inv cfg w) (hs : SafeInv cfg w) {a : Action}
    (ha : w.safeAct cfg a = true) : SafeInv cfg (w.act cfg a) := by
  cases a with
  | start a =>
    refine hs.of_eq (fun t' ht' h => ?_) rfl rfl (claims_start a)
    rcases List.mem_append.1 ht' with ht' | ht'
    · exact ht'
    · simp [List.mem_singleton.1 ht', Pc.holdsEntry] at h
  | exec t o =>
    obtain ⟨args, pc⟩ := t
    simp only [World.act]
    split_ifs with ht
    · cases pc with
      | get pass =>
        obtain rfl : o = .ok := by simpa [World.safeAct, Action.isFaultFree] using ha
        exact hs.get hi ht rfl
      | wasUnknown pass id => exact hs.wasUnknownStep hi ht rfl o
      | write pass id =>
        obtain rfl : o = .ok := by simpa [World.safeAct, Action.isFaultFree] using ha
        exact hs.writeStep hi ht rfl
      | markDirty => exact hs.markDirtyStep ht rfl o
    · exact hs
  | evict p saves =>
    simp only [World.safeAct, Bool.and_eq_true, Bool.not_eq_true'] at ha
    obtain ⟨hb, hp⟩ := ha
    obtain rfl := beq_iff_eq.1 hb
    exact hs.evict hi hp
  | restart => cases ha

theorem World.safeAct_isFaultFree {a : Action} (h : w.safeAct cfg a = true) : a.isFaultFree = true := by
  cases a with
  | evict p saves =>
    simp only [World.safeAct, Bool.and_eq_true] at h
    exact h.1
  | _ => exact h

theorem safeInv_init : SafeInv cfg World.init where
  held_cached _ ht := by simp [World.init] at ht
  known_claimed _ _ h := by simp [World.init, World.current, World.load, Entry.fresh, GoMap.getD,
    AList.lookup_empty] at h

/-- Every run from an empty root that is fault-free and evicts no entry in use keeps the three
    invariants. -/
theorem safeInv_run (acts : List Action) (h : World.safeRun cfg World.init acts = true) :
    let w := World.run cfg World.init acts
    Inv cfg w ∧ FaultFreeInv cfg w ∧ SafeInv cfg w := by
  suffices ∀ w, World.safeRun cfg w acts = true → Inv cfg w → FaultFreeInv cfg w → SafeInv cfg w →
      Inv cfg (World.run cfg w acts) ∧ FaultFreeInv cfg (World.run cfg w acts) ∧
        SafeInv cfg (World.run cfg w acts) from
    this _ h inv_init faultFreeInv_init safeInv_init
  clear h
  induction acts with
  | nil => exact fun _ _ hi hf hs => ⟨hi, hf, hs⟩
  | cons a acts ih =>
    intro w h hi hf hs
    simp only [World.safeRun, Bool.and_eq_true] at h
    exact ih _ h.2 (hi.act a) (hf.act hi (World.safeAct_isFaultFree h.1)) (hs.act hi h.1)

/-- In a fault-free run from an empty root in which the cache never evicts an entry a `Store`
    call holds, a shard knows exactly the serials written to its file and those of the calls
    that found them unknown and have not yet written them. -/
theorem known_iff_written (acts : List Action) (h : World.safeRun cfg World.init acts = true)
    (p : Bytes) (s : Int) :
    let w := World.run cfg World.init acts
    s ∈ (w.current p).known ↔ s ∈ (w.writtenAt p).map StoreArgs.serial ∨
      ∃ t ∈ w.threads, (∃ pass id, t.pc = .write pass id) ∧ t.args.path cfg = p ∧
        t.args.serial = s := by
  intro w
  obtain ⟨hi, hf, hs⟩ := safeInv_run acts h
  constructor
  · intro hk
    rcases Multiset.mem_add.1 (hs.known_claimed p s hk) with hx | hx
    · exact .inl (written_of_mem_writes hx)
    · right
      obtain ⟨t, ht, hx⟩ := Multiset.mem_bind.1 hx
      obtain ⟨pass, id, hpc, -, hxe⟩ := mem_claim hx
      obtain ⟨rfl, rfl⟩ := Prod.mk.inj hxe
      exact ⟨t, Multiset.mem_coe.1 ht, ⟨pass, id, hpc⟩, rfl, rfl⟩
  · rintro (hs' | ⟨t, ht, ⟨pass, id, hpc⟩, rfl, rfl⟩)
    · obtain ⟨b, hb, rfl⟩ := List.mem_map.1 hs'
      exact hf.claims_known _ (claims_of_written hb)
    · refine hf.claims_known (t.args.path cfg, t.args.serial) (Multiset.mem_add.2 (.inr ?_))
      refine Multiset.mem_bind.2 ⟨t, Multiset.mem_coe.2 ht, ?_⟩
      simp [Thread.claim, hpc, hs.held_cached t ht pass id (.inr hpc)]

/-- A `Store`, the eviction of its entry after it returned, and the same `Store` again, which
    loads the saved entry and finds the serial known. -/
def storeEvictStore : List World.Action :=
  [.start sampleStore, .exec ⟨sampleStore, .get 0⟩ .ok, .exec ⟨sampleStore, .wasUnknown 0 0⟩ .ok,
    .exec ⟨sampleStore, .write 0 0⟩ .ok, .exec ⟨sampleStore, .markDirty⟩ .ok,
    .evict (sampleStore.path sampleConfig) .both, .start sampleStore,
    .exec ⟨sampleStore, .get 0⟩ .ok, .exec ⟨sampleStore, .wasUnknown 0 1⟩ .ok,
    .exec ⟨sampleStore, .markDirty⟩ .ok]

theorem known_iff_written_storeEvictStore :
    World.safeRun sampleConfig World.init storeEvictStore = true ∧
      let w := World.run sampleConfig World.init storeEvictStore
      (5 ∈ (w.current (sampleStore.path sampleConfig)).known ↔
        5 ∈ (w.writtenAt (sampleStore.path sampleConfig)).map StoreArgs.serial ∨
          ∃ t ∈ w.threads, (∃ pass id, t.pc = .write pass id) ∧
            t.args.path sampleConfig = sampleStore.path sampleConfig ∧ t.args.serial = 5) :=
  ⟨by decide, known_iff_written storeEvictStore (by decide) _ 5⟩

end Safe

/-! ## A known serial missing from its file -/

section Unclaimed

open World

variable {cfg : Config} {w : World} {t : Thread} {p : Bytes} {s : Int}

/-- `WasUnknown` keeps a known serial known, and claims only a serial its shard did not know. -/
theorem unclaimed_wasUnknownStep (ht : t ∈ w.threads) {pass id : Nat}
    (hpc : t.pc = .wasUnknown pass id) (hk : s ∈ (w.current p).known)
    (hc : (p, s) ∉ w.claims cfg) (o : Outcome) :
    s ∈ ((w.wasUnknownStep t pass id o).current p).known ∧
      (p, s) ∉ (w.wasUnknownStep t pass id o).claims cfg := by
  suffices hok : s ∈ ((w.wasUnknownStep t pass id .ok).current p).known ∧
      (p, s) ∉ (w.wasUnknownStep t pass id .ok).claims cfg by
    cases o with
    | fail n => exact ⟨hk, fun h => hc (Multiset.mem_of_le (claims_finish_le ht .error) h)⟩
    | _ => exact hok
  rcases hobj : w.objs[id]? with _ | obj
  · simp only [World.wasUnknownStep, hobj]
    exact ⟨hk, hc⟩
  rw [wasUnknownStep_ok hobj]
  set r := wasUnknown obj.entry.known t.args.serial
  set pc : Pc := if r.1 then .write pass id else .markDirty
  have hclaims : _ + Thread.claim cfg w.cache t = _ := claims_moveTo
    { w with objs := w.objs.set id ⟨obj.path, ⟨r.2, obj.entry.meta⟩, obj.closed⟩
             threads := w.moveTo t pc } ht pc rfl rfl rfl
  rw [claim_of_not_write t (by simp [hpc]), add_zero] at hclaims
  refine ⟨?_, fun h => ?_⟩
  · rw [current_set { w with
      objs := w.objs.set id ⟨obj.path, ⟨r.2, obj.entry.meta⟩, obj.closed⟩
      threads := w.moveTo t pc } hobj rfl rfl rfl]
    split_ifs with hq
    · exact mem_wasUnknown.2 (.inr (current_of_lookup hq hobj ▸ hk))
    · exact hk
  · rw [hclaims] at h
    rcases Multiset.mem_add.1 h with h | h
    · exact hc h
    -- a new claim is of a serial the cached entry of the shard did not know
    obtain ⟨pass', id', hpc', hq, hx⟩ := mem_claim h
    obtain ⟨rfl, rfl⟩ := Prod.mk.inj hx
    simp only [pc] at hpc'
    split_ifs at hpc' with hu
    cases hpc'
    exact wasUnknown_fst.1 hu (current_of_lookup hq hobj ▸ hk)

/-- A fault-free step keeps a known serial known, and claims it only if it was claimed. -/
theorem unclaimed_act (hi : Inv cfg w) (hk : s ∈ (w.current p).known)
    (hc : (p, s) ∉ w.claims cfg) {a : Action} (ha : a.isFaultFree = true) :
    s ∈ ((w.act cfg a).current p).known ∧ (p, s) ∉ (w.act cfg a).claims cfg := by
  -- most steps change no shard and claim no more
  have hle : ∀ w' : World, w'.current = w.current → w'.claims cfg ≤ w.claims cfg →
      s ∈ (w'.current p).known ∧ (p, s) ∉ w'.claims cfg :=
    fun w' hcur hle => ⟨hcur ▸ hk, fun h => hc (Multiset.mem_of_le hle h)⟩
  cases a with
  | start a => exact hle _ rfl (claims_start a).le
  | exec t o =>
    obtain ⟨args, pc⟩ := t
    simp only [World.act]
    split_ifs with ht
    · cases pc with
      | get pass =>
        obtain rfl : o = .ok := by simpa [Action.isFaultFree] using ha
        exact hle _ (current_get hi pass) (claims_get hi ht rfl).le
      | wasUnknown pass id => exact unclaimed_wasUnknownStep ht rfl hk hc o
      | write pass id =>
        obtain rfl : o = .ok := by simpa [Action.isFaultFree] using ha
        rcases hobj : w.objs[id]? with _ | obj
        · simp only [World.exec, World.writeStep, hobj]
          exact ⟨hk, hc⟩
        cases hcl : obj.closed
        · refine ⟨?_, (claims_writeStep_open hi hobj hcl ht rfl).symm ▸ hc⟩
          simp only [World.exec]
          rw [current_writeStep_open hi hobj hcl]
          split_ifs with hq
          · rwa [← current_of_lookup ((hi.lookup_iff hobj _).2 ⟨hcl, hq⟩) hobj]
          · exact hk
        · exact hle _ (current_writeStep_closed hi hobj hcl .ok)
            (claims_writeStep_closed hi hobj hcl ht rfl .ok).le
      | markDirty =>
        cases o with
        | fail n => exact hle _ rfl (claims_finish_le ht .error)
        | _ => exact hle _ rfl (claims_finish_le ht .ok)
    · exact ⟨hk, hc⟩
  | evict q saves =>
    obtain rfl : saves = .both := beq_iff_eq.1 ha
    exact hle _ (current_evict hi q) (claims_evict_le q .both)
  | restart => cases ha

theorem unclaimed_run (acts : List Action) (h : ∀ a ∈ acts, a.isFaultFree = true)
    (hi : Inv cfg w) (hk : s ∈ (w.current p).known) (hc : (p, s) ∉ w.claims cfg) :
    s ∈ ((World.run cfg w acts).current p).known ∧ (p, s) ∉ (World.run cfg w acts).claims cfg := by
  induction acts generalizing w with
  | nil => exact ⟨hk, hc⟩
  | cons a acts ih =>
    have ha := unclaimed_act hi hk hc (h a (List.mem_cons_self a acts))
    exact ih (fun b hb => h b (List.mem_cons_of_mem a hb)) (hi.act a) ha.1 ha.2

/-- After any run, a serial that its shard knows, that is not in the shard's file, and that no
    running call is storing in that shard, is never written to the file by the fault-free steps
    that follow, whichever they are: it stays known, so every later `Store` of it finds it
    known. -/
theorem known_unwritten_never_written (acts₁ acts₂ : List Action)
    (h₂ : ∀ a ∈ acts₂, a.isFaultFree = true)
    (p : Bytes) (s : Int) (hk : s ∈ ((World.run cfg World.init acts₁).current p).known)
    (hw : s ∉ ((World.run cfg World.init acts₁).writtenAt p).map StoreArgs.serial)
    (hidle : ∀ t ∈ (World.run cfg World.init acts₁).threads,
      t.args.path cfg = p → t.args.serial ≠ s) :
    let w := World.run cfg World.init (acts₁ ++ acts₂)
    s ∈ (w.current p).known ∧ s ∉ (w.writtenAt p).map StoreArgs.serial := by
  intro w
  have hi : Inv cfg (World.run cfg World.init acts₁) := inv_run acts₁
  have hc : (p, s) ∉ (World.run cfg World.init acts₁).claims cfg := fun h =>
    match Multiset.mem_add.1 h with
    | .inl h => hw (written_of_mem_writes h)
    | .inr h => by
      obtain ⟨t, ht, h⟩ := Multiset.mem_bind.1 h
      obtain ⟨-, -, -, -, hx⟩ := mem_claim h
      obtain ⟨rfl, rfl⟩ := Prod.mk.inj hx
      exact hidle t (Multiset.mem_coe.1 ht) rfl rfl
  have hrun : w = World.run cfg (World.run cfg World.init acts₁) acts₂ := List.foldl_append _ _ _ _
  obtain ⟨hk', hc'⟩ := unclaimed_run acts₂ h₂ hi hk hc
  rw [hrun]
  refine ⟨hk', fun hs => hc' ?_⟩
  obtain ⟨b, hb, rfl⟩ := List.mem_map.1 hs
  exact claims_of_written hb

/-- A `Store` whose entry the cache evicts, saving it, between its `WasUnknown` and its write:
    the write goes to the closed writer, and the second pass loads the saved entry and finds the
    serial known. -/
def lostRun : List World.Action :=
  [.start sampleStore, .exec ⟨sampleStore, .get 0⟩ .ok, .exec ⟨sampleStore, .wasUnknown 0 0⟩ .ok,
    .evict (sampleStore.path sampleConfig) .both, .exec ⟨sampleStore, .write 0 0⟩ .ok,
    .exec ⟨sampleStore, .get 1⟩ .ok, .exec ⟨sampleStore, .wasUnknown 1 1⟩ .ok,
    .exec ⟨sampleStore, .markDirty⟩ .ok]

/-- The same `Store` once more. -/
def storeAgain : List World.Action :=
  [.start sampleStore, .exec ⟨sampleStore, .get 0⟩ .ok, .exec ⟨sampleStore, .wasUnknown 0 1⟩ .ok,
    .exec ⟨sampleStore, .markDirty⟩ .ok]

theorem known_unwritten_never_written_lostRun :
    let w := World.run sampleConfig World.init lostRun
    let p := sampleStore.path sampleConfig
    (∀ a ∈ storeAgain, a.isFaultFree = true) ∧ 5 ∈ (w.current p).known ∧
      5 ∉ (w.writtenAt p).map StoreArgs.serial ∧
      (∀ t ∈ w.threads, t.args.path sampleConfig = p → t.args.serial ≠ 5) ∧
      let w' := World.run sampleConfig World.init (lostRun ++ storeAgain)
      5 ∈ (w'.current p).known ∧ 5 ∉ (w'.writtenAt p).map StoreArgs.serial :=
  ⟨by decide, by decide, by decide, by decide,
    known_unwritten_never_written lostRun storeAgain (by decide) _ 5 (by decide) (by decide)
      (by decide)⟩

-- `lostRun` is fault-free and its `Store` returns `nil`; its eviction hits an entry in use.
example : (∀ a ∈ lostRun, a.isFaultFree = true) ∧
    (World.run sampleConfig World.init lostRun).results = [(sampleStore, .ok)] ∧
    World.safeRun sampleConfig World.init lostRun = false := by
  decide

end Unclaimed

end CtMapReduce.Storage.DiskStore

