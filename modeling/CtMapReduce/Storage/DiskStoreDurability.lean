import CtMapReduce.Storage.DiskStoreShards

/-!
# What a `nil` from `DiskDatabase.Store` promises, and a store at rest

`Store` returns `nil` after `markDirty` (`part_001:367-378`), whether it wrote the certificate or
found its serial known. In a run that is fault-free and evicts no entry a call holds
(`World.safeRun`), a shard knows a serial only while it is claimed (`SafeInv`) and no step gives
a claim up, so a call that returned `nil` has its serial in the shard file or a running call at
its write (`stored_ok_durable`). Whatever fails, such a call has left the `dirty` marker of its
date (`stored_ok_marks_dirty`). A `Cleanup` whose `Save`s succeed loses nothing at a restart
(`cleanup_restart_current`), and `ReconstructIssuerMetadata` on a store so closed, its `Load`s
and `Save`s succeeding, saves back exactly the entry that was there
(`reconstruct_cleanup_unchanged`).
-/

namespace CtMapReduce.Storage.DiskStore
open CtMapReduce.Go FileIssuerMetadata

/-! ## Claims only grow when no entry in use is evicted -/

section Grow

open World

variable {cfg : Config} {w : World} {t : Thread}

/-- `WasUnknown` keeps every claim, and adds the thread's own when it found the serial unknown. -/
theorem claims_wasUnknownStep_le (ht : t ∈ w.threads) {pass id : Nat}
    (hpc : t.pc = .wasUnknown pass id) (o : Outcome) :
    w.claims cfg ≤ (w.wasUnknownStep t pass id o).claims cfg := by
  suffices hok : w.claims cfg ≤ (w.wasUnknownStep t pass id .ok).claims cfg by
    cases o with
    | fail n => exact (claims_finish ht (by simp [hpc]) .error).ge
    | _ => exact hok
  rcases hobj : w.objs[id]? with _ | obj
  · simp only [World.wasUnknownStep, hobj, le_rfl]
  rw [wasUnknownStep_ok hobj]
  set r := wasUnknown obj.entry.known t.args.serial
  set pc : Pc := if r.1 then .write pass id else .markDirty
  have hclaims : _ + Thread.claim cfg w.cache t = _ := claims_moveTo
    { w with objs := w.objs.set id ⟨obj.path, ⟨r.2, obj.entry.meta⟩, obj.closed⟩
             threads := w.moveTo t pc } ht pc rfl rfl rfl
  rw [claim_of_not_write t (by simp [hpc]), add_zero] at hclaims
  rw [hclaims]
  exact Multiset.le_add_right _ _

end Grow

/-! ## A call that returned `nil` -/

section Durable

variable (cfg : Config)

/-- What a call at `markDirty`, or one that returned `nil`, has made sure of: its serial is
    claimed in its shard. -/
structure DurableInv (w : World) : Prop where
  marked : ∀ t ∈ w.threads, t.pc = .markDirty → (t.args.path cfg, t.args.serial) ∈ w.claims cfg
  returned : ∀ a, (a, Result.ok) ∈ w.results → (a.path cfg, a.serial) ∈ w.claims cfg

end Durable

section DurableSteps

open World

variable {cfg : Config} {w : World} {t : Thread}

/-- A step that claims at least as much keeps `DurableInv` when each thread it puts at
    `markDirty`, and each call it returns `nil` from, has its serial claimed. -/
theorem DurableInv.of_le {w' : World} (hd : DurableInv cfg w) (hle : w.claims cfg ≤ w'.claims cfg)
    (hmarked : ∀ t' ∈ w'.threads, t'.pc = .markDirty →
      t' ∈ w.threads ∨ (t'.args.path cfg, t'.args.serial) ∈ w'.claims cfg)
    (hreturned : ∀ a, (a, Result.ok) ∈ w'.results →
      (a, Result.ok) ∈ w.results ∨ (a.path cfg, a.serial) ∈ w'.claims cfg) :
    DurableInv cfg w' where
  marked t' ht' hpc :=
    (hmarked t' ht' hpc).elim (fun h => Multiset.mem_of_le hle (hd.marked t' h hpc)) id
  returned a ha := (hreturned a ha).elim (fun h => Multiset.mem_of_le hle (hd.returned a h)) id

theorem mem_moveTo_markDirty {pc : Pc} (hpc : pc ≠ .markDirty) {t' : Thread}
    (ht' : t' ∈ w.moveTo t pc) (h' : t'.pc = .markDirty) : t' ∈ w.threads := by
  rcases World.mem_moveTo.1 ht' with ht' | rfl
  · exact List.mem_of_mem_erase ht'
  · exact absurd h' hpc

/-- A call that ends with an error keeps `DurableInv`. -/
theorem DurableInv.finish_error (hd : DurableInv cfg w) (hle : w.claims cfg ≤ (w.finish t .error).claims cfg) :
    DurableInv cfg (w.finish t .error) :=
  hd.of_le hle (fun _ ht' _ => .inl (List.mem_of_mem_erase ht')) fun a ha => by
    rcases List.mem_append.1 ha with ha | ha
    · exact .inl ha
    · cases (Prod.mk.inj (List.mem_singleton.1 ha)).2

/-- A thread that moves on to a step other than `markDirty` keeps `DurableInv`. -/
theorem DurableInv.moveTo (hd : DurableInv cfg w) {w' : World} {pc : Pc} (hpc : pc ≠ .markDirty)
    (hle : w.claims cfg ≤ w'.claims cfg) (hthreads : w'.threads = w.moveTo t pc)
    (hresults : w'.results = w.results) : DurableInv cfg w' :=
  hd.of_le hle (fun _ ht' h' => .inl (mem_moveTo_markDirty hpc (hthreads ▸ ht') h'))
    fun _ ha => .inl (hresults ▸ ha)

theorem DurableInv.wasUnknownStep (hs : SafeInv cfg w) (hd : DurableInv cfg w)
    (ht : t ∈ w.threads) {pass id : Nat} (hpc : t.pc = .wasUnknown pass id) (o : Outcome) :
    DurableInv cfg (w.wasUnknownStep t pass id o) := by
  suffices hok : DurableInv cfg (w.wasUnknownStep t pass id .ok) by
    cases o with
    | fail n => exact hd.finish_error (claims_wasUnknownStep_le ht hpc (.fail n))
    | _ => exact hok
  have hle : w.claims cfg ≤ (w.wasUnknownStep t pass id .ok).claims cfg :=
    claims_wasUnknownStep_le ht hpc .ok
  rcases hobj : w.objs[id]? with _ | obj
  · simpa only [World.wasUnknownStep, hobj] using hd
  rw [wasUnknownStep_ok hobj] at hle ⊢
  refine hd.of_le hle (fun t' ht' h' => ?_) fun _ ha => .inl ha
  rcases World.mem_moveTo.1 ht' with ht' | rfl
  · exact .inl (List.mem_of_mem_erase ht')
  -- the serial was known to the cached entry of its shard, so it was claimed there
  right
  have hknown : t.args.serial ∈ obj.entry.known := by
    by_contra hu
    simp [wasUnknown_fst.2 hu] at h'
  have hcur := current_of_lookup (hs.held_cached t ht pass id (.inl hpc)) hobj
  exact Multiset.mem_of_le hle (hs.known_claimed _ _ (hcur ▸ hknown))

theorem DurableInv.writeStep (hi : Inv cfg w) (hs : SafeInv cfg w) (hd : DurableInv cfg w)
    (ht : t ∈ w.threads) {pass id : Nat} (hpc : t.pc = .write pass id) :
    DurableInv cfg (w.writeStep cfg t pass id .ok) := by
  rcases hobj : w.objs[id]? with _ | obj
  · simpa only [World.writeStep, hobj] using hd
  have hcl : obj.closed = false :=
    ((hi.lookup_iff hobj _).1 (hs.held_cached t ht pass id (.inr hpc))).1
  have hsame := claims_writeStep_open hi hobj hcl ht hpc
  have hpath := hi.path_of_write ht hpc hobj
  rw [writeStep_open hobj hcl] at hsame ⊢
  refine hd.of_le hsame.ge (fun t' ht' _ => ?_) fun _ ha => .inl ha
  rcases World.mem_moveTo.1 ht' with ht' | rfl
  · exact .inl (List.mem_of_mem_erase ht')
  -- the write just made puts the serial in the file
  refine .inr (Multiset.mem_add.2 (.inl (Multiset.mem_coe.2 (List.mem_map.2
    ⟨(obj.path, t.args, t.args.block), by simp, ?_⟩))))
  rw [hpath]

theorem DurableInv.markDirtyStep (hd : DurableInv cfg w) (ht : t ∈ w.threads)
    (hpc : t.pc = .markDirty) (o : Outcome) : DurableInv cfg (w.markDirtyStep cfg t o) := by
  have hsame : ∀ r, (w.finish t r).claims cfg = w.claims cfg := claims_finish ht (by simp [hpc])
  cases o with
  | fail n => exact hd.finish_error (hsame .error).ge
  | _ =>
    refine hd.of_le (hsame .ok).ge (fun _ ht' _ => .inl (List.mem_of_mem_erase ht')) fun a ha => ?_
    rcases List.mem_append.1 ha with ha | ha
    · exact .inl ha
    -- the call returning now was at `markDirty`
    · obtain rfl := (Prod.mk.inj (List.mem_singleton.1 ha)).1
      exact .inr ((hsame .ok).symm ▸ hd.marked t ht hpc)

theorem DurableInv.get (hi : Inv cfg w) (hd : DurableInv cfg w) (ht : t ∈ w.threads)
    {pass : Nat} (hpc : t.pc = .get pass) : DurableInv cfg (w.get cfg t pass .ok) := by
  have hle := (claims_get hi ht hpc).ge
  rcases hc : w.cache.lookup (t.args.path cfg) with _ | id
  · rw [get_load hc] at hle ⊢
    exact hd.moveTo (by simp) hle rfl rfl
  · rw [get_hit hc] at hle ⊢
    exact hd.moveTo (by simp) hle rfl rfl

theorem DurableInv.act (hi : Inv cfg w) (hs : SafeInv cfg w) (hd : DurableInv cfg w)
    {a : Action} (ha : w.safeAct cfg a = true) : DurableInv cfg (w.act cfg a) := by
  cases a with
  | start a =>
    refine hd.of_le (claims_start a).ge (fun t' ht' h' => .inl ?_) fun _ ha => .inl ha
    rcases List.mem_append.1 ht' with ht' | ht'
    · exact ht'
    · simp [List.mem_singleton.1 ht'] at h'
  | exec t o =>
    obtain ⟨args, pc⟩ := t
    simp only [World.act]
    split_ifs with ht
    · cases pc with
      | get pass =>
        obtain rfl : o = .ok := by simpa [World.safeAct, Action.isFaultFree] using ha
        exact hd.get hi ht rfl
      | wasUnknown pass id => exact hd.wasUnknownStep hs ht rfl o
      | write pass id =>
        obtain rfl : o = .ok := by simpa [World.safeAct, Action.isFaultFree] using ha
        exact hd.writeStep hi hs ht rfl
      | markDirty => exact hd.markDirtyStep ht rfl o
    · exact hd
  | evict p saves =>
    simp only [World.safeAct, Bool.and_eq_true, Bool.not_eq_true'] at ha
    obtain ⟨hb, hp⟩ := ha
    obtain rfl := beq_iff_eq.1 hb
    obtain ⟨-, hthreads, -, hresults⟩ := evict_frame (w := w) p .both
    exact hd.of_le (claims_evict hp).ge (fun _ ht' _ => .inl (hthreads ▸ ht'))
      fun _ ha => .inl (hresults ▸ ha)
  | restart => cases ha

theorem durableInv_init : DurableInv cfg World.init where
  marked _ ht := by simp [World.init] at ht
  returned _ ha := by simp [World.init] at ha

theorem durableInv_run (acts : List Action) (h : World.safeRun cfg World.init acts = true) :
    DurableInv cfg (World.run cfg World.init acts) := by
  suffices ∀ w, World.safeRun cfg w acts = true → Inv cfg w → SafeInv cfg w → DurableInv cfg w →
      DurableInv cfg (World.run cfg w acts) from
    this _ h inv_init safeInv_init durableInv_init
  clear h
  induction acts with
  | nil => exact fun _ _ _ _ hd => hd
  | cons a acts ih =>
    intro w h hi hs hd
    simp only [World.safeRun, Bool.and_eq_true] at h
    exact ih _ h.2 (hi.act a) (hs.act hi h.1) (hd.act hi hs h.1)

/-- In a fault-free run from an empty root in which the cache never evicts an entry a `Store`
    call holds, every `Store` call that returned `nil` has its serial in its shard file, or a
    running call is at its locked write of that serial to that file. -/
theorem stored_ok_durable (acts : List Action) (h : World.safeRun cfg World.init acts = true)
    (a : StoreArgs) (ha : (a, Result.ok) ∈ (World.run cfg World.init acts).results) :
    let w := World.run cfg World.init acts
    a.serial ∈ (w.writtenAt (a.path cfg)).map StoreArgs.serial ∨
      ∃ t ∈ w.threads, (∃ pass id, t.pc = .write pass id) ∧ t.args.path cfg = a.path cfg ∧
        t.args.serial = a.serial := by
  intro w
  rcases Multiset.mem_add.1 ((durableInv_run acts h).returned a ha) with hx | hx
  · exact .inl (written_of_mem_writes hx)
  · obtain ⟨t, ht, hx⟩ := Multiset.mem_bind.1 hx
    obtain ⟨pass, id, hpc, -, hxe⟩ := mem_claim hx
    obtain ⟨hp, hs⟩ := Prod.mk.inj hxe
    exact .inr ⟨t, Multiset.mem_coe.1 ht, ⟨pass, id, hpc⟩, hp.symm, hs.symm⟩

theorem stored_ok_durable_storeEvictStore :
    World.safeRun sampleConfig World.init storeEvictStore = true ∧
      (sampleStore, Result.ok) ∈ (World.run sampleConfig World.init storeEvictStore).results ∧
      let w := World.run sampleConfig World.init storeEvictStore
      (sampleStore.serial ∈ (w.writtenAt (sampleStore.path sampleConfig)).map StoreArgs.serial ∨
        ∃ t ∈ w.threads, (∃ pass id, t.pc = .write pass id) ∧
          t.args.path sampleConfig = sampleStore.path sampleConfig ∧
          t.args.serial = sampleStore.serial) :=
  ⟨by decide, by decide, stored_ok_durable storeEvictStore (by decide) sampleStore (by decide)⟩

end DurableSteps

/-! ## `dirty` markers -/

/-- Every call that returned `nil` has left the `dirty` marker of its expiration date. -/
def DirtyInv (cfg : Config) (w : World) : Prop :=
  ∀ a, (a, Result.ok) ∈ w.results →
    w.files.lookup (dirtyPath cfg a.cert.parsed.cert.notAfter) = some []

section Dirty

open World

variable {cfg : Config} {w : World} {t : Thread}

/-- A step that returns `nil` from no call and writes no `dirty` marker keeps `DirtyInv`. -/
theorem DirtyInv.of_frame {w' : World} (hd : DirtyInv cfg w)
    (hres : ∀ a, (a, Result.ok) ∈ w'.results → (a, Result.ok) ∈ w.results)
    (hfiles : ∀ e, w'.files.lookup (dirtyPath cfg e) = w.files.lookup (dirtyPath cfg e)) :
    DirtyInv cfg w' :=
  fun a ha => (hfiles _).trans (hd a (hres a ha))

theorem DirtyInv.finish (hd : DirtyInv cfg w) {r : Result} (hr : r ≠ .ok) :
    DirtyInv cfg (w.finish t r) :=
  hd.of_frame (fun _ ha => (List.mem_append.1 ha).resolve_right
    fun h => hr (Prod.mk.inj (List.mem_singleton.1 h)).2.symm) fun _ => rfl

theorem DirtyInv.get (hd : DirtyInv cfg w) (pass : Nat) (o : Outcome) :
    DirtyInv cfg (w.get cfg t pass o) := by
  rcases hc : w.cache.lookup (t.args.path cfg) with _ | id
  · cases o with
    -- the panic restarts the process, whose files stay
    | fail n =>
      simp only [World.get, hc]
      exact hd.of_frame (fun _ ha => by simpa using ha) fun _ => rfl
    | _ => simp only [World.get, hc]; exact hd
  · rw [get_hit hc]; exact hd

theorem DirtyInv.wasUnknownStep (hd : DirtyInv cfg w) (pass id : Nat) (o : Outcome) :
    DirtyInv cfg (w.wasUnknownStep t pass id o) := by
  unfold World.wasUnknownStep
  split
  · exact hd.finish (by simp)
  · split <;> exact hd

/-- A write goes to a shard file, never to a `dirty` marker. -/
theorem DirtyInv.writeStep (hi : Inv cfg w) (hd : DirtyInv cfg w) (ht : t ∈ w.threads)
    {pass id : Nat} (hpc : t.pc = .write pass id) (o : Outcome) :
    DirtyInv cfg (w.writeStep cfg t pass id o) := by
  rcases hobj : w.objs[id]? with _ | obj
  · simpa only [World.writeStep, hobj] using hd
  have hpath := hi.path_of_write ht hpc hobj
  simp only [World.writeStep, hobj]
  refine hd.of_frame (fun _ ha => ha) fun e => ?_
  cases obj.closed
  · simp only [Bool.false_eq_true, if_false]
    exact AList.lookup_insert_ne (hpath ▸ (t.args.path_ne_dirtyPath e).symm)
  · rfl

theorem DirtyInv.markDirtyStep (hd : DirtyInv cfg w) (o : Outcome) :
    DirtyInv cfg (w.markDirtyStep cfg t o) := by
  cases o with
  | fail n => exact hd.finish (by simp)
  | _ =>
    intro a ha
    simp only [World.markDirtyStep, World.finish, List.mem_append, List.mem_singleton] at ha ⊢
    by_cases he : dirtyPath cfg a.cert.parsed.cert.notAfter =
      dirtyPath cfg t.args.cert.parsed.cert.notAfter
    · rw [he, AList.lookup_insert]
    · rw [AList.lookup_insert_ne he]
      rcases ha with ha | ha
      · exact hd a ha
      · exact absurd (by rw [(Prod.mk.inj ha).1]) he

theorem DirtyInv.act (hi : Inv cfg w) (hd : DirtyInv cfg w) (a : Action) :
    DirtyInv cfg (w.act cfg a) := by
  cases a with
  | start a => exact hd
  | exec t o =>
    simp only [World.act]
    split_ifs with ht
    · rcases hpc : t.pc with pass | ⟨pass, id⟩ | ⟨pass, id⟩ | _ <;> simp only [World.exec, hpc]
      · exact hd.get pass o
      · exact hd.wasUnknownStep pass id o
      · exact hd.writeStep hi ht hpc o
      · exact hd.markDirtyStep o
    · exact hd
  | evict p saves =>
    obtain ⟨hfiles, -, -, hresults⟩ := evict_frame (w := w) p saves
    show DirtyInv cfg (w.evict p saves)
    exact hd.of_frame (fun _ ha => hresults ▸ ha) fun _ => by rw [hfiles]
  | restart => exact hd

theorem dirtyInv_run (acts : List Action) : DirtyInv cfg (World.run cfg World.init acts) := by
  suffices ∀ w, Inv cfg w → DirtyInv cfg w → DirtyInv cfg (World.run cfg w acts) from
    this _ inv_init fun _ ha => by simp [World.init] at ha
  induction acts with
  | nil => exact fun _ _ hd => hd
  | cons a acts ih => exact fun w hi hd => ih _ (hi.act a) (hd.act hi a)

/-- In every run from an empty root, whatever fails and however often the process restarts,
    every `Store` call that returned `nil` has left the `dirty` marker of its certificate's
    expiration date, an empty file. -/
theorem stored_ok_marks_dirty (acts : List Action) (a : StoreArgs)
    (ha : (a, Result.ok) ∈ (World.run cfg World.init acts).results) :
    (World.run cfg World.init acts).files.lookup (dirtyPath cfg a.cert.parsed.cert.notAfter) =
      some [] :=
  dirtyInv_run acts a ha

theorem stored_ok_marks_dirty_lostRun :
    (sampleStore, Result.ok) ∈ (World.run sampleConfig World.init lostRun).results ∧
      (World.run sampleConfig World.init lostRun).files.lookup
        (dirtyPath sampleConfig sampleStore.cert.parsed.cert.notAfter) = some [] :=
  ⟨by decide, stored_ok_marks_dirty lostRun sampleStore (by decide)⟩

end Dirty

/-! ## A store at rest -/

section Rest

open World

variable {cfg : Config}

/-- In every run, a `Cleanup` whose every `Save` succeeds persists every shard: if the process
    then stops and starts again, each shard's known serials and metadata are what they were. -/
theorem cleanup_restart_current (acts : List World.Action) (q : Bytes) :
    let w := World.run cfg World.init acts
    ((w.cleanup fun _ => .both).restart).current q = w.current q := by
  intro w
  rw [← load_cleanup (inv_run acts) q]
  simp only [World.current, World.restart, AList.lookup_empty]
  rfl

theorem foldl_wasUnknown_of_mem (certs : List StoreArgs) {k : List Int}
    (h : ∀ b ∈ certs, b.serial ∈ k) : certs.foldl (fun k b => (wasUnknown k b.serial).2) k = k := by
  induction certs with
  | nil => rfl
  | cons b certs ih =>
    simp only [List.foldl_cons, wasUnknown, h b (List.mem_cons_self b certs), if_true]
    exact ih fun b' hb' => h b' (List.mem_cons_of_mem b hb')

/-- After any fault-free run from an empty root and a `Cleanup` whose every `Save` succeeds,
    `ReconstructIssuerMetadata` on a shard file, read in any chunks, returns `nil`, and its
    `Close` saves back the shard's known serials and metadata as they were, when each `Log`
    value holds no newline and does not end with `-----END CERTIFICATE-----`, each block fits the
    scan buffer, and each certificate re-parses. -/
theorem reconstruct_cleanup_unchanged (x509 : Bytes → Option ParsedCertificate)
    (c : Bufio.Chunking) {acts : List Action} (h : ∀ a ∈ acts, a.isFaultFree = true)
    (a : StoreArgs)
    (hlog : ∀ b ∈ (World.run cfg World.init acts).writtenAt (a.path cfg),
      Pem.nl ∉ b.logURL ∧ ¬ascii "-----END CERTIFICATE-----" <:+ b.logURL)
    (hfit : ∀ b ∈ (World.run cfg World.init acts).writtenAt (a.path cfg),
      b.block.length ≤ kScanBufferSize)
    (hparse : ∀ b ∈ (World.run cfg World.init acts).writtenAt (a.path cfg),
      x509 b.cert.raw = some b.cert.parsed) :
    let w := (World.run cfg World.init acts).cleanup fun _ => .both
    ∃ w', w.reconstruct cfg x509 c (a.path cfg) .both .both = some (w', none) ∧
      w'.load = w.load := by
  intro w
  obtain ⟨hi, hf⟩ := faultFreeInv_run acts h
  set w₀ := World.run cfg World.init acts
  have hfiles : w.files = w₀.files := (cleanup_frame fun _ => .both).1
  have hread := reconstruct_writtenAt hi hf x509 c a hlog hfit hparse
  -- every serial written is known, and every certificate written is accumulated already
  have hknown : ∀ b ∈ w₀.writtenAt (a.path cfg), b.serial ∈ (w₀.current (a.path cfg)).known :=
    fun b hb => hf.claims_known _ (claims_of_written hb)
  have hsame : (w.load (a.path cfg)).replay cfg.lib (storedCalls (w₀.writtenAt (a.path cfg))) =
      w.load (a.path cfg) := by
    rw [load_cleanup hi, replay_storedCalls, foldl_wasUnknown_of_mem _ hknown, hf.meta_writes,
      foldl_accumulate_idem cfg.lib (m := newIssuerMetadata) List.sorted_nil, ← hf.meta_writes]
  refine ⟨{ w with saved := w.saved.insert (a.path cfg) (w.load (a.path cfg)) }, ?_,
    funext fun q => ?_⟩
  · simp only [World.reconstruct, hfiles, hread, Entry.loaded_both, hsame, Entry.savedOver_both]
  · by_cases hq : q = a.path cfg
    · subst hq
      exact GoMap.getD_insert_self _ _ _ _
    · exact GoMap.getD_insert_ne _ _ _ hq

theorem reconstruct_cleanup_unchanged_storeTwice :
    let w₀ := World.run sampleConfig World.init storeTwice
    let p := sampleStore.path sampleConfig
    let w := w₀.cleanup fun _ => .both
    (∀ a ∈ storeTwice, a.isFaultFree = true) ∧
      (∀ b ∈ w₀.writtenAt p, Pem.nl ∉ b.logURL ∧ ¬ascii "-----END CERTIFICATE-----" <:+ b.logURL) ∧
      (∀ b ∈ w₀.writtenAt p, b.block.length ≤ kScanBufferSize) ∧
      (∀ b ∈ w₀.writtenAt p, sampleParse b.cert.raw = some b.cert.parsed) ∧
      ∃ w', w.reconstruct sampleConfig sampleParse ⟨fun _ => 1, fun _ => Nat.one_pos⟩ p .both .both =
        some (w', none) ∧ w'.load = w.load := by
  obtain ⟨hlog, hfit, hparse⟩ := storeTwice_blocks
  exact ⟨by decide, hlog, hfit, hparse,
    reconstruct_cleanup_unchanged sampleParse _ (by decide) sampleStore hlog hfit hparse⟩

end Rest

end CtMapReduce.Storage.DiskStore
