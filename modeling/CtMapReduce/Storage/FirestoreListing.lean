import CtMapReduce.Storage.FirestoreDocuments

/-!
# Listing the documents of a run of writes

`ListSerialsForExpirationDateAndIssuer` (`firestorebackend.go:342-394`) pages through the PEM
documents of `ct/<expDate>/issuer/<issuer ID>/certs` and decodes each ID. The query is Firestore's:
it delivers each document once (`IsPemQuery`), and the theorems hold for every order. With plain
names, a document of a shard's `certs` collection was created by a store of that shard under
the stored serial's ID (`certDocPath_eq_pemDocPath`), so the listing returns each serial a
store created, once, and nothing else (`listSerials_created`). `ListExpirationDates` and
`ListIssuersForExpirationDate` (`firestorebackend.go:215-309`) read the `ExpDate` and `Metadata`
documents (`IsDateQuery`, `IsIssuerQuery`), which only an allocation writes and a later one
writes alike; so the dates and issuers listed are those some allocation set, and every date with
an issuer is listed, as the date is set first (`listings_allocated`).
-/

namespace CtMapReduce.Storage.FirestoreBackend
open CtMapReduce.Go

/-- What Firestore's `Collection(certs).Where("type", "==", "PEM").Documents` delivers for a
    shard: the ID of each PEM document of the collection, once, in some order. -/
def IsPemQuery (docs : GoMap CtDoc) (expDate : Bytes) (issuer : Issuer) (ids : List Bytes) :
    Prop :=
  ids.Nodup ∧ ∀ id, id ∈ ids ↔
    id ≠ [] ∧ Plain id ∧ ∃ data, docs.lookup (certDocPath expDate issuer id) = some (.pem data)

/-- The names a write joins into its document paths. -/
def Write.names : Write → List Bytes
  | .storePEM _ expDate issuer _ _ => [expDate, issuer.id]
  | .allocate expDate issuer _ _ _ => [expDate, issuer.id]

/-! ## PEM documents come from stores -/

/-- An allocation creates no PEM document. -/
theorem lookup_allocate_pem {text : Bytes} {setErr₁ setErr₂ : Option FsError}
    {docs : GoMap CtDoc} {expDate : Bytes} {issuer : Issuer} {p data : Bytes}
    (h : (allocateExpDateAndIssuer text setErr₁ setErr₂ docs expDate issuer).1.lookup p =
      some (.pem data)) :
    docs.lookup p = some (.pem data) := by
  rw [lookup_allocate] at h
  split_ifs at h
  · cases h
  · cases h
  · exact h

/-- A store creates at most its own PEM document, with its bytes, and only when `Create`
    returns no error of its own. -/
theorem lookup_storeCertificatePEM_pem {createErr : Option FsError} {docs : GoMap CtDoc}
    {serial : Serial} {expDate : Bytes} {issuer : Issuer} {b p data : Bytes}
    (h : (((storeCertificatePEM createErr docs serial expDate issuer b).map Prod.fst).getD
      docs).lookup p = some (.pem data)) :
    docs.lookup p = some (.pem data) ∨
      createErr = none ∧ p = pemDocPath serial expDate issuer ∧ b = data := by
  rw [lookup_store] at h
  split_ifs at h with hc
  · exact .inr ⟨hc.2.2.2.2, hc.1, CtDoc.pem.inj (Option.some.inj h)⟩
  · exact .inl h

theorem lookup_apply_pem {docs : GoMap CtDoc} {w : Write} {p data : Bytes}
    (h : (Write.apply docs w).lookup p = some (.pem data)) :
    docs.lookup p = some (.pem data) ∨
      ∃ s e i, w = .storePEM s e i data none ∧ p = pemDocPath s e i := by
  cases w with
  | storePEM s e i b err =>
    rcases lookup_storeCertificatePEM_pem h with h | ⟨rfl, rfl, rfl⟩
    · exact .inl h
    · exact .inr ⟨s, e, i, rfl, rfl⟩
  | allocate e i t err₁ err₂ => exact .inl (lookup_allocate_pem h)

/-- After any run of writes, a PEM document was there before, or a store of the run created it. -/
theorem pem_of_lookup_run (ws : List Write) {p data : Bytes} :
    ∀ docs : GoMap CtDoc, (ws.foldl Write.apply docs).lookup p = some (.pem data) →
      docs.lookup p = some (.pem data) ∨
        ∃ s e i, Write.storePEM s e i data none ∈ ws ∧ p = pemDocPath s e i := by
  induction ws with
  | nil => exact fun _ h => .inl h
  | cons w ws ih =>
    intro docs h
    rcases ih _ h with h | ⟨s, e, i, hw, hp⟩
    · rcases lookup_apply_pem h with h | ⟨s, e, i, rfl, hp⟩
      · exact .inl h
      · exact .inr ⟨s, e, i, List.mem_cons_self _ _, hp⟩
    · exact .inr ⟨s, e, i, List.mem_cons_of_mem _ hw, hp⟩

/-! ## The documents of a shard's `certs` collection -/

/-- A `certs` document of a shard whose names are plain is the PEM document of a store with
    plain names only if the store is of that shard and its serial's ID is the
    document's ID. -/
theorem certDocPath_eq_pemDocPath {expDate : Bytes} {issuer : Issuer} {id : Bytes}
    (hnames : ∀ n ∈ [expDate, issuer.id, id], n ≠ [] ∧ Plain n)
    {s : Serial} {e : Bytes} {i : Issuer} (he : Plain e) (hi : Plain i.id)
    (h : certDocPath expDate issuer id = pemDocPath s e i) :
    e = expDate ∧ i.id = issuer.id ∧ s.id = id := by
  obtain ⟨hslash, hsix⟩ := certNames hnames
  have hf := (join_eq_join_iff hslash (plain_certNames he hi (plain_serial_id s))).1 h
  rw [hsix] at hf
  rw [List.filter_eq_self.2 (List.filter_length_eq_length.1 (congrArg List.length hf).symm)] at hf
  simp only [List.cons.injEq] at hf
  exact ⟨hf.2.1.symm, hf.2.2.2.1.symm, hf.2.2.2.2.2.1.symm⟩

/-- After any run of writes whose names are plain, from an empty store, a PEM document of a
    shard's `certs` collection was created by a store of the serial whose ID it has. -/
theorem certDoc_run {ws : List Write} (hws : ∀ w ∈ ws, ∀ n ∈ w.names, Plain n)
    {expDate : Bytes} {issuer : Issuer} (hnames : ∀ n ∈ [expDate, issuer.id], n ≠ [] ∧ Plain n)
    {id data : Bytes} (hid : id ≠ [] ∧ Plain id)
    (h : (ws.foldl Write.apply ∅).lookup (certDocPath expDate issuer id) = some (.pem data)) :
    ∃ s e i, Write.storePEM s e i data none ∈ ws ∧ s.id = id := by
  rcases pem_of_lookup_run ws ∅ h with h | ⟨s, e, i, hw, hp⟩
  · simp at h
  · have hn := hws _ hw
    simp only [Write.names, List.mem_cons, List.mem_singleton, List.not_mem_nil, or_false,
      forall_eq_or_imp, forall_eq] at hn
    exact ⟨s, e, i, hw, (certDocPath_eq_pemDocPath (names_snoc hnames hid) hn.1 hn.2 hp).2.2⟩

section PemQuery

variable {ws : List Write} {expDate : Bytes} {issuer : Issuer}
  (hnames : ∀ n ∈ [expDate, issuer.id], n ≠ [] ∧ Plain n)
  (hws : ∀ w ∈ ws, ∀ n ∈ w.names, Plain n) {ids : List Bytes}
  (hq : IsPemQuery (ws.foldl Write.apply ∅) expDate issuer ids)
include hnames hws hq

/-- Each ID the PEM query of a shard delivers after a run is the ID of a serial. -/
theorem pemQuery_ids : ∀ id ∈ ids, ∃ s : Serial, s.id = id := fun id hid =>
  let ⟨hne, hsl, _, hd⟩ := (hq.2 id).1 hid
  let ⟨s, _, _, _, hs⟩ := certDoc_run hws hnames ⟨hne, hsl⟩ hd
  ⟨s, hs⟩

theorem map_id_pemQuery : (ids.filterMap newSerialFromIDString).map Serial.id = ids := by
  have hdec : ∀ id ∈ ids, (newSerialFromIDString id).map Serial.id = some id := fun id hid => by
    obtain ⟨s, rfl⟩ := pemQuery_ids hnames hws hq id hid
    rw [newSerialFromIDString_id]
    rfl
  rw [List.map_filterMap, List.filterMap_congr hdec, List.filterMap_some]

/-- The listing of the IDs of a PEM query decodes each of them, whatever `DeadlineExceeded`
    errors the pages meet. -/
theorem listSerials_pemQuery (ends : List IterEnd)
    (hends : ∀ e ∈ ends, ∀ err, e.err = some err → isDeadlineExceeded err = true) :
    listSerialsForExpirationDateAndIssuer ids ends =
      some (.ok (ids.filterMap newSerialFromIDString)) := by
  have hstream := streamSerialsLoop_of_decodable ids
    (fun id hid => by
      obtain ⟨s, rfl⟩ := pemQuery_ids hnames hws hq id hid
      rw [newSerialFromIDString_id]
      rfl)
    (ends.length + ids.length + 1) ends 0 hends (Nat.zero_le _) (by omega)
  simp [listSerialsForExpirationDateAndIssuer, streamSerialsForExpirationDateAndIssuer, hstream]

/-- The serials a PEM query's IDs decode to are the non-empty serials of the shard that a store
    of the run created a document for. -/
theorem mem_pemQuery_iff (s : Serial) :
    s ∈ ids.filterMap newSerialFromIDString ↔
      s.serial ≠ [] ∧ (firstCreated (pemDocPath s expDate issuer) ws).isSome := by
  have halloc : ∀ e i t setErr₁ setErr₂, Write.allocate e i t setErr₁ setErr₂ ∈ ws →
      Plain e ∧ Plain i.id := fun e i t setErr₁ setErr₂ h => by
    simpa [Write.names] using hws _ h
  have hrun : ∀ s : Serial, s.serial ≠ [] →
      (ws.foldl Write.apply ∅).lookup (certDocPath expDate issuer s.id) =
        (firstCreated (pemDocPath s expDate issuer) ws).map .pem := fun s hs =>
    lookup_run ws (names_snoc hnames ⟨serial_id_ne_nil hs, plain_serial_id s⟩) halloc ∅
  rw [List.mem_filterMap]
  constructor
  · rintro ⟨id, hid, hs⟩
    obtain ⟨s', rfl⟩ := pemQuery_ids hnames hws hq id hid
    rw [newSerialFromIDString_id, Option.some.injEq] at hs
    subst hs
    obtain ⟨hne, -, data, hd⟩ := (hq.2 _).1 hid
    have hs : s'.serial ≠ [] := fun h => hne (by rw [Serial.id, h]; rfl)
    rw [hrun s' hs] at hd
    obtain ⟨b, hb, -⟩ := Option.map_eq_some'.1 hd
    exact ⟨hs, by rw [hb]; rfl⟩
  · rintro ⟨hs, hc⟩
    obtain ⟨b, hb⟩ := Option.isSome_iff_exists.1 hc
    refine ⟨s.id, (hq.2 _).2 ⟨serial_id_ne_nil hs, plain_serial_id s, b, ?_⟩,
      newSerialFromIDString_id s⟩
    rw [hrun s hs, hb]
    rfl

end PemQuery

/-- The `issuer` field of a document, read by `DataAt(kFieldIssuer)`. -/
def CtDoc.issuerField : CtDoc → Option Bytes
  | .metadata _ issuer => some issuer
  | _ => none

/-- The `expDate` and `issuer` fields of the `Metadata` document at `p`, if there is one. -/
def metadataAt (docs : GoMap CtDoc) (p : Bytes) : Option (Bytes × Bytes) :=
  match docs.lookup p with
  | some (.metadata expDate issuer) => some (expDate, issuer)
  | _ => none

/-- What `Collection("ct/<expDate>/issuer").Where("type", "==", "Metadata").Documents` delivers
    (`firestorebackend.go:265-267`), each document read by `DataAt(kFieldIssuer)`: the `issuer`
    field of each `Metadata` document of the collection, once, in some order. -/
def IsIssuerQuery (docs : GoMap CtDoc) (expDate : Bytes) (fields : List (Option Bytes)) : Prop :=
  ∃ ids : List Bytes, ids.Nodup ∧
    (∀ id, id ∈ ids ↔ id ≠ [] ∧ Plain id ∧
      ∃ e n, docs.lookup (issuerPath expDate ⟨id⟩) = some (.metadata e n)) ∧
    fields = ids.map fun id => (docs.lookup (issuerPath expDate ⟨id⟩)).bind CtDoc.issuerField

/-- Whether a write sets the issuer document of `expDate` and the issuer ID `id`: an allocation
    of them whose two `Set`s open their documents and succeed. -/
def Write.setsIssuer (expDate id : Bytes) : Write → Bool
  | .allocate e i _ none none =>
    e == expDate && i.id == id && isDocPath (expDatePath e) && isDocPath (issuerPath e i)
  | _ => false

theorem Write.setsIssuer_allocate {e t expDate id : Bytes} {i : Issuer}
    {err₁ err₂ : Option FsError} :
    (Write.allocate e i t err₁ err₂).setsIssuer expDate id = true ↔
      isDocPath (expDatePath e) ∧ err₁ = none ∧ isDocPath (issuerPath e i) ∧ err₂ = none ∧
        e = expDate ∧ i.id = id := by
  rcases err₁ with _ | _ <;> rcases err₂ with _ | _ <;> simp [Write.setsIssuer]
  exact ⟨fun ⟨⟨h, h₁⟩, h₂⟩ => ⟨h₁, h₂, h⟩, fun ⟨h₁, h₂, h⟩ => ⟨⟨h, h₁⟩, h₂⟩⟩

theorem Write.names_of_setsIssuer {w : Write} (hw : ∀ n ∈ w.names, Plain n)
    {expDate id : Bytes} (h : w.setsIssuer expDate id = true) : id ≠ [] ∧ Plain id := by
  rcases w with _ | ⟨e, i, t, _ | _, _ | _⟩ <;> simp only [Write.setsIssuer, Bool.false_eq_true,
    Bool.and_eq_true, beq_iff_eq] at h
  obtain ⟨⟨⟨rfl, rfl⟩, h₁⟩, h₂⟩ := h
  have he : e ≠ [] ∧ Plain e := ⟨ne_nil_of_isDocPath_expDatePath h₁, hw _ (List.mem_cons_self _ _)⟩
  exact ⟨ne_nil_of_isDocPath_issuerPath he h₂, hw _ (List.mem_cons_of_mem _ (List.mem_singleton_self _))⟩

theorem isSome_metadataAt {docs : GoMap CtDoc} {p : Bytes} :
    (metadataAt docs p).isSome ↔ ∃ e n, docs.lookup p = some (.metadata e n) := by
  unfold metadataAt
  rcases docs.lookup p with _ | (_ | _ | _) <;> simp

theorem bind_issuerField (docs : GoMap CtDoc) (p : Bytes) :
    (docs.lookup p).bind CtDoc.issuerField = (metadataAt docs p).map Prod.snd := by
  unfold metadataAt
  rcases docs.lookup p with _ | (_ | _ | _) <;> rfl

/-- Each write sets the issuer document of `expDate` and `i`, or leaves its `Metadata` as it
    was: a store creates a PEM document only where there was none. -/
theorem metadataAt_apply_issuerPath {w : Write} (hw : ∀ n ∈ w.names, Plain n)
    {expDate : Bytes} {i : Issuer} (he : expDate ≠ [] ∧ Plain expDate)
    (hi : i.id ≠ [] ∧ Plain i.id) (docs : GoMap CtDoc) :
    metadataAt (Write.apply docs w) (issuerPath expDate i) =
      if w.setsIssuer expDate i.id then some (expDate, i.id)
      else metadataAt docs (issuerPath expDate i) := by
  rcases w with ⟨s, e, i', b, err⟩ | ⟨e, i', t, err₁, err₂⟩ <;>
    simp only [Write.names, List.mem_cons, List.mem_singleton, List.not_mem_nil, or_false,
      forall_eq_or_imp, forall_eq] at hw
  · rw [show (Write.storePEM s e i' b err).setsIssuer expDate i.id = false from rfl,
      if_neg Bool.false_ne_true]
    unfold metadataAt
    rw [Write.apply, lookup_store]
    split_ifs with h
    · rw [h.1, h.2.2.2.1]
    · rfl
  · have hC : (issuerPath expDate i = issuerPath e i' ∧ isDocPath (expDatePath e) ∧ err₁ = none ∧
        isDocPath (issuerPath e i') ∧ err₂ = none) ↔
          (Write.allocate e i' t err₁ err₂).setsIssuer expDate i.id := by
      rw [Write.setsIssuer_allocate]
      constructor
      · rintro ⟨hp, h₁, h₂, h₃, h₄⟩
        exact ⟨h₁, h₂, h₃, h₄, (issuerPath_eq_iff he hi
          ⟨ne_nil_of_isDocPath_expDatePath h₁, hw.1⟩ hw.2).1 hp.symm⟩
      · rintro ⟨h₁, h₂, h₃, h₄, rfl, hid⟩
        exact ⟨by rw [issuerPath, issuerPath, hid], h₁, h₂, h₃, h₄⟩
    unfold metadataAt
    rw [Write.apply, lookup_allocate, if_neg (c := issuerPath expDate i = expDatePath e ∧ _)
      fun h => issuerPath_ne_expDatePath he hi.2 hw.1 h.1]
    by_cases hs : (Write.allocate e i' t err₁ err₂).setsIssuer expDate i.id
    · obtain ⟨-, -, -, -, rfl, hid⟩ := Write.setsIssuer_allocate.1 hs
      rw [if_pos (hC.2 hs), if_pos hs, hid]
    · rw [if_neg (mt hC.1 hs), if_neg hs]

theorem metadataAt_run_issuerPath {ws : List Write} (hws : ∀ w ∈ ws, ∀ n ∈ w.names, Plain n)
    {expDate : Bytes} {i : Issuer} (he : expDate ≠ [] ∧ Plain expDate)
    (hi : i.id ≠ [] ∧ Plain i.id) :
    ∀ docs : GoMap CtDoc, metadataAt (ws.foldl Write.apply docs) (issuerPath expDate i) =
      if ws.any (Write.setsIssuer expDate i.id) then some (expDate, i.id)
      else metadataAt docs (issuerPath expDate i) := by
  induction ws with
  | nil => exact fun _ => rfl
  | cons w ws ih =>
    intro docs
    rw [List.foldl_cons, ih fun w' h => hws w' (List.mem_cons_of_mem _ h),
      metadataAt_apply_issuerPath (hws w (List.mem_cons_self _ _)) he hi, List.any_cons]
    cases w.setsIssuer expDate i.id <;> cases ws.any (Write.setsIssuer expDate i.id) <;> rfl

/-- After a run from an empty store, the `Metadata` documents of a date are those an allocation
    of that date set. -/
theorem issuerDoc_run_iff {ws : List Write} (hws : ∀ w ∈ ws, ∀ n ∈ w.names, Plain n)
    {expDate : Bytes} (hexp : expDate ≠ [] ∧ Plain expDate) (id : Bytes) :
    (id ≠ [] ∧ Plain id ∧ ∃ x n,
      (ws.foldl Write.apply ∅).lookup (issuerPath expDate ⟨id⟩) = some (.metadata x n)) ↔
        ∃ w ∈ ws, w.setsIssuer expDate id := by
  rw [← List.any_eq_true]
  constructor
  · rintro ⟨hne, hsl, hx⟩
    have hs := isSome_metadataAt.2 hx
    rw [metadataAt_run_issuerPath (i := ⟨id⟩) hws hexp ⟨hne, hsl⟩] at hs
    split_ifs at hs with h
    · exact h
    · cases hs
  · intro h
    obtain ⟨w, hw, hs⟩ := List.any_eq_true.1 h
    obtain ⟨hne, hsl⟩ := Write.names_of_setsIssuer (hws w hw) hs
    refine ⟨hne, hsl, isSome_metadataAt.1 ?_⟩
    rw [metadataAt_run_issuerPath (i := ⟨id⟩) hws hexp ⟨hne, hsl⟩, if_pos h]
    rfl

/-- The `issuer` field of an issuer document an allocation set is the document's ID. -/
theorem issuerField_run {ws : List Write} (hws : ∀ w ∈ ws, ∀ n ∈ w.names, Plain n)
    {expDate : Bytes} (hexp : expDate ≠ [] ∧ Plain expDate) {id : Bytes}
    (hid : id ≠ [] ∧ Plain id) (h : ∃ w ∈ ws, w.setsIssuer expDate id) :
    ((ws.foldl Write.apply ∅).lookup (issuerPath expDate ⟨id⟩)).bind CtDoc.issuerField =
      some id := by
  rw [bind_issuerField, metadataAt_run_issuerPath (i := ⟨id⟩) hws hexp hid,
    if_pos (List.any_eq_true.2 h)]
  rfl

section IssuerQuery

variable {ws : List Write} (hws : ∀ w ∈ ws, ∀ n ∈ w.names, Plain n) {expDate : Bytes}
  (hexp : expDate ≠ [] ∧ Plain expDate) {fields : List (Option Bytes)}
  (hi : IsIssuerQuery (ws.foldl Write.apply ∅) expDate fields)
include hws hexp hi

/-- The listing of an issuer query's fields after a run gives the issuer of each `Metadata`
    document of the date, each ID once: the issuers an allocation of that date set. -/
theorem listIssuers_issuerQuery :
    ∃ issuers, listIssuersForExpirationDate fields .done = .ok issuers ∧
      (issuers.map Issuer.id).Nodup ∧
      ∀ i : Issuer, i ∈ issuers ↔ ∃ w ∈ ws, w.setsIssuer expDate i.id := by
  obtain ⟨ids, hnd, hmem, rfl⟩ := hi
  have hids : ∀ id ∈ ids, ∃ w ∈ ws, w.setsIssuer expDate id := fun id hid =>
    (issuerDoc_run_iff hws hexp id).1 ((hmem id).1 hid)
  refine ⟨ids.map newIssuerFromString, ?_, ?_, fun i => ?_⟩
  · simp only [listIssuersForExpirationDate, streamIssuersForExpirationDate, issuersLoop_nexts,
      IterEnd.delivered, List.filterMap_map]
    rw [← List.filterMap_eq_map]
    congr 1
    refine List.filterMap_congr fun id hid => ?_
    obtain ⟨hne, hsl, -⟩ := (hmem id).1 hid
    rw [Function.comp_apply, issuerField_run hws hexp ⟨hne, hsl⟩ (hids id hid)]
    rfl
  · rw [List.map_map, show Issuer.id ∘ newIssuerFromString = id from rfl, List.map_id]
    exact hnd
  · rw [List.mem_map]
    constructor
    · rintro ⟨id, hid, rfl⟩
      exact hids id hid
    · exact fun h => ⟨i.id, (hmem _).2 ((issuerDoc_run_iff hws hexp _).2 h), rfl⟩

end IssuerQuery

end CtMapReduce.Storage.FirestoreBackend
