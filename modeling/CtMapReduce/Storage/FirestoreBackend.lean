import CtMapReduce.Storage.Types

/-!
# `FirestoreBackend`

The document-store backend of `storage/firestorebackend.go`, as far as its control flow goes:
the producers of the three streams, the `List` wrappers that drain them, the paged query loop
of the serial stream, and the log checkpoints. A query is the list of documents it matches, in
index order, and one run of its iterator delivers them until `iterator.Done` or an error after
some prefix (`IterEnd`). `StreamSerialsForExpirationDateAndIssuer` reissues the query
`Limit(4096)` at a growing `Offset`, each run ending as the schedule `ends` says; the model runs
that loop with fuel, which always suffices (`streamSerialsLoop_isSome`). The offset advances by
the serials sent, not the documents read: when every ID decodes, a schedule of
`DeadlineExceeded` errors yields each serial once (`streamSerials_of_decodable`), and an ID that
does not decode makes pages overlap. `sha256` in `logNameToId` and the `Local` location of
`time.Unix` are taken as given.
-/

namespace CtMapReduce.Storage
open CtMapReduce.Go

/-- The gRPC status codes the backend tests for (`codes.NotFound`, `codes.AlreadyExists`). -/
inductive Code where
  | notFound
  | alreadyExists
  | other
  deriving DecidableEq, Repr

/-- An error of a Firestore call: its status code and its `Error()` text. -/
structure FsError where
  code : Code
  text : Bytes
  deriving DecidableEq, Repr

/-- `strings.Contains(s, substr)`. -/
def stringsContains (s substr : Bytes) : Bool :=
  (List.range (s.length + 1)).any fun i => substr.isPrefixOf (s.drop i)

/-- What one `iter.Next()` returns: a document, a nil document with no error, `Done`, or an
    error. -/
inductive Next (D : Type) where
  | doc (d : D)
  | nilDoc
  | done
  | error (e : FsError)

/-- How one run of a query's iterator ends: with `iterator.Done` after every document, or with
    an error after the first `n`. -/
inductive IterEnd where
  | done
  | error (n : Nat) (e : FsError)
  deriving DecidableEq, Repr

namespace IterEnd

/-- The documents the run delivers before it ends. -/
def delivered {D : Type} (result : List D) : IterEnd → List D
  | .done => result
  | .error n _ => result.take n

/-- The error the run ends with. -/
def err : IterEnd → Option FsError
  | .done => none
  | .error _ e => some e

/-- The successive returns of `iter.Next()` over a query with result `result`. -/
def nexts {D : Type} (result : List D) (e : IterEnd) : List (Next D) :=
  (e.delivered result).map .doc ++ [match e with | .done => .done | .error _ err => .error err]

theorem delivered_take {D : Type} (e : IterEnd) (l : List D) (k : Nat) :
    ∃ m, e.delivered (l.take k) = l.take m ∧ (e.err = none → m = k) := by
  cases e with
  | done => exact ⟨k, rfl, fun _ => rfl⟩
  | error n err => exact ⟨min n k, List.take_take n k l, by simp [IterEnd.err]⟩

theorem delivered_sublist {D : Type} (e : IterEnd) (l : List D) :
    List.Sublist (e.delivered l) l := by
  cases e with
  | done => exact List.Sublist.refl l
  | error n _ => exact List.take_sublist n l

end IterEnd

namespace FirestoreBackend

/-- `Limit(4096)` of the serial query (`firestorebackend.go:351`). -/
def kLimit : Nat := 4096

/-- `fmt.Errorf("nil document returned")`. -/
def nilDocumentError : FsError := ⟨.other, ascii "nil document returned"⟩

/-! ## Serials -/

/-- `processSerialDocumentQuery` (`firestorebackend.go:311-340`): the serials sent on the
    channel, the error returned, and `count`, the number of serials sent. A document ID that
    `NewSerialFromIDString` rejects is skipped without being counted. -/
def processSerialDocumentQuery : List (Next Bytes) → List Serial × Option FsError × Nat
  | [] => ([], none, 0)
  | .done :: _ => ([], none, 0)
  | .error err :: _ => ([], some err, 0)
  | .nilDoc :: _ => ([], some nilDocumentError, 0)
  | .doc id :: rest =>
    match newSerialFromIDString id with
    | none => processSerialDocumentQuery rest
    | some serialObj =>
      let (sent, err, count) := processSerialDocumentQuery rest
      (serialObj :: sent, err, count + 1)

/-- `strings.Contains(err.Error(), "DeadlineExceeded")`. -/
def isDeadlineExceeded (err : FsError) : Bool := stringsContains err.text (ascii "DeadlineExceeded")

/-- The producer loop of `StreamSerialsForExpirationDateAndIssuer`
    (`firestorebackend.go:353-374`) over the shard's documents `docs`: the serials it sends
    before it returns and the deferred `close(c)` runs, or `none` when the fuel runs out. -/
def streamSerialsLoop (docs : List Bytes) : Nat → List IterEnd → Nat → Option (List Serial)
  | 0, _, _ => none
  | fuel + 1, ends, offset =>
    let (e, rest) := match ends with
      | [] => (IterEnd.done, [])
      | e :: rest => (e, rest)
    let (sent, err, count) :=
      processSerialDocumentQuery (e.nexts ((docs.drop offset).take kLimit))
    let offset := offset + count
    match err with
    | some err =>
      if isDeadlineExceeded err then (streamSerialsLoop docs fuel rest offset).map (sent ++ ·)
      else some sent
    | none =>
      if count = 0 then some sent else (streamSerialsLoop docs fuel rest offset).map (sent ++ ·)

/-- `StreamSerialsForExpirationDateAndIssuer` (`firestorebackend.go:342-378`): the channel
    holds what the producer sent, and is closed. -/
def streamSerialsForExpirationDateAndIssuer (docs : List Bytes) (ends : List IterEnd) :
    Option (Stream Serial) :=
  (streamSerialsLoop docs (ends.length + docs.length + 1) ends 0).map (⟨·, true⟩)

/-- `ListSerialsForExpirationDateAndIssuer` (`firestorebackend.go:380-394`): everything the
    stream delivers, with a nil error. -/
def listSerialsForExpirationDateAndIssuer (docs : List Bytes) (ends : List IterEnd) :
    Option (Except FsError (List Serial)) :=
  (streamSerialsForExpirationDateAndIssuer docs ends).map fun c => .ok c.sent

/-! ## Expiration dates and issuers -/

/-- The producer loop of `StreamExpirationDates` (`firestorebackend.go:224-239`): the ID of
    each document, until `Done`, an error, or a nil document. -/
def expirationDatesLoop : List (Next Bytes) → List Bytes
  | .doc id :: rest => id :: expirationDatesLoop rest
  | _ => []

/-- `StreamExpirationDates` (`firestorebackend.go:215-243`) over the `ExpDate` documents of
    `ct`; `aNotBefore` is not read. -/
def streamExpirationDates (_aNotBefore : Time) (dates : List Bytes) (e : IterEnd) :
    Stream Bytes :=
  ⟨expirationDatesLoop (e.nexts dates), true⟩

/-- `ListExpirationDates` (`firestorebackend.go:245-257`). -/
def listExpirationDates (aNotBefore : Time) (dates : List Bytes) (e : IterEnd) :
    Except FsError (List Bytes) :=
  .ok (streamExpirationDates aNotBefore dates e).sent

/-- The producer loop of `StreamIssuersForExpirationDate` (`firestorebackend.go:269-290`) over
    the `issuer` field of each document; a document without one is logged and skipped. -/
def issuersLoop : List (Next (Option Bytes)) → List Issuer
  | .doc none :: rest => issuersLoop rest
  | .doc (some name) :: rest => newIssuerFromString name :: issuersLoop rest
  | _ => []

/-- `StreamIssuersForExpirationDate` (`firestorebackend.go:259-294`) over the `Metadata`
    documents of `ct/<expDate>/issuer`, each given by its `issuer` field. -/
def streamIssuersForExpirationDate (docs : List (Option Bytes)) (e : IterEnd) : Stream Issuer :=
  ⟨issuersLoop (e.nexts docs), true⟩

/-- `ListIssuersForExpirationDate` (`firestorebackend.go:296-309`). -/
def listIssuersForExpirationDate (docs : List (Option Bytes)) (e : IterEnd) :
    Except FsError (List Issuer) :=
  .ok (streamIssuersForExpirationDate docs e).sent

/-! ## Log checkpoints -/

/-- The fields `StoreLogState` writes: `shortUrl`, `data` (`MaxEntry`) and `unixTime`. -/
structure LogDoc where
  shortURL : Bytes
  data : Int
  unixTime : Int
  deriving DecidableEq, Repr

/-- `filepath.Join("logs", logNameToId(url))`; `logNameToId` (`firestorebackend.go:94-97`), the
    raw URL-safe base64 of the SHA-256 of the URL, is taken as given. -/
def logPath (logNameToId : Bytes → Bytes) (url : Bytes) : Bytes :=
  ascii "logs/" ++ logNameToId url

/-- `StoreLogState` (`firestorebackend.go:99-114`): `doc.Set` of the checkpoint's fields,
    unless it returns the error `setErr`. -/
def storeLogState (logNameToId : Bytes → Bytes) (setErr : Option FsError) (docs : GoMap LogDoc)
    (log : CertificateLog) : GoMap LogDoc × Option FsError :=
  match setErr with
  | some err => (docs, some err)
  | none =>
    (docs.insert (logPath logNameToId log.shortURL)
      ⟨log.shortURL, log.maxEntry, log.lastEntryTime.sec⟩, none)

/-- `LoadLogState` (`firestorebackend.go:173-213`): `doc.Get` fails with `getErr`, or with
    `NotFound` for a missing document, which gives the zero checkpoint of the URL; the time is
    `time.Unix(sec, 0)`, in the `Local` location `localLoc`. -/
def loadLogState (logNameToId : Bytes → Bytes) (localLoc : Location) (getErr : Option FsError)
    (docs : GoMap LogDoc) (logURL : Bytes) : Except FsError CertificateLog :=
  let docsnap : Except FsError LogDoc :=
    match getErr with
    | some err => .error err
    | none =>
      match docs.lookup (logPath logNameToId logURL) with
      | some d => .ok d
      | none => .error ⟨.notFound, ascii "not found"⟩
  match docsnap with
  | .error err => if err.code = .notFound then .ok ⟨logURL, 0, Time.zero⟩ else .error err
  | .ok d => .ok ⟨d.shortURL, d.data, ⟨d.unixTime, 0, localLoc⟩⟩

/-! ## One query -/

/-- `processSerialDocumentQuery` sends the serials of the documents it reads, in order, after
    which it returns what the rest of the iterator makes it return. -/
theorem processSerialDocumentQuery_docs (ids : List Bytes) (last : List (Next Bytes)) :
    processSerialDocumentQuery (ids.map .doc ++ last) =
      (ids.filterMap newSerialFromIDString ++ (processSerialDocumentQuery last).1,
        (processSerialDocumentQuery last).2.1,
        (ids.filterMap newSerialFromIDString).length + (processSerialDocumentQuery last).2.2) := by
  induction ids with
  | nil => simp
  | cons id ids ih =>
    rcases h : newSerialFromIDString id with _ | s <;>
      simp [processSerialDocumentQuery, List.filterMap_cons, h, ih, Nat.add_right_comm]

/-- The spec of one query: the serials of the delivered documents, the run's error, and their
    number as `count`. -/
theorem processSerialDocumentQuery_nexts (page : List Bytes) (e : IterEnd) :
    processSerialDocumentQuery (e.nexts page) =
      ((e.delivered page).filterMap newSerialFromIDString, e.err,
        ((e.delivered page).filterMap newSerialFromIDString).length) := by
  cases e <;> simp [IterEnd.nexts, processSerialDocumentQuery_docs, processSerialDocumentQuery,
    IterEnd.err]

/-- One turn of the producer loop, with the query spec applied: the run of the query ends as
    the head of the schedule says (`Done` past its end), and the rest of the schedule is left. -/
theorem streamSerialsLoop_succ (docs : List Bytes) (fuel : Nat) (ends : List IterEnd)
    (offset : Nat) :
    streamSerialsLoop docs (fuel + 1) ends offset =
      let e := ends.headD .done
      let sent := (e.delivered ((docs.drop offset).take kLimit)).filterMap newSerialFromIDString
      match e.err with
      | some err =>
        if isDeadlineExceeded err then
          (streamSerialsLoop docs fuel ends.tail (offset + sent.length)).map (sent ++ ·)
        else some sent
      | none =>
        if sent.length = 0 then some sent
        else (streamSerialsLoop docs fuel ends.tail (offset + sent.length)).map (sent ++ ·) := by
  cases ends <;> simp only [streamSerialsLoop, processSerialDocumentQuery_nexts] <;> rfl

/-- A turn that uses up a scheduled run of the query, or sends a serial, brings the loop closer
    to its end. -/
theorem tail_measure_lt {ends : List IterEnd} {n k fuel : Nat} (hk : k ≤ n)
    (hne : ends ≠ [] ∨ k ≠ 0) (hfuel : ends.length + n < fuel + 1) :
    ends.tail.length + (n - k) < fuel := by
  rw [List.length_tail]
  rcases hne with hne | hne
  · have := List.length_pos.2 hne
    omega
  · omega

theorem length_delivered_page_le (docs : List Bytes) (offset : Nat) (e : IterEnd) :
    ((e.delivered ((docs.drop offset).take kLimit)).filterMap newSerialFromIDString).length ≤
      docs.length - offset :=
  calc _ ≤ (e.delivered ((docs.drop offset).take kLimit)).length := List.length_filterMap_le _ _
    _ ≤ ((docs.drop offset).take kLimit).length := (e.delivered_sublist _).length_le
    _ ≤ docs.length - offset := by simp

/-! ## The stream -/

/-- The fuel `StreamSerialsForExpirationDateAndIssuer` is given is enough: every turn of the
    loop uses up a scheduled run of the query, or sends a serial past the last offset. -/
theorem streamSerialsLoop_isSome (docs : List Bytes) :
    ∀ fuel ends offset, offset ≤ docs.length → ends.length + (docs.length - offset) < fuel →
      (streamSerialsLoop docs fuel ends offset).isSome := by
  intro fuel
  induction fuel with
  | zero => intros; omega
  | succ fuel ih =>
    intro ends offset hoff hfuel
    rw [streamSerialsLoop_succ]
    dsimp only
    have hsent := length_delivered_page_le docs offset (ends.headD .done)
    have hrec : ∀ sent : List Serial, sent.length ≤ docs.length - offset →
        ends ≠ [] ∨ sent.length ≠ 0 →
        ((streamSerialsLoop docs fuel ends.tail (offset + sent.length)).map (sent ++ ·)).isSome :=
      fun sent hle hne => by
        rw [Option.isSome_map']
        have := tail_measure_lt hle hne hfuel
        exact ih _ _ (by omega) (by omega)
    split
    · rename_i herr
      split
      · exact hrec _ hsent (.inl fun h => by simp [h, IterEnd.err] at herr)
      · rfl
    · split
      · rfl
      · exact hrec _ hsent (.inr ‹_›)

theorem length_filterMap_of_isSome {l : List Bytes}
    (h : ∀ d ∈ l, (newSerialFromIDString d).isSome) :
    (l.filterMap newSerialFromIDString).length = l.length := by
  induction l with
  | nil => rfl
  | cons d l ih =>
    obtain ⟨s, hs⟩ := Option.isSome_iff_exists.1 (h d (List.mem_cons_self d l))
    simp [List.filterMap_cons, hs, ih fun d hd => h d (List.mem_cons_of_mem _ hd)]

theorem drop_length_take {α : Type} (l : List α) (m : Nat) :
    l.drop (l.take m).length = l.drop m := by
  rw [List.length_take]
  rcases le_total m l.length with h | h
  · rw [Nat.min_eq_left h]
  · rw [Nat.min_eq_right h, List.drop_length, List.drop_eq_nil_of_le h]

/-- When every document ID decodes and every error is `DeadlineExceeded`, the offset counts
    exactly the documents read, so the loop sends each serial from `offset` on once, in order. -/
theorem streamSerialsLoop_of_decodable (docs : List Bytes)
    (hd : ∀ d ∈ docs, (newSerialFromIDString d).isSome) :
    ∀ fuel ends offset,
      (∀ e ∈ ends, ∀ err, e.err = some err → isDeadlineExceeded err = true) →
      offset ≤ docs.length → ends.length + (docs.length - offset) < fuel →
      streamSerialsLoop docs fuel ends offset =
        some ((docs.drop offset).filterMap newSerialFromIDString) := by
  intro fuel
  induction fuel with
  | zero => intros; omega
  | succ fuel ih =>
    intro ends offset hdl hoff hfuel
    rw [streamSerialsLoop_succ]
    dsimp only
    obtain ⟨m, hm, hdone⟩ := (ends.headD .done).delivered_take (docs.drop offset) kLimit
    rw [hm]
    have hall : ∀ d ∈ (docs.drop offset).take m, (newSerialFromIDString d).isSome :=
      fun d h => hd d (List.mem_of_mem_drop (List.mem_of_mem_take h))
    rw [length_filterMap_of_isSome hall]
    have hsplit : ((docs.drop offset).take m).filterMap newSerialFromIDString ++
        (docs.drop (offset + ((docs.drop offset).take m).length)).filterMap
          newSerialFromIDString = (docs.drop offset).filterMap newSerialFromIDString := by
      rw [← List.drop_drop, drop_length_take, ← List.filterMap_append, List.take_append_drop]
    have hk : ((docs.drop offset).take m).length ≤ docs.length - offset := by simp
    have hrec : ends ≠ [] ∨ ((docs.drop offset).take m).length ≠ 0 →
        (streamSerialsLoop docs fuel ends.tail (offset + ((docs.drop offset).take m).length)).map
          (((docs.drop offset).take m).filterMap newSerialFromIDString ++ ·) =
          some ((docs.drop offset).filterMap newSerialFromIDString) := fun hne => by
      have := tail_measure_lt hk hne hfuel
      rw [ih _ _ (fun e' h => hdl e' (List.mem_of_mem_tail h)) (by omega) (by omega),
        Option.map_some', hsplit]
    split
    · next err herr =>
      cases ends with
      | nil => simp [IterEnd.err] at herr
      | cons e rest =>
        rw [if_pos (hdl e (List.mem_cons_self e rest) err herr)]
        exact hrec (.inl (List.cons_ne_nil e rest))
    · next herr =>
      split
      · next h0 =>
        rw [hdone herr] at h0 ⊢
        have : docs.drop offset = [] :=
          List.drop_eq_nil_of_le (by simp [kLimit] at h0; omega)
        simp [this]
      · next h0 => exact hrec (.inr h0)

/-- When every document ID decodes, whatever the errors, the offset counts the documents read,
    so the loop sends the serials of a prefix of the documents from `offset` on. -/
theorem streamSerialsLoop_prefix (docs : List Bytes)
    (hd : ∀ d ∈ docs, (newSerialFromIDString d).isSome) :
    ∀ fuel ends offset, offset ≤ docs.length → ends.length + (docs.length - offset) < fuel →
      ∃ k, streamSerialsLoop docs fuel ends offset =
        some (((docs.drop offset).take k).filterMap newSerialFromIDString) := by
  intro fuel
  induction fuel with
  | zero => intros; omega
  | succ fuel ih =>
    intro ends offset hoff hfuel
    rw [streamSerialsLoop_succ]
    dsimp only
    obtain ⟨m, hm, -⟩ := (ends.headD .done).delivered_take (docs.drop offset) kLimit
    rw [hm]
    have hall : ∀ d ∈ (docs.drop offset).take m, (newSerialFromIDString d).isSome :=
      fun d h => hd d (List.mem_of_mem_drop (List.mem_of_mem_take h))
    rw [length_filterMap_of_isSome hall]
    have hk : ((docs.drop offset).take m).length ≤ docs.length - offset := by simp
    have hrec : ends ≠ [] ∨ ((docs.drop offset).take m).length ≠ 0 →
        ∃ k, (streamSerialsLoop docs fuel ends.tail
          (offset + ((docs.drop offset).take m).length)).map
            (((docs.drop offset).take m).filterMap newSerialFromIDString ++ ·) =
          some (((docs.drop offset).take k).filterMap newSerialFromIDString) := fun hne => by
      have := tail_measure_lt hk hne hfuel
      obtain ⟨k, hk'⟩ :=
        ih ends.tail (offset + ((docs.drop offset).take m).length) (by omega) (by omega)
      refine ⟨m + k, ?_⟩
      rw [hk', Option.map_some', ← List.drop_drop, drop_length_take, List.take_add,
        List.filterMap_append]
    split
    · next err herr =>
      split
      · exact hrec (.inl fun h => by simp [h, IterEnd.err] at herr)
      · exact ⟨m, rfl⟩
    · split
      · exact ⟨m, rfl⟩
      · next h0 => exact hrec (.inr h0)

/-- What the loop sends is decoded from documents of the shard. -/
theorem streamSerialsLoop_sound (docs : List Bytes) :
    ∀ fuel ends offset l, streamSerialsLoop docs fuel ends offset = some l →
      ∀ s ∈ l, ∃ d ∈ docs, newSerialFromIDString d = some s := by
  intro fuel
  induction fuel with
  | zero => intro _ _ _ h; simp [streamSerialsLoop] at h
  | succ fuel ih =>
    intro ends offset l h s hs
    rw [streamSerialsLoop_succ] at h
    dsimp only at h
    have hsent : ∀ s ∈ ((ends.headD .done).delivered ((docs.drop offset).take kLimit)).filterMap
        newSerialFromIDString, ∃ d ∈ docs, newSerialFromIDString d = some s := by
      intro s hs
      obtain ⟨d, hd, hds⟩ := List.mem_filterMap.1 hs
      exact ⟨d, List.mem_of_mem_drop (List.mem_of_mem_take
        (((ends.headD .done).delivered_sublist _).subset hd)), hds⟩
    have hmap : ∀ o : Option (List Serial), ∀ sent : List Serial,
        (∀ s ∈ sent, ∃ d ∈ docs, newSerialFromIDString d = some s) →
        (∀ l', o = some l' → ∀ s ∈ l', ∃ d ∈ docs, newSerialFromIDString d = some s) →
        o.map (sent ++ ·) = some l → ∃ d ∈ docs, newSerialFromIDString d = some s := by
      intro o sent h1 h2 ho
      obtain ⟨l', hl', rfl⟩ := Option.map_eq_some'.1 ho
      rcases List.mem_append.1 hs with hs | hs
      · exact h1 s hs
      · exact h2 l' hl' s hs
    split at h
    · split at h
      · exact hmap _ _ hsent (ih ends.tail _) h
      · exact hsent s (Option.some.inj h ▸ hs)
    · split at h
      · exact hsent s (Option.some.inj h ▸ hs)
      · exact hmap _ _ hsent (ih ends.tail _) h

/-- With every document ID decodable and only `DeadlineExceeded` errors, the stream delivers
    each serial of the shard once, in index order, and is closed. -/
theorem streamSerials_of_decodable (docs : List Bytes) (ends : List IterEnd)
    (hd : ∀ d ∈ docs, (newSerialFromIDString d).isSome)
    (he : ∀ e ∈ ends, ∀ err, e.err = some err → isDeadlineExceeded err = true) :
    streamSerialsForExpirationDateAndIssuer docs ends =
      some ⟨docs.filterMap newSerialFromIDString, true⟩ := by
  rw [streamSerialsForExpirationDateAndIssuer,
    streamSerialsLoop_of_decodable docs hd _ ends 0 he (Nat.zero_le _) (by omega)]
  rfl

theorem streamSerials_of_decodable_deadline :
    let docs := [ascii "AA=="]
    let ends := [IterEnd.error 0 ⟨.other, ascii "DeadlineExceeded"⟩]
    (∀ d ∈ docs, (newSerialFromIDString d).isSome) ∧
      (∀ e ∈ ends, ∀ err, e.err = some err → isDeadlineExceeded err = true) ∧
      streamSerialsForExpirationDateAndIssuer docs ends =
        some ⟨docs.filterMap newSerialFromIDString, true⟩ := by
  intro docs ends
  have hd : ∀ d ∈ docs, (newSerialFromIDString d).isSome := by decide
  have he : ∀ e ∈ ends, ∀ err, e.err = some err → isDeadlineExceeded err = true := by
    simp only [ends, List.mem_singleton, forall_eq, IterEnd.err, Option.some.injEq, forall_eq']
    decide
  exact ⟨hd, he, streamSerials_of_decodable docs ends hd he⟩

/-- An undecodable ID in a page makes the next page start inside it and send its serial
    again; a full page of undecodable IDs ends the stream before the serials after it. -/
theorem streamSerials_overlaps_and_stops_early :
    (streamSerialsForExpirationDateAndIssuer [ascii "!", ascii "AA=="] []).map Stream.sent =
        some [⟨[0]⟩, ⟨[0]⟩] ∧
      (streamSerialsForExpirationDateAndIssuer
        (List.replicate kLimit (ascii "!") ++ [ascii "AA=="]) []).map Stream.sent = some [] := by
  refine ⟨by decide, ?_⟩
  have hbad : newSerialFromIDString (ascii "!") = none := by decide
  have hpage : ((List.replicate kLimit (ascii "!") ++ [ascii "AA=="]).drop 0).take kLimit =
      List.replicate kLimit (ascii "!") := by
    simp [List.take_append_eq_append_take]
  have hnil : (List.replicate kLimit (ascii "!")).filterMap newSerialFromIDString = [] :=
    List.filterMap_eq_nil_iff.2 fun a ha => (List.eq_of_mem_replicate ha) ▸ hbad
  rw [streamSerialsForExpirationDateAndIssuer, streamSerialsLoop_succ]
  simp [hpage, IterEnd.err, IterEnd.delivered, hnil]

/-! ## The `List` wrappers -/

theorem expirationDatesLoop_nexts (dates : List Bytes) (e : IterEnd) :
    expirationDatesLoop (e.nexts dates) = e.delivered dates := by
  unfold IterEnd.nexts
  induction e.delivered dates with
  | nil => cases e <;> rfl
  | cons d ds ih => simp [expirationDatesLoop, ih]

theorem issuersLoop_nexts (docs : List (Option Bytes)) (e : IterEnd) :
    issuersLoop (e.nexts docs) = (e.delivered docs).filterMap (·.map newIssuerFromString) := by
  unfold IterEnd.nexts
  induction e.delivered docs with
  | nil => cases e <;> rfl
  | cons d ds ih => cases d <;> simp [issuersLoop, ih]

theorem listExpirationDates_partial :
    ¬ ∀ (aNotBefore : Time) (dates : List Bytes) (e : IterEnd) (l : List Bytes),
      listExpirationDates aNotBefore dates e = .ok l → l = dates := fun h =>
  absurd (h ⟨0, 0, .utc⟩ [ascii "2020-01-01", ascii "2020-01-02"]
    (.error 1 ⟨.other, ascii "unavailable"⟩) [ascii "2020-01-01"] rfl) (by decide)

/-- The `List` wrappers return a nil error on every collection and every iterator error:
    the dates and the issuer fields of the documents delivered before the error, and serials
    decoded from documents of the shard; when every ID decodes, those of a prefix of the
    shard, all of it unless an error other than `DeadlineExceeded` ended the stream. -/
theorem list_wrappers_nil_error (aNotBefore : Time) (dates : List Bytes) (eD : IterEnd)
    (issuers : List (Option Bytes)) (eI : IterEnd) (docs : List Bytes) (ends : List IterEnd) :
    listExpirationDates aNotBefore dates eD = .ok (eD.delivered dates) ∧
      listIssuersForExpirationDate issuers eI =
        .ok ((eI.delivered issuers).filterMap (·.map newIssuerFromString)) ∧
      ∃ l, listSerialsForExpirationDateAndIssuer docs ends = some (.ok l) ∧
        (∀ s ∈ l, ∃ d ∈ docs, newSerialFromIDString d = some s) ∧
        ((∀ d ∈ docs, (newSerialFromIDString d).isSome) →
          (∃ k, l = (docs.take k).filterMap newSerialFromIDString) ∧
          ((∀ e ∈ ends, ∀ err, e.err = some err → isDeadlineExceeded err = true) →
            l = docs.filterMap newSerialFromIDString)) := by
  refine ⟨by simp [listExpirationDates, streamExpirationDates, expirationDatesLoop_nexts],
    by simp [listIssuersForExpirationDate, streamIssuersForExpirationDate, issuersLoop_nexts], ?_⟩
  have hfuel : ends.length + (docs.length - 0) < ends.length + docs.length + 1 := by omega
  obtain ⟨l, hl⟩ := Option.isSome_iff_exists.1
    (streamSerialsLoop_isSome docs _ ends 0 (Nat.zero_le _) hfuel)
  refine ⟨l, by simp [listSerialsForExpirationDateAndIssuer,
    streamSerialsForExpirationDateAndIssuer, hl], streamSerialsLoop_sound docs _ _ _ l hl,
    fun hd => ⟨?_, fun he => ?_⟩⟩
  · obtain ⟨k, hk⟩ := streamSerialsLoop_prefix docs hd _ ends 0 (Nat.zero_le _) hfuel
    exact ⟨k, Option.some.inj (hl.symm.trans hk)⟩
  · exact Option.some.inj
      (hl.symm.trans (streamSerialsLoop_of_decodable docs hd _ ends 0 he (Nat.zero_le _) hfuel))

/-! ## Log checkpoints -/

theorem logPath_inj {logNameToId : Bytes → Bytes} (hinj : Function.Injective logNameToId)
    {a b : Bytes} : logPath logNameToId a = logPath logNameToId b ↔ a = b := by
  simp only [logPath, List.append_cancel_left_eq, hinj.eq_iff]

/-- A successful `Set` of a checkpoint is what a successful `Get` of its URL reads back, its
    time cut to the second in the `Local` location, and of no other URL. -/
theorem loadLogState_storeLogState {logNameToId : Bytes → Bytes}
    (hinj : Function.Injective logNameToId) (localLoc : Location) (docs : GoMap LogDoc)
    (log : CertificateLog) (url : Bytes) :
    loadLogState logNameToId localLoc none (storeLogState logNameToId none docs log).1 url =
      if log.shortURL = url then
        .ok ⟨log.shortURL, log.maxEntry, ⟨log.lastEntryTime.sec, 0, localLoc⟩⟩
      else loadLogState logNameToId localLoc none docs url := by
  simp only [storeLogState, loadLogState]
  split_ifs with hu
  · rw [hu, AList.lookup_insert]
  · rw [AList.lookup_insert_ne ((logPath_inj hinj).not.2 (Ne.symm hu))]

end FirestoreBackend

end CtMapReduce.Storage
