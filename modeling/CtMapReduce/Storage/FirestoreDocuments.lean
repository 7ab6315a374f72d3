import CtMapReduce.Storage.FirestoreBackend

/-!
# The documents `FirestoreBackend` writes under `ct/`

`StoreCertificatePEM` (`firestorebackend.go:68-92`) writes a certificate's PEM to
`ct/<expDate>/issuer/<issuer ID>/certs/<serial ID>` with `Create`, whose `AlreadyExists` the
backend answers with `nil`, so the first write of a document stays and `LoadCertificatePEM` reads
the bytes of the first store that created it (`loadCertificatePEM_first_created`).
`AllocateExpDateAndIssuer` (`firestorebackend.go:120-154`) sets `ct/<expDate>` and then
`ct/<expDate>/issuer/<issuer ID>` (`setDoc`). A path is `filepath.Join` of its names, `Clean`
included, and `client.Doc` takes a path of an even number of non-empty IDs. Dates and issuer IDs
are taken `Plain`: no `/`, and not `.` or `..`, which `Clean` drops or resolves; a serial's ID,
URL-safe base64, is always plain (`plain_serial_id`). Then a date document has two IDs, an issuer
document four and a PEM document six, so no allocation reaches a PEM document
(`pemDocPath_ne_allocation`). Error texts of the Firestore library are not read, only their
codes; the `%v` text of an `Issuer` prints a pointer and is a parameter.
-/

namespace CtMapReduce.Storage.FirestoreBackend
open CtMapReduce.Go

/-- `/`. -/
def slash : Fin 256 := 47

/-- `.` and `..`. -/
def dot : Bytes := ascii "."

def dotDot : Bytes := ascii ".."

/-- The loop of `filepath.Clean` (`go/src/path/filepath/path.go`), one element of the path at a
    time, with `out` the elements kept so far, last first: an empty element or `.` is dropped,
    `..` drops the last element kept, or is kept when there is none or it is a `..` (dropped
    instead at the root of a rooted path), and any other element is kept. -/
def cleanLoop (rooted : Bool) : List Bytes → List Bytes → List Bytes
  | out, [] => out
  | out, e :: es =>
    if e.isEmpty || e == dot then cleanLoop rooted out es
    else if e == dotDot then
      match out with
      | x :: rest => if x == dotDot then cleanLoop rooted (e :: out) es else cleanLoop rooted rest es
      | [] => if rooted then cleanLoop rooted [] es else cleanLoop rooted [e] es
    else cleanLoop rooted (e :: out) es

/-- `filepath.Clean(path)` on Unix: the elements `cleanLoop` keeps, with a `/` between, after a
    `/` for a rooted path; `.` for an empty result. -/
def clean (path : Bytes) : Bytes :=
  if path.isEmpty then dot
  else
    let rooted := path.head? == some slash
    let body := [slash].intercalate (cleanLoop rooted [] (path.splitOn slash)).reverse
    let cleaned := if rooted then slash :: body else body
    if cleaned.isEmpty then dot else cleaned

/-- `filepath.Join(names...)` on Unix: the names from the first non-empty one, with a `/`
    between, cleaned; empty when every name is. -/
def join (names : List Bytes) : Bytes :=
  match names.dropWhile (·.isEmpty) with
  | [] => []
  | rest => clean ([slash].intercalate rest)

/-- A name that `Clean` keeps as it is: no `/`, and not `.` or `..`. -/
def Plain (n : Bytes) : Prop := slash ∉ n ∧ n ≠ dot ∧ n ≠ dotDot

instance : DecidablePred Plain := fun n => inferInstanceAs (Decidable (slash ∉ n ∧ n ≠ dot ∧ n ≠ dotDot))

/-- Whether `client.Doc(path)` returns a document: the IDs between the slashes are non-empty and
    even in number. -/
def isDocPath (path : Bytes) : Bool :=
  (path.splitOn slash).length % 2 == 0 && (path.splitOn slash).all fun id => !id.isEmpty

/-- The fields of the documents under `ct/`. -/
inductive CtDoc where
  /-- `{type: "PEM", data: b}` (`firestorebackend.go:78-81`). -/
  | pem (data : Bytes)
  /-- `{type: "ExpDate", expDate: expDate}` (`firestorebackend.go:126-129`). -/
  | expDate (expDate : Bytes)
  /-- `{type: "Metadata", expDate: expDate, issuer: issuer.ID()}`
      (`firestorebackend.go:139-143`). -/
  | metadata (expDate issuer : Bytes)
  deriving DecidableEq, Repr

/-- The PEM document of a certificate (`firestorebackend.go:73`, `158`). -/
def pemDocPath (serial : Serial) (expDate : Bytes) (issuer : Issuer) : Bytes :=
  join [ascii "ct", expDate, ascii "issuer", issuer.id, ascii "certs", serial.id]

/-- The document `id` of a shard's `certs` collection (`firestorebackend.go:350`). -/
def certDocPath (expDate : Bytes) (issuer : Issuer) (id : Bytes) : Bytes :=
  join [ascii "ct", expDate, ascii "issuer", issuer.id, ascii "certs", id]

/-- The document `allocateExpDate` sets (`firestorebackend.go:121`). -/
def expDatePath (expDate : Bytes) : Bytes := join [ascii "ct", expDate]

/-- The document `allocateIssuerExpDate` sets (`firestorebackend.go:134`). -/
def issuerPath (expDate : Bytes) (issuer : Issuer) : Bytes :=
  join [ascii "ct", expDate, ascii "issuer", issuer.id]

/-- The end of the error text for a path that names no document. -/
def kHierarchyHint : Bytes :=
  ascii ". Remember that Firestore heirarchies must alterante Document/Collections."

/-- The error `Create` returns on a document that exists. -/
def alreadyExists : FsError := ⟨.alreadyExists, ascii "already exists"⟩

/-- The error `Get` returns on a missing document. -/
def notFound : FsError := ⟨.notFound, ascii "not found"⟩

/-- `StoreCertificatePEM` (`firestorebackend.go:68-92`), `none` for its panic on an empty
    `expDate`. `Create` fails with `AlreadyExists` on a document that exists and otherwise with
    `createErr`, if any, writing nothing; `AlreadyExists` is answered with `nil`. -/
def storeCertificatePEM (createErr : Option FsError) (docs : GoMap CtDoc) (serial : Serial)
    (expDate : Bytes) (issuer : Issuer) (b : Bytes) : Option (GoMap CtDoc × Option FsError) :=
  if expDate.isEmpty then none
  else
    let id := pemDocPath serial expDate issuer
    if !isDocPath id then
      some (docs, some ⟨.other, ascii "Couldn't open Document id=" ++ id ++ kHierarchyHint⟩)
    else
      let err := if (docs.lookup id).isSome then some alreadyExists else createErr
      match err with
      | none => some (docs.insert id (.pem b), none)
      | some e => some (docs, if e.code = .alreadyExists then none else some e)

/-- `LoadCertificatePEM` (`firestorebackend.go:156-171`): `Get` fails with `getErr`, if any, or
    with `NotFound` on a missing document; `none` for the panic of `data.([]byte)` on a document
    with no `data` field. -/
def loadCertificatePEM (getErr : Option FsError) (docs : GoMap CtDoc) (serial : Serial)
    (expDate : Bytes) (issuer : Issuer) : Option (Except FsError Bytes) :=
  let id := pemDocPath serial expDate issuer
  if !isDocPath id then
    some (.error ⟨.other, ascii "Couldn't open Document " ++ id ++ kHierarchyHint⟩)
  else
    match getErr, docs.lookup id with
    | some err, _ => some (.error err)
    | none, none => some (.error notFound)
    | none, some (.pem data) => some (.ok data)
    | none, some _ => none

/-- `client.Doc(id)` and then `doc.Set(fields)`: `openErr` for a path that names no document,
    and `setErr`, if any, when `Set` fails. -/
def setDoc (openErr : FsError) (setErr : Option FsError) (docs : GoMap CtDoc) (id : Bytes)
    (doc : CtDoc) : GoMap CtDoc × Option FsError :=
  if !isDocPath id then (docs, some openErr)
  else
    match setErr with
    | some err => (docs, some err)
    | none => (docs.insert id doc, none)

/-- `allocateExpDate` (`firestorebackend.go:120-131`). -/
def allocateExpDate (setErr : Option FsError) (docs : GoMap CtDoc) (expDate : Bytes) :
    GoMap CtDoc × Option FsError :=
  setDoc ⟨.other, ascii "Couldn't allocate document for exp date " ++ expDate⟩ setErr docs
    (expDatePath expDate) (.expDate expDate)

/-- `allocateIssuerExpDate` (`firestorebackend.go:133-145`); `issuerText` is the `%v` text of the
    issuer. -/
def allocateIssuerExpDate (issuerText : Bytes) (setErr : Option FsError) (docs : GoMap CtDoc)
    (expDate : Bytes) (issuer : Issuer) : GoMap CtDoc × Option FsError :=
  setDoc ⟨.other, ascii "Couldn't allocate document for exp date " ++ expDate ++
      ascii " issuer " ++ issuerText⟩ setErr docs (issuerPath expDate issuer)
    (.metadata expDate issuer.id)

/-- `AllocateExpDateAndIssuer` (`firestorebackend.go:147-154`). -/
def allocateExpDateAndIssuer (issuerText : Bytes) (setErr₁ setErr₂ : Option FsError)
    (docs : GoMap CtDoc) (expDate : Bytes) (issuer : Issuer) : GoMap CtDoc × Option FsError :=
  match allocateExpDate setErr₁ docs expDate with
  | (docs, some err) => (docs, some err)
  | (docs, none) => allocateIssuerExpDate issuerText setErr₂ docs expDate issuer

/-- The calls that write documents under `ct/`, with the errors their Firestore calls return. -/
inductive Write where
  | storePEM (serial : Serial) (expDate : Bytes) (issuer : Issuer) (b : Bytes)
      (createErr : Option FsError)
  | allocate (expDate : Bytes) (issuer : Issuer) (issuerText : Bytes)
      (setErr₁ setErr₂ : Option FsError)
  deriving DecidableEq, Repr

/-- One write; a panic ends the process and writes nothing. -/
def Write.apply (docs : GoMap CtDoc) : Write → GoMap CtDoc
  | .storePEM serial expDate issuer b createErr =>
    ((storeCertificatePEM createErr docs serial expDate issuer b).map Prod.fst).getD docs
  | .allocate expDate issuer text setErr₁ setErr₂ =>
    (allocateExpDateAndIssuer text setErr₁ setErr₂ docs expDate issuer).1

/-- The bytes a write would create the document `id` with, if it is a `StoreCertificatePEM` of
    that document with a date and no error of its own. -/
def Write.createsAt (id : Bytes) : Write → Option Bytes
  | .storePEM serial expDate issuer b none =>
    if !expDate.isEmpty && pemDocPath serial expDate issuer == id then some b else none
  | _ => none

/-- The spec: the bytes of the first write of the run that creates `id`. -/
def firstCreated (id : Bytes) (ws : List Write) : Option Bytes := ws.findSome? (Write.createsAt id)

/-! ## Paths -/

/-- On plain names, the loop of `Clean` keeps the non-empty ones. -/
theorem cleanLoop_plain (rooted : Bool) {es : List Bytes} (h : ∀ e ∈ es, Plain e) :
    ∀ out, cleanLoop rooted out es = (es.filter fun n => !n.isEmpty).reverse ++ out := by
  induction es with
  | nil => intro out; rfl
  | cons e es ih =>
    intro out
    obtain ⟨-, hdot, hdotdot⟩ := h e (List.mem_cons_self e es)
    have ih := ih fun e' he' => h e' (List.mem_cons_of_mem e he')
    cases he : e.isEmpty
    · simp [cleanLoop, he, hdot, hdotdot, ih, List.filter_cons]
    · simp [cleanLoop, he, ih, List.filter_cons]

/-- A path that starts with a non-empty name starts as that name does. -/
theorem intercalate_cons {r : Bytes} (hr : r.isEmpty = false) (rs : List Bytes) :
    ([slash].intercalate (r :: rs)).head? = r.head? ∧
      ([slash].intercalate (r :: rs)).isEmpty = false := by
  obtain ⟨t, ht⟩ : ∃ t, [slash].intercalate (r :: rs) = r ++ t := by
    cases rs with
    | nil => exact ⟨[], by simp [List.intercalate]⟩
    | cons r' rs => exact ⟨_, by simp [List.intercalate, List.intersperse]; rfl⟩
  rw [ht]
  cases r with
  | nil => simp at hr
  | cons a r => exact ⟨rfl, rfl⟩

theorem filter_dropWhile_isEmpty (names : List Bytes) :
    (names.dropWhile (·.isEmpty)).filter (fun n => !n.isEmpty) =
      names.filter (fun n => !n.isEmpty) := by
  induction names with
  | nil => rfl
  | cons n ns ih => cases h : n.isEmpty <;> simp [List.dropWhile_cons, h, ih, List.filter_cons]

/-- `filepath.Join` of plain names puts a `/` between the non-empty ones: the path starts with
    a name, so it is not rooted, and `Clean` keeps every name. -/
theorem join_eq_intercalate {names : List Bytes} (h : ∀ n ∈ names, Plain n) :
    join names = [slash].intercalate (names.filter fun n => !n.isEmpty) := by
  have hfilter := filter_dropWhile_isEmpty names
  cases hd : names.dropWhile (·.isEmpty) with
  | nil =>
    rw [hd] at hfilter
    simp only [join, hd, ← hfilter]
    rfl
  | cons r rs =>
    have hr : r.isEmpty = false := by
      simpa [hd] using List.head_dropWhile_not (·.isEmpty) names (by simp [hd])
    have hplain : ∀ n ∈ r :: rs, Plain n := fun n hn =>
      h n ((List.dropWhile_suffix _).subset (hd ▸ hn))
    have hroot : (r.head? == some slash) = false := by
      cases r with
      | nil => simp at hr
      | cons a r =>
        simp only [List.head?_cons, beq_eq_false_iff_ne, ne_eq, Option.some.injEq]
        rintro rfl
        exact (hplain _ (List.mem_cons_self _ _)).1 (List.mem_cons_self _ r)
    obtain ⟨hhead, hne⟩ := intercalate_cons hr rs
    have hsplit : ([slash].intercalate (r :: rs)).splitOn slash = r :: rs :=
      List.splitOn_intercalate _ _ (fun n hn => (hplain n hn).1) (List.cons_ne_nil _ _)
    have hfr : (r :: rs).filter (fun n => !n.isEmpty) = r :: rs.filter fun n => !n.isEmpty := by
      simp [List.filter_cons, hr]
    rw [hd, hfr] at hfilter
    simp only [join, hd, clean, hne, hhead, hroot, hsplit, cleanLoop_plain false hplain,
      List.append_nil, List.reverse_reverse, hfr, Bool.false_eq_true, if_false,
      (intercalate_cons hr _).2, ← hfilter]

theorem splitOn_join {names : List Bytes} (hplain : ∀ n ∈ names, Plain n)
    (hne : (names.filter fun n => !n.isEmpty) ≠ []) :
    (join names).splitOn slash = names.filter fun n => !n.isEmpty := by
  rw [join_eq_intercalate hplain]
  exact List.splitOn_intercalate _ slash (fun n hn => (hplain n (List.mem_of_mem_filter hn)).1) hne

theorem join_eq_nil {names : List Bytes} (h : ∀ n ∈ names, Plain n) (he : join names = []) :
    names.filter (fun n => !n.isEmpty) = [] := by
  by_contra hn
  have hs := splitOn_join h hn
  rw [he, List.splitOn_nil] at hs
  have hmem : ([] : Bytes) ∈ names.filter (fun n => !n.isEmpty) := hs ▸ List.mem_singleton_self _
  simp at hmem

/-- Two paths of plain names are the same exactly when they have the same non-empty
    names. -/
theorem join_eq_join_iff {names names' : List Bytes} (h : ∀ n ∈ names, Plain n)
    (h' : ∀ n ∈ names', Plain n) :
    join names = join names' ↔
      names.filter (fun n => !n.isEmpty) = names'.filter (fun n => !n.isEmpty) := by
  refine ⟨fun he => ?_, fun he => by rw [join_eq_intercalate h, join_eq_intercalate h', he]⟩
  by_cases hn : names.filter (fun n => !n.isEmpty) = []
  · rw [hn, join_eq_nil h' (he.symm.trans (by rw [join_eq_intercalate h, hn]; rfl))]
  · have hn' : names'.filter (fun n => !n.isEmpty) ≠ [] := fun hn' =>
      hn (join_eq_nil h (he.trans (by rw [join_eq_intercalate h', hn']; rfl)))
    rw [← splitOn_join h hn, ← splitOn_join h' hn', he]

theorem filter_of_nonempty {l : List Bytes} (h : ∀ n ∈ l, n ≠ []) :
    l.filter (fun n => !n.isEmpty) = l :=
  List.filter_eq_self.2 fun n hn => by simpa [List.isEmpty_iff] using h n hn

theorem le_length_filter {k l : List Bytes} (hk : k.Sublist l) (h : ∀ n ∈ k, n ≠ []) :
    k.length ≤ (l.filter fun n => !n.isEmpty).length := by
  have hle := (hk.filter fun n => !n.isEmpty).length_le
  rwa [filter_of_nonempty h] at hle

/-- A byte outside the URL-safe base64 alphabet and its padding is not in a serial's ID. -/
theorem not_mem_serial_id {c : Fin 256} (hc : ∀ v < 64, c ≠ Base64.encodeURL v)
    (hpad : c ≠ Base64.padChar) (s : Serial) : c ∉ s.id := fun h =>
  (Base64.mem_encode h).elim (fun ⟨v, hv, he⟩ => hc v hv he) hpad

/-- A serial's ID holds no `/` and no `.`, so `Clean` keeps it. -/
theorem plain_serial_id (s : Serial) : Plain s.id := by
  have hdot : (46 : Fin 256) ∉ s.id := not_mem_serial_id (by decide) (by decide) s
  exact ⟨not_mem_serial_id (by decide) (by decide) s, fun h => hdot (h ▸ by decide),
    fun h => hdot (h ▸ by decide)⟩

/-- The ID of a non-empty serial is non-empty. -/
theorem serial_id_ne_nil {s : Serial} (h : s.serial ≠ []) : s.id ≠ [] := by
  rcases s with ⟨_ | ⟨a, _ | ⟨b, _ | ⟨c, rest⟩⟩⟩⟩
  · exact absurd rfl h
  all_goals
    simp only [Serial.id, Base64.encodeToString, Base64.encode, Base64.encodeQuantum, List.take,
      List.cons_append]
    exact List.cons_ne_nil _ _

/-- The names of a shard and a document ID in it, checked one part at a time. -/
theorem names_snoc {expDate id : Bytes} {issuer : Issuer}
    (hnames : ∀ n ∈ [expDate, issuer.id], n ≠ [] ∧ Plain n) (hid : id ≠ [] ∧ Plain id) :
    ∀ n ∈ [expDate, issuer.id, id], n ≠ [] ∧ Plain n :=
  List.forall_mem_append.2 ⟨hnames, List.forall_mem_singleton.2 hid⟩

theorem ct_name : ascii "ct" ≠ [] ∧ Plain (ascii "ct") := by decide

theorem issuer_name : ascii "issuer" ≠ [] ∧ Plain (ascii "issuer") := by decide

theorem certs_name : ascii "certs" ≠ [] ∧ Plain (ascii "certs") := by decide

theorem plain_dateNames {e : Bytes} (he : Plain e) : ∀ n ∈ [ascii "ct", e], Plain n :=
  List.forall_mem_cons.2 ⟨ct_name.2, List.forall_mem_singleton.2 he⟩

theorem plain_issuerNames {e : Bytes} {i : Issuer} (he : Plain e) (hi : Plain i.id) :
    ∀ n ∈ [ascii "ct", e, ascii "issuer", i.id], Plain n :=
  List.forall_mem_cons.2 ⟨ct_name.2, List.forall_mem_cons.2 ⟨he, List.forall_mem_cons.2
    ⟨issuer_name.2, List.forall_mem_singleton.2 hi⟩⟩⟩

theorem plain_certNames {e id : Bytes} {i : Issuer} (he : Plain e) (hi : Plain i.id)
    (hid : Plain id) :
    ∀ n ∈ [ascii "ct", e, ascii "issuer", i.id, ascii "certs", id], Plain n :=
  List.forall_mem_cons.2 ⟨ct_name.2, List.forall_mem_cons.2 ⟨he, List.forall_mem_cons.2
    ⟨issuer_name.2, List.forall_mem_cons.2 ⟨hi, List.forall_mem_cons.2 ⟨certs_name.2,
      List.forall_mem_singleton.2 hid⟩⟩⟩⟩⟩

/-- The names of a `certs` document of names that are non-empty and plain. -/
theorem certNames {expDate id : Bytes} {issuer : Issuer}
    (hnames : ∀ n ∈ [expDate, issuer.id, id], n ≠ [] ∧ Plain n) :
    (∀ n ∈ [ascii "ct", expDate, ascii "issuer", issuer.id, ascii "certs", id], Plain n) ∧
      [ascii "ct", expDate, ascii "issuer", issuer.id, ascii "certs", id].filter
        (fun n => !n.isEmpty) = [ascii "ct", expDate, ascii "issuer", issuer.id, ascii "certs", id] := by
  simp only [List.mem_cons, List.mem_singleton, List.not_mem_nil, or_false, forall_eq_or_imp,
    forall_eq] at hnames
  refine ⟨plain_certNames hnames.1.2 hnames.2.1.2 hnames.2.2.2, filter_of_nonempty ?_⟩
  exact List.forall_mem_cons.2 ⟨ct_name.1, List.forall_mem_cons.2 ⟨hnames.1.1,
    List.forall_mem_cons.2 ⟨issuer_name.1, List.forall_mem_cons.2 ⟨hnames.2.1.1,
      List.forall_mem_cons.2 ⟨certs_name.1, List.forall_mem_singleton.2 hnames.2.2.1⟩⟩⟩⟩⟩

theorem pemDocPath_eq_certDocPath (serial : Serial) (expDate : Bytes) (issuer : Issuer) :
    pemDocPath serial expDate issuer = certDocPath expDate issuer serial.id := rfl

/-- A `certs` document of names that are non-empty and plain has six IDs. -/
theorem splitOn_certDocPath {expDate : Bytes} {issuer : Issuer} {id : Bytes}
    (hnames : ∀ n ∈ [expDate, issuer.id, id], n ≠ [] ∧ Plain n) :
    (certDocPath expDate issuer id).splitOn slash =
      [ascii "ct", expDate, ascii "issuer", issuer.id, ascii "certs", id] := by
  obtain ⟨hslash, hfilter⟩ := certNames hnames
  rw [certDocPath, splitOn_join hslash (by rw [hfilter]; exact List.cons_ne_nil _ _), hfilter]

theorem isDocPath_pemDocPath {serial : Serial} {expDate : Bytes} {issuer : Issuer}
    (hnames : ∀ n ∈ [expDate, issuer.id, serial.id], n ≠ [] ∧ Plain n) :
    isDocPath (pemDocPath serial expDate issuer) = true := by
  have hall := List.filter_eq_self.1 (certNames hnames).2
  rw [isDocPath, pemDocPath_eq_certDocPath, splitOn_certDocPath hnames, Bool.and_eq_true]
  exact ⟨by simp only [List.length_cons, List.length_nil]; rfl, List.all_eq_true.2 hall⟩

/-- A path of non-empty plain names, even in number, names a document. -/
theorem isDocPath_join {names : List Bytes} (hn : ∀ n ∈ names, n ≠ [] ∧ Plain n)
    (hne : names ≠ []) (heven : names.length % 2 = 0) : isDocPath (join names) = true := by
  have hf := filter_of_nonempty fun n h => (hn n h).1
  rw [isDocPath, splitOn_join (fun n h => (hn n h).2) (by rwa [hf]), hf, Bool.and_eq_true,
    beq_iff_eq]
  exact ⟨heven, List.all_eq_true.2 (List.filter_eq_self.1 hf)⟩

theorem isDocPath_expDatePath {e : Bytes} (he : e ≠ [] ∧ Plain e) :
    isDocPath (expDatePath e) = true :=
  isDocPath_join (List.forall_mem_cons.2 ⟨ct_name, List.forall_mem_singleton.2 he⟩)
    (List.cons_ne_nil _ _) (by simp only [List.length_cons, List.length_nil])

theorem isDocPath_issuerPath {e : Bytes} {i : Issuer} (he : e ≠ [] ∧ Plain e)
    (hi : i.id ≠ [] ∧ Plain i.id) : isDocPath (issuerPath e i) = true :=
  isDocPath_join (List.forall_mem_cons.2 ⟨ct_name, List.forall_mem_cons.2 ⟨he,
    List.forall_mem_cons.2 ⟨issuer_name, List.forall_mem_singleton.2 hi⟩⟩⟩)
    (List.cons_ne_nil _ _) (by simp only [List.length_cons, List.length_nil])

/-- A date document has at most two IDs, a PEM document at least three. -/
theorem expDatePath_ne_pemDocPath {e e' : Bytes} {i' : Issuer} (s : Serial) (he : Plain e)
    (he' : Plain e') (hi' : Plain i'.id) : expDatePath e ≠ pemDocPath s e' i' := fun h => by
  have hf := congrArg List.length ((join_eq_join_iff (plain_dateNames he)
    (plain_certNames he' hi' (plain_serial_id s))).1 h)
  have hle := List.length_filter_le (fun n : Bytes => !n.isEmpty) [ascii "ct", e]
  have hge := le_length_filter (k := [ascii "ct", ascii "issuer", ascii "certs"])
    (l := [ascii "ct", e', ascii "issuer", i'.id, ascii "certs", s.id])
    (.cons₂ _ (.cons _ (.cons₂ _ (.cons _ (.cons₂ _ (.cons _ .slnil))))))
    (List.forall_mem_cons.2 ⟨ct_name.1, List.forall_mem_cons.2 ⟨issuer_name.1,
      List.forall_mem_singleton.2 certs_name.1⟩⟩)
  simp only [List.length_cons, List.length_nil] at hf hle hge
  omega

/-- An allocation of plain names reaches no PEM document of names that are non-empty and
    plain: its documents have at most two and four IDs, a PEM document six. -/
theorem pemDocPath_ne_allocation {serial : Serial} {expDate : Bytes} {issuer : Issuer}
    (hnames : ∀ n ∈ [expDate, issuer.id, serial.id], n ≠ [] ∧ Plain n) {e : Bytes} {i : Issuer}
    (he : Plain e) (hi : Plain i.id) :
    expDatePath e ≠ pemDocPath serial expDate issuer ∧
      issuerPath e i ≠ pemDocPath serial expDate issuer := by
  obtain ⟨hslash, hsix⟩ := certNames hnames
  refine ⟨expDatePath_ne_pemDocPath serial he (hslash _ (by simp)) (hslash _ (by simp)),
    fun h => ?_⟩
  have hf := congrArg List.length ((join_eq_join_iff (plain_issuerNames he hi) hslash).1 h)
  have hle := List.length_filter_le (fun n : Bytes => !n.isEmpty)
    [ascii "ct", e, ascii "issuer", i.id]
  rw [hsix] at hf
  simp only [List.length_cons, List.length_nil] at hf hle
  omega

/-- An issuer document of a non-empty date has at least three IDs, a date document at most
    two. -/
theorem issuerPath_ne_expDatePath {e e' : Bytes} {i' : Issuer} (he' : e' ≠ [] ∧ Plain e')
    (hi' : Plain i'.id) (he : Plain e) : issuerPath e' i' ≠ expDatePath e := fun h => by
  have hf := congrArg List.length
    ((join_eq_join_iff (plain_issuerNames he'.2 hi') (plain_dateNames he)).1 h)
  have hge := le_length_filter (k := [ascii "ct", e', ascii "issuer"])
    (l := [ascii "ct", e', ascii "issuer", i'.id]) (.cons₂ _ (.cons₂ _ (.cons₂ _ (.cons _ .slnil))))
    (List.forall_mem_cons.2 ⟨ct_name.1, List.forall_mem_cons.2 ⟨he'.1,
      List.forall_mem_singleton.2 issuer_name.1⟩⟩)
  have hle := List.length_filter_le (fun n : Bytes => !n.isEmpty) [ascii "ct", e]
  simp only [List.length_cons, List.length_nil] at hf hle hge
  omega

theorem issuerPath_eq_iff {e e' : Bytes} {i i' : Issuer} (he : e ≠ [] ∧ Plain e)
    (hi : i.id ≠ [] ∧ Plain i.id) (he' : e' ≠ [] ∧ Plain e') (hi' : Plain i'.id) :
    issuerPath e' i' = issuerPath e i ↔ e' = e ∧ i'.id = i.id := by
  refine ⟨fun h => ?_, fun ⟨h₁, h₂⟩ => by simp only [issuerPath, h₁, h₂]⟩
  have hf := (join_eq_join_iff (plain_issuerNames he'.2 hi') (plain_issuerNames he.2 hi.2)).1 h
  rw [filter_of_nonempty (l := [ascii "ct", e, ascii "issuer", i.id])
    (by simp [ct_name.1, issuer_name.1, he.1, hi.1])] at hf
  rcases eq_or_ne i'.id [] with hnil | hne
  · have := congrArg List.length hf
    simp [List.filter_cons, ct_name.1, issuer_name.1, he'.1, hnil] at this
  · rw [filter_of_nonempty (by simp [ct_name.1, issuer_name.1, he'.1, hne])] at hf
    simp only [List.cons.injEq, true_and, and_true] at hf
    exact hf

/-- A date document names a date: the path of the empty date is `ct`, which names no
    document. -/
theorem ne_nil_of_isDocPath_expDatePath {e : Bytes} (h : isDocPath (expDatePath e) = true) :
    e ≠ [] := by
  rintro rfl
  exact absurd h (by decide)

/-- An issuer document of a date names an issuer: with an empty issuer ID its path has three
    IDs. -/
theorem ne_nil_of_isDocPath_issuerPath {e : Bytes} {i : Issuer} (he : e ≠ [] ∧ Plain e)
    (h : isDocPath (issuerPath e i) = true) : i.id ≠ [] := by
  intro hnil
  have hf : [ascii "ct", e, ascii "issuer", i.id].filter (fun n => !n.isEmpty) =
      [ascii "ct", e, ascii "issuer"] := by
    rw [hnil, List.filter_cons_of_pos (by simpa [List.isEmpty_iff] using ct_name.1),
      List.filter_cons_of_pos (by simpa [List.isEmpty_iff] using he.1),
      List.filter_cons_of_pos (by simpa [List.isEmpty_iff] using issuer_name.1)]
    rfl
  have hs := splitOn_join (plain_issuerNames he.2 (hnil ▸ (by decide : Plain []))) (by simp [hf])
  rw [issuerPath, isDocPath, hs, hf, Bool.and_eq_true] at h
  exact absurd h.1 (by simp)

/-! ## Each write changes its own documents -/

/-- `AllocateExpDateAndIssuer` on the documents: the date document, then the issuer document
    once the first `Set` succeeded. -/
theorem allocate_fst (text : Bytes) (setErr₁ setErr₂ : Option FsError) (docs : GoMap CtDoc)
    (expDate : Bytes) (issuer : Issuer) :
    (allocateExpDateAndIssuer text setErr₁ setErr₂ docs expDate issuer).1 =
      if isDocPath (expDatePath expDate) ∧ setErr₁ = none then
        if isDocPath (issuerPath expDate issuer) ∧ setErr₂ = none then
          (docs.insert (expDatePath expDate) (.expDate expDate)).insert
            (issuerPath expDate issuer) (.metadata expDate issuer.id)
        else docs.insert (expDatePath expDate) (.expDate expDate)
      else docs := by
  unfold allocateExpDateAndIssuer allocateExpDate allocateIssuerExpDate setDoc
  by_cases h₁ : isDocPath (expDatePath expDate) <;>
    by_cases h₂ : isDocPath (issuerPath expDate issuer) <;>
    cases setErr₁ <;> cases setErr₂ <;> simp [h₁, h₂]

/-- `StoreCertificatePEM` on the documents: `Create` writes a document that does not exist. -/
theorem store_fst (createErr : Option FsError) (docs : GoMap CtDoc) (serial : Serial)
    (expDate : Bytes) (issuer : Issuer) (b : Bytes) :
    ((storeCertificatePEM createErr docs serial expDate issuer b).map Prod.fst).getD docs =
      if expDate ≠ [] ∧ isDocPath (pemDocPath serial expDate issuer) ∧
          docs.lookup (pemDocPath serial expDate issuer) = none ∧ createErr = none then
        docs.insert (pemDocPath serial expDate issuer) (.pem b)
      else docs := by
  unfold storeCertificatePEM
  by_cases h₁ : expDate = []
  · simp [h₁]
  · by_cases h₂ : isDocPath (pemDocPath serial expDate issuer)
    · cases h₃ : docs.lookup (pemDocPath serial expDate issuer) <;> cases createErr <;>
        simp [h₁, h₂, h₃]
    · simp [h₁, h₂]

theorem lookup_allocate (text : Bytes) (setErr₁ setErr₂ : Option FsError) (docs : GoMap CtDoc)
    (expDate : Bytes) (issuer : Issuer) (p : Bytes) :
    (allocateExpDateAndIssuer text setErr₁ setErr₂ docs expDate issuer).1.lookup p =
      if p = issuerPath expDate issuer ∧ isDocPath (expDatePath expDate) ∧ setErr₁ = none ∧
          isDocPath (issuerPath expDate issuer) ∧ setErr₂ = none then
        some (.metadata expDate issuer.id)
      else if p = expDatePath expDate ∧ isDocPath (expDatePath expDate) ∧ setErr₁ = none then
        some (.expDate expDate)
      else docs.lookup p := by
  rw [allocate_fst]
  by_cases hA : isDocPath (expDatePath expDate) ∧ setErr₁ = none
  · have hdate : (docs.insert (expDatePath expDate) (.expDate expDate)).lookup p =
        if p = expDatePath expDate ∧ isDocPath (expDatePath expDate) ∧ setErr₁ = none then
          some (.expDate expDate)
        else docs.lookup p := by
      by_cases hq : p = expDatePath expDate
      · rw [if_pos ⟨hq, hA⟩, hq, AList.lookup_insert]
      · rw [if_neg fun h => hq h.1, AList.lookup_insert_ne hq]
    rw [if_pos hA]
    by_cases hB : isDocPath (issuerPath expDate issuer) ∧ setErr₂ = none
    · rw [if_pos hB]
      by_cases hp : p = issuerPath expDate issuer
      · rw [if_pos ⟨hp, hA.1, hA.2, hB.1, hB.2⟩, hp, AList.lookup_insert]
      · rw [if_neg fun h => hp h.1, AList.lookup_insert_ne hp, hdate]
    · rw [if_neg hB, if_neg fun h => hB ⟨h.2.2.2.1, h.2.2.2.2⟩, hdate]
  · rw [if_neg hA, if_neg fun h => hA ⟨h.2.1, h.2.2.1⟩, if_neg fun h => hA h.2]

theorem lookup_store (createErr : Option FsError) (docs : GoMap CtDoc) (serial : Serial)
    (expDate : Bytes) (issuer : Issuer) (b p : Bytes) :
    (((storeCertificatePEM createErr docs serial expDate issuer b).map Prod.fst).getD docs).lookup
        p =
      if p = pemDocPath serial expDate issuer ∧ expDate ≠ [] ∧
          isDocPath (pemDocPath serial expDate issuer) ∧
          docs.lookup (pemDocPath serial expDate issuer) = none ∧ createErr = none then
        some (.pem b)
      else docs.lookup p := by
  rw [store_fst]
  by_cases hc : expDate ≠ [] ∧ isDocPath (pemDocPath serial expDate issuer) ∧
      docs.lookup (pemDocPath serial expDate issuer) = none ∧ createErr = none
  · rw [if_pos hc]
    by_cases hp : p = pemDocPath serial expDate issuer
    · rw [if_pos ⟨hp, hc⟩, hp, AList.lookup_insert]
    · rw [if_neg fun h => hp h.1, AList.lookup_insert_ne hp]
  · rw [if_neg hc, if_neg fun h => hc h.2]

/-- A store of the document `id` that exists changes nothing; one that does not exist is created
    with the store's bytes exactly when the store creates it. -/
theorem lookup_storeCertificatePEM_self (createErr : Option FsError) (docs : GoMap CtDoc)
    (serial : Serial) (expDate : Bytes) (issuer : Issuer) (b : Bytes)
    (hid : isDocPath (pemDocPath serial expDate issuer) = true) :
    let id := pemDocPath serial expDate issuer
    (((storeCertificatePEM createErr docs serial expDate issuer b).map Prod.fst).getD docs).lookup
        id = (docs.lookup id).orElse fun _ =>
      ((Write.storePEM serial expDate issuer b createErr).createsAt id).map .pem := by
  intro id
  rw [lookup_store]
  rcases hd : docs.lookup id with _ | d <;> cases createErr <;> by_cases he : expDate = [] <;>
    simp [Write.createsAt, hd, he, hid, id]

/-! ## After any run of writes -/

/-- After any run of writes in which every allocation names plain names, the PEM document of a certificate
    whose names are non-empty and plain is the one it was, or else the first write of the
    run that creates it. -/
theorem lookup_run (ws : List Write) {serial : Serial} {expDate : Bytes} {issuer : Issuer}
    (hnames : ∀ n ∈ [expDate, issuer.id, serial.id], n ≠ [] ∧ Plain n)
    (halloc : ∀ e i t setErr₁ setErr₂, .allocate e i t setErr₁ setErr₂ ∈ ws →
      Plain e ∧ Plain i.id) :
    ∀ docs : GoMap CtDoc, (ws.foldl Write.apply docs).lookup (pemDocPath serial expDate issuer) =
      (docs.lookup (pemDocPath serial expDate issuer)).orElse fun _ =>
        (firstCreated (pemDocPath serial expDate issuer) ws).map .pem := by
  set id := pemDocPath serial expDate issuer
  induction ws with
  | nil => intro docs; simp only [List.foldl_nil, firstCreated, List.findSome?_nil, Option.map_none']; cases docs.lookup id <;> rfl
  | cons w ws ih =>
    intro docs
    have hstep : (Write.apply docs w).lookup id =
        (docs.lookup id).orElse fun _ => (w.createsAt id).map .pem := by
      cases w with
      | storePEM s e i b err =>
        by_cases hsame : id = pemDocPath s e i
        · rw [Write.apply, hsame, lookup_storeCertificatePEM_self err docs s e i b
            (hsame ▸ isDocPath_pemDocPath hnames)]
        · rw [Write.apply, lookup_store, if_neg fun h => hsame h.1]
          cases err <;> cases docs.lookup id <;> simp [Write.createsAt, Ne.symm hsame]
      | allocate e i t err₁ err₂ =>
        obtain ⟨he, hi⟩ := halloc e i t err₁ err₂ (List.mem_cons_self _ _)
        obtain ⟨h₁, h₂⟩ := pemDocPath_ne_allocation hnames he hi
        rw [Write.apply, lookup_allocate, if_neg fun h => h₂ h.1.symm, if_neg fun h => h₁ h.1.symm]
        cases docs.lookup id <;> rfl
    rw [List.foldl_cons, ih fun e i t err₁ err₂ h => halloc e i t err₁ err₂ (List.mem_cons_of_mem _ h), hstep]
    simp only [firstCreated, List.findSome?_cons]
    cases docs.lookup id <;> cases w.createsAt id <;> rfl

/-- `LoadCertificatePEM` of a document that holds the PEM bytes `x`, or does not exist. -/
theorem loadCertificatePEM_of_lookup {docs : GoMap CtDoc} {serial : Serial} {expDate : Bytes}
    {issuer : Issuer} (hnames : ∀ n ∈ [expDate, issuer.id, serial.id], n ≠ [] ∧ Plain n)
    {x : Option Bytes} (h : docs.lookup (pemDocPath serial expDate issuer) = x.map .pem) :
    loadCertificatePEM none docs serial expDate issuer = some (x.elim (.error notFound) .ok) := by
  unfold loadCertificatePEM
  simp only [isDocPath_pemDocPath hnames, h, Bool.not_true, Bool.false_eq_true, if_false]
  cases x <;> rfl

end CtMapReduce.Storage.FirestoreBackend
