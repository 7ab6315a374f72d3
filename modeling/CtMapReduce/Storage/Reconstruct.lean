import CtMapReduce.Go.Pem
import CtMapReduce.Go.Bufio
import CtMapReduce.Storage.Types

/-!
# Reading a shard file back: `ReconstructIssuerMetadata`

`DiskDatabase.Store` appends each certificate of a shard to its `.pem` file as one PEM block with
headers `Log` and `Recorded-at`. `ReconstructIssuerMetadata` (`part_001:185-263`) scans the file
with a split function that cuts after the first `kPemEndCert`, decodes each token, and calls
`meta.Accumulate` and `known.WasUnknown` for each certificate that parses; a token with bytes left
over ends the loop with an error. `reconstructLoop_eq` factors the loop through the scanner.
When no header value ends with `-----END CERTIFICATE-----`, the tokens of the file the `Store`
calls write are exactly its blocks, and the loop makes its two calls once per block, in file
order, whatever the chunks (`reconstruct_shardFile`); a `Log` value that does end so hides its
certificate (`reconstruct_end_marker_log_no_calls`), and a last block cut short by a failed
`pem.Encode` is dropped with a `nil` error (`reconstruct_torn_last`). `x509.ParseCertificate` is a
parameter; opening the file, `NewCacheEntry` and the deferred `Close` are modelled in `DiskStore`.
-/

namespace CtMapReduce.Storage
open CtMapReduce.Go CtMapReduce.Go.Bufio

/-- `kPemEndCert` (`part_001:32`). -/
def kPemEndCert : Bytes := ascii "-----END CERTIFICATE-----\n"

/-- The capacity of the scan buffer, `512*1024` (`part_001:200`). -/
def kScanBufferSize : Nat := 512 * 1024

/-- The split function of `ReconstructIssuerMetadata` (`part_001:207-219`): once there is more
    data than `kPemEndCert`, the data up to and including its first occurrence. The slice
    `Scan` passes is never `nil`. -/
def pemSplit (data : Bytes) (_atEOF : Bool) : Nat × Option Bytes :=
  if kPemEndCert.length < data.length then
    match Pem.index kPemEndCert data with
    | some offset =>
      (offset + kPemEndCert.length, some (data.take (offset + kPemEndCert.length)))
    | none => (0, none)
  else (0, none)

/-- The fields of a parsed `*x509.Certificate` that `ReconstructIssuerMetadata` reads: those
    `Accumulate` reads, and `SerialNumber`. -/
structure ParsedCertificate where
  cert : Certificate
  serialNumber : Int
  deriving DecidableEq, Repr

/-- The calls `ReconstructIssuerMetadata` makes on its cache entry. -/
inductive Call where
  /-- `cacheEntry.meta.Accumulate(cert)`. -/
  | accumulate (c : Certificate)
  /-- `cacheEntry.known.WasUnknown(cert.SerialNumber)`. -/
  | wasUnknown (serial : Int)
  deriving DecidableEq, Repr

/-- The errors `ReconstructIssuerMetadata` returns from its loop. -/
inductive ReconstructError where
  /-- `scanner.Err()`. -/
  | scan (e : ScanError)
  /-- `"PEM Scanner failure, should have been an exact PEM. Rest=%s, Buf=%s"`, of the rest and
      the token. -/
  | pemScannerFailure (rest token : Bytes)
  deriving DecidableEq, Repr

/-- The calls for a certificate whose bytes `ParseCertificate` reads, and none for one it
    rejects. -/
def parsedCalls (x509 : Bytes → Option ParsedCertificate) (raw : Bytes) : List Call :=
  match x509 raw with
  | some p => [.accumulate p.cert, .wasUnknown p.serialNumber]
  | none => []

/-- The body of the loop after `Scan` returned `token` (`part_001:227-261`): the calls it makes
    before the next `Scan`, or the error it returns. -/
def handleToken (x509 : Bytes → Option ParsedCertificate) (token : Bytes) :
    Except ReconstructError (List Call) :=
  match Pem.decode token with
  | none => .ok []
  | some (block, rest) =>
    if rest ≠ [] then .error (.pemScannerFailure rest token)
    else if block.type ≠ ascii "CERTIFICATE" then .ok []
    else .ok (parsedCalls x509 block.bytes)

/-- The loop of `ReconstructIssuerMetadata` (`part_001:223-262`), with `fuel` passes, from the
    calls made so far. -/
def reconstructLoop (x509 : Bytes → Option ParsedCertificate) (c : Chunking) :
    Nat → Scanner → List Call → Option (Option ReconstructError × List Call)
  | 0, _, _ => none
  | fuel + 1, s, calls =>
    match scan pemSplit c s with
    | none => none
    | some (false, s) => some (s.errResult.map .scan, calls)
    | some (true, s) =>
      match handleToken x509 (s.token.getD []) with
      | .error e => some (some e, calls)
      | .ok cs => reconstructLoop x509 c fuel s (calls ++ cs)

/-- `ReconstructIssuerMetadata` on a shard file holding `file`, read in the chunks `c`: the error
    it returns and the calls it makes, in order. A token takes at least one byte, so the loop
    makes at most one pass per byte and one more. -/
def reconstructIssuerMetadata (x509 : Bytes → Option ParsedCertificate) (c : Chunking)
    (file : Bytes) : Option (Option ReconstructError × List Call) :=
  reconstructLoop x509 c (file.length + 1) (newScanner file kScanBufferSize kScanBufferSize) []

/-- The tokens the scanner of `ReconstructIssuerMetadata` returns from `file`, and `Err()`. -/
def scanTokens (c : Chunking) (file : Bytes) : Option (List Bytes × Option ScanError) :=
  tokensLoop pemSplit c (file.length + 1) (newScanner file kScanBufferSize kScanBufferSize)

/-- The loop handling `tokens` in turn, after calls `calls`, when `Scan` ends with `err`. -/
def handleTokens (x509 : Bytes → Option ParsedCertificate) (err : Option ScanError) :
    List Call → List Bytes → Option ReconstructError × List Call
  | calls, [] => (err.map .scan, calls)
  | calls, t :: ts =>
    match handleToken x509 t with
    | .error e => (some e, calls)
    | .ok cs => handleTokens x509 err (calls ++ cs) ts

/-! ## What `Store` writes -/

/-- What `Store` is given for one certificate (`part_001:325`): its DER bytes `aCert.Raw`, the
    log URL, and the RFC 3339 text of `time.Now()` when it ran. -/
structure StoredCert where
  raw : Bytes
  logURL : Bytes
  recordedAt : Bytes
  deriving DecidableEq, Repr

/-- The headers `Store` sets (`part_001:329-331`). -/
def storeHeaders (logURL recordedAt : Bytes) : GoMap Bytes :=
  ((∅ : GoMap Bytes).insert (ascii "Log") logURL).insert (ascii "Recorded-at") recordedAt

/-- The block `Store` encodes (`part_001:333-337`). -/
def storeBlock (e : StoredCert) : Pem.Block :=
  ⟨ascii "CERTIFICATE", storeHeaders e.logURL e.recordedAt, e.raw⟩

/-- The bytes `pem.Encode` appends to the shard file for one certificate. -/
def storedBytes (e : StoredCert) : Bytes :=
  match Pem.encode (storeBlock e) with
  | .ok b => b
  | .error _ => []

/-- The shard file after `Store` appended the certificates `certs` in turn. -/
def shardFile (certs : List StoredCert) : Bytes := certs.flatMap storedBytes

/-! ## The split function -/

/-- The split function cuts a piece that holds `kPemEndCert` only at its end: it asks for more
    data until the piece is all there, and then returns it. -/
theorem pemSplit_cuts {p : Bytes} (hlen : kPemEndCert.length < p.length)
    (hidx : Pem.index kPemEndCert p = some (p.length - kPemEndCert.length)) : Cuts pemSplit p := by
  intro d more atEOF hd
  split_ifs with hshort
  · obtain ⟨r, rfl⟩ := List.prefix_of_prefix_length_le hd (List.prefix_append _ _) hshort.le
    unfold pemSplit
    split_ifs
    · rcases hi : Pem.index kPemEndCert d with _ | i
      · rfl
      · have hle := Pem.index_add_le hi
        have heq := (Pem.index_append_of_some hi r).symm.trans hidx
        simp only [Option.some.injEq, List.length_append] at heq hshort
        omega
    · rfl
  · obtain ⟨r, rfl⟩ := List.prefix_of_prefix_length_le (List.prefix_append _ _) hd (by omega)
    have hsub : p.length - kPemEndCert.length + kPemEndCert.length = p.length := by omega
    unfold pemSplit
    rw [if_pos (by simp only [List.length_append]; omega), Pem.index_append_of_some hidx]
    simp only [hsub, List.take_left]

/-! ## The blocks `Store` writes -/

theorem storedBytes_eq (e : StoredCert) : storedBytes e =
    Pem.pemStart.drop 1 ++ ascii "CERTIFICATE" ++ Pem.pemEndOfLine ++ [Pem.nl] ++
      ([(ascii "Log", e.logURL), (ascii "Recorded-at", e.recordedAt)].flatMap
        fun kv => Pem.writeHeader kv.1 kv.2) ++ [Pem.nl] ++
      Pem.lineBreaker [] (Base64.stdEncodeToString e.raw) ++ Pem.pemEnd.drop 1 ++
      ascii "CERTIFICATE" ++ Pem.pemEndOfLine ++ [Pem.nl] := rfl

/-- A text ends with `p` only if its tail `l` does, when no nonempty tail of its head `a` starts
    `p`. -/
theorem not_suffix_append {p a l : Bytes} (hp : ¬p <:+ l)
    (ha : ∀ t ∈ a.tails, t ≠ [] → ¬t <+: p) : ¬p <:+ a ++ l := by
  induction a with
  | nil => simpa using hp
  | cons c a ih =>
    rw [List.cons_append, List.suffix_cons_iff, not_or]
    refine ⟨fun h => ha (c :: a) (by simp) (List.cons_ne_nil _ _) ?_,
      ih fun t ht => ha t (by simp [ht])⟩
    rw [h, ← List.cons_append]
    exact List.prefix_append _ _

/-- `kPemEndCert` first occurs in a stored block at its END line, when neither header value ends
    with `-----END CERTIFICATE-----`: each earlier line is the BEGIN line, a header line, or a
    line of base64, which holds no dash. -/
theorem index_storedBytes {e : StoredCert} (hnl : Pem.nl ∉ e.logURL ∧ Pem.nl ∉ e.recordedAt)
    (hend : ¬ascii "-----END CERTIFICATE-----" <:+ e.logURL ∧
      ¬ascii "-----END CERTIFICATE-----" <:+ e.recordedAt) :
    Pem.index kPemEndCert (storedBytes e) = some ((storedBytes e).length - kPemEndCert.length) := by
  obtain ⟨x, hx, hx45, -⟩ := Pem.lineBreaker_stdEncode e.raw
  have hdash : (45 : Fin 256) ∉ x ++ [Pem.nl] := List.not_mem_append hx45 (by decide)
  have hlayout : storedBytes e = ascii "-----BEGIN CERTIFICATE-----" ++ Pem.nl ::
      (ascii "Log: " ++ e.logURL ++ Pem.nl :: (ascii "Recorded-at: " ++ e.recordedAt ++
        Pem.nl :: ((x ++ [Pem.nl]) ++ kPemEndCert))) := by
    rw [storedBytes_eq, ← hx]
    simp only [List.flatMap_cons, List.flatMap_nil, List.append_nil, Pem.writeHeader,
      List.append_assoc, List.cons_append, List.singleton_append, List.nil_append]
    rfl
  have hsep : kPemEndCert = 45 :: ascii "----END CERTIFICATE-----\n" := rfl
  have hline : kPemEndCert = ascii "-----END CERTIFICATE-----" ++ [Pem.nl] := rfl
  have hp : Pem.nl ∉ ascii "-----END CERTIFICATE-----" := by decide
  have hlog : ¬ascii "-----END CERTIFICATE-----" <:+ ascii "Log: " ++ e.logURL :=
    not_suffix_append hend.1 (by decide)
  have hrec : ¬ascii "-----END CERTIFICATE-----" <:+ ascii "Recorded-at: " ++ e.recordedAt :=
    not_suffix_append hend.2 (by decide)
  have hnl₂ : Pem.nl ∉ ascii "Log: " ++ e.logURL := by
    simp only [List.mem_append, not_or]
    exact ⟨by decide, hnl.1⟩
  have hnl₃ : Pem.nl ∉ ascii "Recorded-at: " ++ e.recordedAt := by
    simp only [List.mem_append, not_or]
    exact ⟨by decide, hnl.2⟩
  rw [hlayout]
  conv_lhs => rw [hline, Pem.index_line hp (by decide) (by decide), Pem.index_line hp hnl₂ hlog,
    Pem.index_line hp hnl₃ hrec, ← hline, hsep, Pem.index_append_of_head_not_mem hdash,
    Pem.index_cons, if_pos List.prefix_rfl]
  simp only [Option.map_some', List.length_append, List.length_cons, List.length_singleton]
  congr 1
  omega

/-- A stored block decodes whole: `pem.Decode` gives its type and bytes, and no rest. -/
theorem decode_storedBytes {e : StoredCert} (hnl : Pem.nl ∉ e.logURL ∧ Pem.nl ∉ e.recordedAt) :
    Pem.decode (storedBytes e) = some (⟨ascii "CERTIFICATE", e.raw⟩, []) := by
  rw [storedBytes_eq]
  refine Pem.decode_encoded (by decide) (List.cons_ne_nil _ _) fun kv hkv => ?_
  simp only [List.mem_cons, List.mem_singleton, List.not_mem_nil, or_false] at hkv
  rcases hkv with rfl | rfl
  · exact ⟨show Pem.nl ∉ ascii "Log" by decide, hnl.1⟩
  · exact ⟨show Pem.nl ∉ ascii "Recorded-at" by decide, hnl.2⟩

/-- The loop body makes the calls for the certificate of a stored block. -/
theorem handleToken_storedBytes (x509 : Bytes → Option ParsedCertificate) {e : StoredCert}
    (hnl : Pem.nl ∉ e.logURL ∧ Pem.nl ∉ e.recordedAt) :
    handleToken x509 (storedBytes e) = .ok (parsedCalls x509 e.raw) := by
  simp [handleToken, decode_storedBytes hnl]

/-! ## The loop, through the scanner -/

/-- The loop of `ReconstructIssuerMetadata` handles the tokens of its scanner in turn: scanning on
    past a token that ends the loop changes nothing it returns. -/
theorem reconstructLoop_eq (x509 : Bytes → Option ParsedCertificate) (c : Chunking) :
    ∀ (fuel : Nat) (s : Scanner) (calls : List Call) (toks : List Bytes) (err : Option ScanError),
      tokensLoop pemSplit c fuel s = some (toks, err) →
      reconstructLoop x509 c fuel s calls = some (handleTokens x509 err calls toks)
  | 0, _, _, _, _, h => by simp [tokensLoop] at h
  | fuel + 1, s, calls, toks, err, h => by
    rcases hs : scan pemSplit c s with _ | ⟨ok, s'⟩
    · simp [tokensLoop, hs] at h
    · cases ok
      · simp [tokensLoop, hs] at h
        obtain ⟨rfl, rfl⟩ := h
        simp [reconstructLoop, hs, handleTokens]
      · rcases hrest : tokensLoop pemSplit c fuel s' with _ | ⟨toks', err'⟩
        · simp [tokensLoop, hs, hrest] at h
        · simp [tokensLoop, hs, hrest] at h
          obtain ⟨rfl, rfl⟩ := h
          simp only [reconstructLoop, hs, handleTokens]
          cases handleToken x509 (s'.token.getD []) with
          | error e => rfl
          | ok cs => exact reconstructLoop_eq x509 c fuel s' (calls ++ cs) toks' err' hrest

/-- Handling the stored blocks in turn makes the calls for each certificate, in order. -/
theorem handleTokens_storedBytes (x509 : Bytes → Option ParsedCertificate) :
    ∀ (certs : List StoredCert) (calls : List Call),
      (∀ e ∈ certs, Pem.nl ∉ e.logURL ∧ Pem.nl ∉ e.recordedAt) →
      handleTokens x509 none calls (certs.map storedBytes) =
        (none, calls ++ certs.flatMap fun e => parsedCalls x509 e.raw)
  | [], calls, _ => by simp [handleTokens]
  | e :: certs, calls, hnl => by
    rw [List.map_cons, handleTokens, handleToken_storedBytes x509 (hnl e (List.mem_cons_self _ _))]
    dsimp only
    rw [handleTokens_storedBytes x509 certs _ fun e' h => hnl e' (List.mem_cons_of_mem _ h)]
    simp

/-! ## The shard file, read back -/

theorem pemSplit_nil : pemSplit [] true = (0, none) := rfl

/-- The scanner of `ReconstructIssuerMetadata` starts in a good state. -/
theorem newScanner_wf (file : Bytes) : (newScanner file kScanBufferSize kScanBufferSize).Wf :=
  ⟨by simp [newScanner, kScanBufferSize], show 0 < kScanBufferSize by decide, le_rfl,
    show kScanBufferSize ≤ maxInt / 2 by decide, Or.inl rfl⟩

/-- A stored block is longer than `kPemEndCert`: its BEGIN line alone is. -/
theorem kPemEndCert_length_lt (e : StoredCert) : kPemEndCert.length < (storedBytes e).length := by
  have hbegin : (Pem.pemStart.drop 1 ++ ascii "CERTIFICATE" ++ Pem.pemEndOfLine ++ [Pem.nl]).length =
      28 := rfl
  have hlen : kPemEndCert.length = 26 := rfl
  rw [storedBytes_eq]
  simp only [List.length_append] at hbegin ⊢
  omega

/-- One token per stored block is at most one token per byte. -/
theorem length_le_length_shardFile (certs : List StoredCert) :
    certs.length ≤ (shardFile certs).length := by
  induction certs with
  | nil => simp
  | cons e certs ih =>
    have := kPemEndCert_length_lt e
    simp only [shardFile, List.flatMap_cons, List.length_cons, List.length_append] at ih ⊢
    omega

/-- Each stored block is a piece the split function cuts, when no header value holds a newline
    or ends with `-----END CERTIFICATE-----`. -/
theorem storedBytes_pieces {certs : List StoredCert}
    (hnl : ∀ e ∈ certs, Pem.nl ∉ e.logURL ∧ Pem.nl ∉ e.recordedAt)
    (hend : ∀ e ∈ certs, ¬ascii "-----END CERTIFICATE-----" <:+ e.logURL ∧
      ¬ascii "-----END CERTIFICATE-----" <:+ e.recordedAt)
    (hfit : ∀ e ∈ certs, (storedBytes e).length ≤ kScanBufferSize) :
    ∀ p ∈ certs.map storedBytes, p ≠ [] ∧ p.length ≤ kScanBufferSize ∧ Cuts pemSplit p := by
  simp only [List.mem_map]
  rintro _ ⟨e, he, rfl⟩
  have hlt := kPemEndCert_length_lt e
  exact ⟨List.ne_nil_of_length_pos (by omega), hfit e he,
    pemSplit_cuts hlt (index_storedBytes (hnl e he) (hend e he))⟩

/-- The scanner of `ReconstructIssuerMetadata` cuts a shard file exactly into the blocks `Store`
    wrote, whatever the chunks it is read in, when no header value ends with
    `-----END CERTIFICATE-----` and each block fits the scan buffer. -/
theorem scanTokens_shardFile (c : Chunking) (certs : List StoredCert)
    (hnl : ∀ e ∈ certs, Pem.nl ∉ e.logURL ∧ Pem.nl ∉ e.recordedAt)
    (hend : ∀ e ∈ certs, ¬ascii "-----END CERTIFICATE-----" <:+ e.logURL ∧
      ¬ascii "-----END CERTIFICATE-----" <:+ e.recordedAt)
    (hfit : ∀ e ∈ certs, (storedBytes e).length ≤ kScanBufferSize) :
    scanTokens c (shardFile certs) = some (certs.map storedBytes, none) := by
  refine tokensLoop_pieces pemSplit_nil _ _ _ (newScanner_wf _) (storedBytes_pieces hnl hend hfit)
    ?_ ?_
  · simp [newScanner, shardFile, List.flatMap_def]
  · simpa using Nat.lt_succ_of_le (length_le_length_shardFile certs)

/-- `ReconstructIssuerMetadata` on a shard file that `Store` wrote, read in any chunks: when no
    header value holds a newline or ends with `-----END CERTIFICATE-----`, and each block fits
    the scan buffer, its scanner returns exactly the blocks written, each decodes whole to its
    certificate's bytes, and the loop returns `nil` after calling `Accumulate` and `WasUnknown`
    once for each certificate that re-parses, in file order. -/
theorem reconstruct_shardFile (x509 : Bytes → Option ParsedCertificate) (c : Chunking)
    (certs : List StoredCert) (hnl : ∀ e ∈ certs, Pem.nl ∉ e.logURL ∧ Pem.nl ∉ e.recordedAt)
    (hend : ∀ e ∈ certs, ¬ascii "-----END CERTIFICATE-----" <:+ e.logURL ∧
      ¬ascii "-----END CERTIFICATE-----" <:+ e.recordedAt)
    (hfit : ∀ e ∈ certs, (storedBytes e).length ≤ kScanBufferSize) :
    scanTokens c (shardFile certs) = some (certs.map storedBytes, none) ∧
      (∀ e ∈ certs, Pem.decode (storedBytes e) = some (⟨ascii "CERTIFICATE", e.raw⟩, [])) ∧
      reconstructIssuerMetadata x509 c (shardFile certs) =
        some (none, certs.flatMap fun e => parsedCalls x509 e.raw) := by
  have htok := scanTokens_shardFile c certs hnl hend hfit
  refine ⟨htok, fun e he => decode_storedBytes (hnl e he), ?_⟩
  rw [reconstructIssuerMetadata, reconstructLoop_eq x509 c _ _ [] _ _ htok,
    handleTokens_storedBytes x509 certs [] hnl, List.nil_append]

/-- One certificate logged at an ordinary URL, read back whole. -/
theorem reconstruct_shardFile_one_cert :
    let e : StoredCert := ⟨[48, 0], ascii "https://ct.example/log", ascii "2019-09-01T00:00:00Z"⟩
    let x509 : Bytes → Option ParsedCertificate := fun b => some ⟨⟨Time.zero, [], b⟩, 1⟩
    let c : Chunking := ⟨fun _ => 1, fun _ => Nat.one_pos⟩
    (∀ e' ∈ [e], Pem.nl ∉ e'.logURL ∧ Pem.nl ∉ e'.recordedAt) ∧
      (∀ e' ∈ [e], ¬ascii "-----END CERTIFICATE-----" <:+ e'.logURL ∧
        ¬ascii "-----END CERTIFICATE-----" <:+ e'.recordedAt) ∧
      (∀ e' ∈ [e], (storedBytes e').length ≤ kScanBufferSize) ∧
      scanTokens c (shardFile [e]) = some ([e].map storedBytes, none) ∧
      (∀ e' ∈ [e], Pem.decode (storedBytes e') = some (⟨ascii "CERTIFICATE", e'.raw⟩, [])) ∧
      reconstructIssuerMetadata x509 c (shardFile [e]) =
        some (none, [e].flatMap fun e' => parsedCalls x509 e'.raw) := by
  intro e x509 c
  have hnl : ∀ e' ∈ [e], Pem.nl ∉ e'.logURL ∧ Pem.nl ∉ e'.recordedAt := by
    simp only [List.mem_singleton, forall_eq, e]
    decide
  have hend : ∀ e' ∈ [e], ¬ascii "-----END CERTIFICATE-----" <:+ e'.logURL ∧
      ¬ascii "-----END CERTIFICATE-----" <:+ e'.recordedAt := by
    simp only [List.mem_singleton, forall_eq]
    exact ⟨fun h => absurd h.length_le (by decide), fun h => absurd h.length_le (by decide)⟩
  have hfit : ∀ e' ∈ [e], (storedBytes e').length ≤ kScanBufferSize := by
    simp only [List.mem_singleton, forall_eq, e]
    decide
  exact ⟨hnl, hend, hfit, reconstruct_shardFile x509 c [e] hnl hend hfit⟩

/-- A `Log` value that ends with `-----END CERTIFICATE-----` holds no newline, and its block fits
    the buffer; yet the split function cuts the block after the `Log` line. Neither piece decodes
    to a block, so, whatever the parser and the chunks, the certificate is never passed to
    `Accumulate` or `WasUnknown`, and the loop still returns `nil`. -/
theorem reconstruct_end_marker_log_no_calls (x509 : Bytes → Option ParsedCertificate)
    (c : Chunking) :
    let e : StoredCert := ⟨[48, 0], ascii "-----END CERTIFICATE-----", ascii "2019-09-01T00:00:00Z"⟩
    let t₁ := ascii "-----BEGIN CERTIFICATE-----\nLog: -----END CERTIFICATE-----\n"
    let t₂ := ascii "Recorded-at: 2019-09-01T00:00:00Z\n\nMAA=\n-----END CERTIFICATE-----\n"
    (Pem.nl ∉ e.logURL ∧ Pem.nl ∉ e.recordedAt) ∧ (storedBytes e).length ≤ kScanBufferSize ∧
      scanTokens c (shardFile [e]) = some ([t₁, t₂], none) ∧
      Pem.decode t₁ = none ∧ Pem.decode t₂ = none ∧
      reconstructIssuerMetadata x509 c (shardFile [e]) = some (none, []) := by
  intro e t₁ t₂
  have hstored : storedBytes e = t₁ ++ t₂ := by
    simp only [e, t₁, t₂]
    decide
  have hbytes : shardFile [e] = t₁ ++ t₂ := by
    simp only [shardFile, List.flatMap_cons, List.flatMap_nil, List.append_nil, hstored]
  have hd₁ : Pem.decode t₁ = none := by simp only [t₁]; decide
  have hd₂ : Pem.decode t₂ = none := by simp only [t₂]; decide
  have hcut : ∀ t ∈ [t₁, t₂], t ≠ [] ∧ t.length ≤ kScanBufferSize ∧ Cuts pemSplit t := by
    simp only [List.mem_cons, List.mem_singleton, List.not_mem_nil, or_false, forall_eq_or_imp,
      forall_eq, t₁, t₂]
    refine ⟨⟨by decide, by decide, pemSplit_cuts (by decide) (by decide)⟩,
      ⟨by decide, by decide, pemSplit_cuts (by decide) (by decide)⟩⟩
  have htok : scanTokens c (shardFile [e]) = some ([t₁, t₂], none) :=
    tokensLoop_pieces pemSplit_nil _ _ _ (newScanner_wf _) hcut
      (by simp [newScanner, hbytes]) (by rw [hbytes]; simp only [t₁, t₂]; decide)
  refine ⟨by simp only [e]; decide, by rw [hstored]; simp only [t₁, t₂]; decide, htok, hd₁, hd₂,
    ?_⟩
  rw [reconstructIssuerMetadata, reconstructLoop_eq x509 c _ _ [] _ _ htok]
  simp [handleTokens, handleToken, hd₁, hd₂]

/-- That file, read one byte at a time, with a parser that accepts every certificate. -/
theorem reconstruct_skips_end_marker_log :
    let x509 : Bytes → Option ParsedCertificate := fun b => some ⟨⟨Time.zero, [], b⟩, 1⟩
    let c : Chunking := ⟨fun _ => 1, fun _ => Nat.one_pos⟩
    let e : StoredCert := ⟨[48, 0], ascii "-----END CERTIFICATE-----", ascii "2019-09-01T00:00:00Z"⟩
    let t₁ := ascii "-----BEGIN CERTIFICATE-----\nLog: -----END CERTIFICATE-----\n"
    let t₂ := ascii "Recorded-at: 2019-09-01T00:00:00Z\n\nMAA=\n-----END CERTIFICATE-----\n"
    (Pem.nl ∉ e.logURL ∧ Pem.nl ∉ e.recordedAt) ∧ (storedBytes e).length ≤ kScanBufferSize ∧
      scanTokens c (shardFile [e]) = some ([t₁, t₂], none) ∧
      Pem.decode t₁ = none ∧ Pem.decode t₂ = none ∧
      reconstructIssuerMetadata x509 c (shardFile [e]) = some (none, []) :=
  reconstruct_end_marker_log_no_calls _ _

/-! ## A torn last block -/

/-- A proper prefix of a stored block holds no `kPemEndCert`: its first occurrence ends the
    block. So the split function finds no token in any prefix of it. -/
theorem pemSplit_torn {e : StoredCert} (hnl : Pem.nl ∉ e.logURL ∧ Pem.nl ∉ e.recordedAt)
    (hend : ¬ascii "-----END CERTIFICATE-----" <:+ e.logURL ∧
      ¬ascii "-----END CERTIFICATE-----" <:+ e.recordedAt)
    {n : Nat} (hn : n < (storedBytes e).length) :
    ∀ d atEOF, d <+: (storedBytes e).take n → d ≠ [] → pemSplit d atEOF = (0, none) := by
  intro d atEOF hd _
  unfold pemSplit
  split_ifs
  · rcases hi : Pem.index kPemEndCert d with _ | i
    · rfl
    · obtain ⟨r, hr⟩ := hd.trans (List.take_prefix n _)
      have hfirst := Pem.index_append_of_some hi r
      rw [hr, index_storedBytes hnl hend, Option.some.injEq] at hfirst
      have hle := Pem.index_add_le hi
      have hd_le : d.length ≤ n := hd.length_le.trans (List.length_take_le _ _)
      omega
  · rfl

/-- `ReconstructIssuerMetadata` on a shard file whose last block a failed `pem.Encode` cut short,
    read in any chunks, when every block, the torn one included, meets the conditions of
    `reconstruct_shardFile`: the scanner returns the whole blocks and drops the torn one at the
    end of the file, and the loop returns `nil` after the calls for the whole blocks only. The
    torn certificate is passed over with no error. -/
theorem reconstruct_torn_last (x509 : Bytes → Option ParsedCertificate) (c : Chunking)
    (certs : List StoredCert) (e : StoredCert) {n : Nat} (hn : n < (storedBytes e).length)
    (hnl : ∀ e' ∈ e :: certs, Pem.nl ∉ e'.logURL ∧ Pem.nl ∉ e'.recordedAt)
    (hend : ∀ e' ∈ e :: certs, ¬ascii "-----END CERTIFICATE-----" <:+ e'.logURL ∧
      ¬ascii "-----END CERTIFICATE-----" <:+ e'.recordedAt)
    (hfit : ∀ e' ∈ e :: certs, (storedBytes e').length ≤ kScanBufferSize) :
    scanTokens c (shardFile certs ++ (storedBytes e).take n) = some (certs.map storedBytes, none) ∧
      reconstructIssuerMetadata x509 c (shardFile certs ++ (storedBytes e).take n) =
        some (none, certs.flatMap fun e' => parsedCalls x509 e'.raw) := by
  have hnl' := fun e' he' => hnl e' (List.mem_cons_of_mem e he')
  have htok : scanTokens c (shardFile certs ++ (storedBytes e).take n) =
      some (certs.map storedBytes, none) := by
    refine tokensLoop_pieces_tail pemSplit_nil
      (pemSplit_torn (hnl e (List.mem_cons_self _ _)) (hend e (List.mem_cons_self _ _)) hn) _ _ _
      (newScanner_wf _) (storedBytes_pieces hnl' (fun e' he' => hend e' (List.mem_cons_of_mem e he'))
        fun e' he' => hfit e' (List.mem_cons_of_mem e he')) ?_ ?_ ?_
    · have := hfit e (List.mem_cons_self _ _)
      simp only [newScanner, List.length_take]
      omega
    · simp [newScanner, shardFile, List.flatMap_def]
    · have := length_le_length_shardFile certs
      simp only [List.length_map, List.length_append]
      omega
  refine ⟨htok, ?_⟩
  rw [reconstructIssuerMetadata, reconstructLoop_eq x509 c _ _ [] _ _ htok,
    handleTokens_storedBytes x509 certs [] hnl', List.nil_append]

/-- One whole block and the first 20 bytes of a second, read one byte at a time. -/
theorem reconstruct_torn_last_after_one :
    let e₁ : StoredCert := ⟨[48, 0], ascii "https://ct.example/log", ascii "2019-09-01T00:00:00Z"⟩
    let e₂ : StoredCert := ⟨[48, 1], ascii "https://ct.example/log", ascii "2019-09-01T00:00:01Z"⟩
    let x509 : Bytes → Option ParsedCertificate := fun b => some ⟨⟨Time.zero, [], b⟩, 1⟩
    let c : Chunking := ⟨fun _ => 1, fun _ => Nat.one_pos⟩
    20 < (storedBytes e₂).length ∧
      (∀ e' ∈ [e₂, e₁], Pem.nl ∉ e'.logURL ∧ Pem.nl ∉ e'.recordedAt) ∧
      (∀ e' ∈ [e₂, e₁], ¬ascii "-----END CERTIFICATE-----" <:+ e'.logURL ∧
        ¬ascii "-----END CERTIFICATE-----" <:+ e'.recordedAt) ∧
      (∀ e' ∈ [e₂, e₁], (storedBytes e').length ≤ kScanBufferSize) ∧
      scanTokens c (shardFile [e₁] ++ (storedBytes e₂).take 20) = some ([e₁].map storedBytes, none) ∧
      reconstructIssuerMetadata x509 c (shardFile [e₁] ++ (storedBytes e₂).take 20) =
        some (none, [e₁].flatMap fun e' => parsedCalls x509 e'.raw) := by
  intro e₁ e₂ x509 c
  have hn : 20 < (storedBytes e₂).length := lt_trans (by decide) (kPemEndCert_length_lt e₂)
  have hnl : ∀ e' ∈ [e₂, e₁], Pem.nl ∉ e'.logURL ∧ Pem.nl ∉ e'.recordedAt := by
    simp only [List.mem_cons, List.mem_singleton, List.not_mem_nil, or_false, forall_eq_or_imp,
      forall_eq, e₁, e₂]
    decide
  have hend : ∀ e' ∈ [e₂, e₁], ¬ascii "-----END CERTIFICATE-----" <:+ e'.logURL ∧
      ¬ascii "-----END CERTIFICATE-----" <:+ e'.recordedAt := by
    simp only [List.mem_cons, List.mem_singleton, List.not_mem_nil, or_false, forall_eq_or_imp,
      forall_eq]
    exact ⟨⟨fun h => absurd h.length_le (by decide), fun h => absurd h.length_le (by decide)⟩,
      fun h => absurd h.length_le (by decide), fun h => absurd h.length_le (by decide)⟩
  suffices hfit : ∀ e' ∈ [e₂, e₁], (storedBytes e').length ≤ kScanBufferSize from
    ⟨hn, hnl, hend, hfit, reconstruct_torn_last x509 c [e₁] e₂ hn hnl hend hfit⟩
  decide

end CtMapReduce.Storage
