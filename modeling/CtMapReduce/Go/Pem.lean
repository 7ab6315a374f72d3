import CtMapReduce.Go.Base64

/-!
# `encoding/pem`

`DiskDatabase.Store` appends each certificate to its shard file with `pem.Encode`, and
`ReconstructIssuerMetadata` reads the tokens back with `pem.Decode` (`go/src/encoding/pem/pem.go`).
`encode` writes the BEGIN line, the headers (`Proc-Type` first, the rest sorted), the base64 body
in lines of 64 characters through `lineBreaker`, modelled byte by byte, and the END line; a key
with a colon fails before anything is written. `decode` is the loop of `Decode`; a failed check
restarts it after the lines read, and each pass drops at least `-----BEGIN `, so `len(data) + 1`
passes suffice. The header map is modelled by whether it is empty, all that `Decode` reads and
that no caller here reads more of. `decode_encoded` is the round trip for headers without a
newline: the bytes come back and nothing is left over.
-/

namespace CtMapReduce.Go.Pem

/-- `'\n'`. -/
def nl : Fin 256 := 10

/-- `'\r'`. -/
def cr : Fin 256 := 13

/-- `':'`, the separator of a header line. -/
def colon : Fin 256 := 58

/-- `pemStart`. -/
def pemStart : Bytes := ascii "\n-----BEGIN "

/-- `pemEnd`. -/
def pemEnd : Bytes := ascii "\n-----END "

/-- `pemEndOfLine`. -/
def pemEndOfLine : Bytes := ascii "-----"

/-- `pemLineLength`. -/
def pemLineLength : Nat := 64

/-! ## `bytes` helpers -/

/-- `bytes.Index(s, sep)`: the offset of the first occurrence of `sep`; `none` is `-1`. -/
def index (sep : Bytes) : Bytes → Option Nat
  | [] => if sep.isPrefixOf [] then some 0 else none
  | c :: cs => if sep.isPrefixOf (c :: cs) then some 0 else (index sep cs).map (· + 1)

/-- Space and tab. -/
def isSpaceTab (c : Fin 256) : Bool := c = 32 || c = 9

/-- `bytes.TrimRight(s, " \t")`. -/
def trimRight (s : Bytes) : Bytes := (s.reverse.dropWhile isSpaceTab).reverse

/-- `getLine`: the bytes before the first `'\n'`, or all of them, without a `'\r'` before the
    `'\n'` and without trailing spaces and tabs; and the bytes after the `'\n'`. -/
def getLine (data : Bytes) : Bytes × Bytes :=
  let line := data.takeWhile (· != nl)
  if line.length = data.length then (trimRight line, [])
  else (trimRight (if line.getLast? = some cr then line.dropLast else line),
    data.drop (line.length + 1))

/-- `removeSpacesAndTabs`. -/
def removeSpacesAndTabs (data : Bytes) : Bytes := data.filter fun c => !isSpaceTab c

/-! ### Where `bytes.Index` finds a separator -/

section Index

variable {sep : Bytes}

theorem index_cons (c : Fin 256) (cs : Bytes) :
    index sep (c :: cs) = if sep <+: c :: cs then some 0 else (index sep cs).map (· + 1) := by
  simp only [index, ← List.isPrefixOf_iff_prefix]

/-- A first occurrence lies inside the text. -/
theorem index_add_le {x : Bytes} {i : Nat} (h : index sep x = some i) : i + sep.length ≤ x.length := by
  induction x generalizing i with
  | nil =>
    simp only [index] at h
    split_ifs at h with hp
    cases h
    simpa using List.isPrefixOf_iff_prefix.1 hp |>.length_le
  | cons c cs ih =>
    rw [index_cons] at h
    split_ifs at h with hp
    · cases h
      simpa using hp.length_le
    · obtain ⟨j, hj, rfl⟩ := Option.map_eq_some'.1 h
      have := ih hj
      simp only [List.length_cons]
      omega

/-- Text after a first occurrence does not move it. -/
theorem index_append_of_some {x : Bytes} {i : Nat} (h : index sep x = some i) (y : Bytes) :
    index sep (x ++ y) = some i := by
  induction x generalizing i with
  | nil =>
    have hle := index_add_le h
    simp only [List.length_nil, Nat.le_zero, Nat.add_eq_zero] at hle
    obtain ⟨rfl, hs⟩ := hle
    rw [List.length_eq_zero.1 hs] at h ⊢
    cases y <;> simp_all [index]
  | cons c cs ih =>
    rw [index_cons] at h
    rw [List.cons_append, index_cons]
    split_ifs at h with hp
    · rw [if_pos (show sep <+: c :: (cs ++ y) from hp.trans (List.prefix_append _ _))]
      exact h
    · obtain ⟨j, hj, rfl⟩ := Option.map_eq_some'.1 h
      have hle := index_add_le hj
      have hnot : ¬sep <+: c :: (cs ++ y) := by
        rw [← List.cons_append, List.prefix_iff_eq_take,
          List.take_append_of_le_length (by simp only [List.length_cons]; omega),
          ← List.prefix_iff_eq_take]
        exact hp
      rw [if_neg hnot, ih hj]
      rfl

/-- No occurrence starts inside `x`: the search goes on in `y`. -/
theorem index_append_of_no_occurrence {x y : Bytes}
    (h : ∀ t, t <:+ x → t ≠ [] → ¬sep <+: t ++ y) :
    index sep (x ++ y) = (index sep y).map (· + x.length) := by
  induction x with
  | nil => simp
  | cons c cs ih =>
    rw [List.cons_append, index_cons,
      if_neg (show ¬sep <+: c :: (cs ++ y) from h _ List.suffix_rfl (List.cons_ne_nil _ _)),
      ih fun t ht => h t (ht.trans (List.suffix_cons _ _)), Option.map_map]
    rfl

/-- A separator whose first byte is not in `x` is first found past `x`. -/
theorem index_append_of_head_not_mem {a : Fin 256} {s x : Bytes} (ha : a ∉ x) (y : Bytes) :
    index (a :: s) (x ++ y) = (index (a :: s) y).map (· + x.length) := by
  refine index_append_of_no_occurrence fun t ht hne hp => ?_
  obtain ⟨d, t', rfl⟩ := List.exists_cons_of_ne_nil hne
  rw [List.cons_append, List.cons_prefix_cons] at hp
  exact ha (hp.1 ▸ ht.subset (List.mem_cons_self _ _))

/-- A separator whose second byte is not in `x`, and differs from its first, is first found
    right after `x` when it starts there. -/
theorem index_append_self_of_second_not_mem {a b : Fin 256} {s x : Bytes} (hb : b ∉ x)
    (hab : a ≠ b) (y : Bytes) : index (a :: b :: s) (x ++ (a :: b :: s ++ y)) = some x.length := by
  rw [index_append_of_no_occurrence, List.cons_append, index_cons,
    if_pos (show a :: b :: s <+: a :: (b :: s ++ y) from List.prefix_append _ _)]
  · simp
  intro t ht hne hp
  obtain ⟨d, t', rfl⟩ := List.exists_cons_of_ne_nil hne
  rw [List.cons_append, List.cons_prefix_cons] at hp
  rcases t' with _ | ⟨e, t''⟩
  · simp only [List.nil_append, List.cons_append, List.cons_prefix_cons] at hp
    exact hab hp.2.1.symm
  · simp only [List.cons_append, List.cons_prefix_cons] at hp
    exact hb (hp.2.1 ▸ ht.subset (List.mem_cons_of_mem _ (List.mem_cons_self _ _)))

/-- A line followed by `'\n'` begins with `p` and `'\n'` exactly when it is `p`. -/
theorem append_nl_prefix_iff {p seg y : Bytes} (hp : nl ∉ p) (hseg : nl ∉ seg) :
    p ++ [nl] <+: seg ++ nl :: y ↔ seg = p := by
  induction seg generalizing p with
  | nil =>
    rcases p with _ | ⟨a, p⟩
    · simp
    · simp only [List.cons_append, List.nil_append, List.cons_prefix_cons, List.nil_eq,
        reduceCtorEq, iff_false, not_and]
      rintro rfl
      exact absurd (List.mem_cons_self _ _) hp
  | cons c seg ih =>
    rcases p with _ | ⟨a, p⟩
    · simp only [List.nil_append, List.cons_append, List.cons_prefix_cons, reduceCtorEq,
        iff_false, not_and]
      rintro rfl
      exact absurd (List.mem_cons_self _ _) hseg
    · simp only [List.cons_append, List.cons_prefix_cons, List.cons.injEq]
      rw [ih (fun h => hp (List.mem_cons_of_mem _ h)) (fun h => hseg (List.mem_cons_of_mem _ h))]
      exact and_congr_left' eq_comm

/-- A separator `p ++ "\n"` is found in a line exactly when the line ends with `p`; past a line
    that does not, the search goes on in the next. -/
theorem index_line {p seg : Bytes} (hp : nl ∉ p) (hseg : nl ∉ seg) (hend : ¬p <:+ seg)
    (y : Bytes) : index (p ++ [nl]) (seg ++ nl :: y) =
      (index (p ++ [nl]) y).map (· + (seg.length + 1)) := by
  induction seg with
  | nil =>
    rcases p with _ | ⟨a, p⟩
    · exact absurd List.nil_suffix hend
    · rw [List.nil_append, index_cons, if_neg]
      · rfl
      simp only [List.cons_append, List.cons_prefix_cons, not_and]
      rintro rfl
      exact absurd (List.mem_cons_self _ _) hp
  | cons c seg ih =>
    rw [List.cons_append, index_cons, if_neg, ih (fun h => hseg (List.mem_cons_of_mem _ h))
      (fun h => hend (h.trans (List.suffix_cons _ _))), Option.map_map]
    · rfl
    rw [← List.cons_append, append_nl_prefix_iff hp hseg]
    rintro rfl
    exact hend List.suffix_rfl

end Index

/-! ### Lines -/

/-- `TrimRight` keeps every byte that is neither a space nor a tab. -/
theorem mem_trimRight {x : Fin 256} {l : Bytes} (hx : x ∈ l) (hsp : isSpaceTab x = false) :
    x ∈ trimRight l := by
  rw [trimRight, List.mem_reverse]
  rw [← List.mem_reverse, ← List.takeWhile_append_dropWhile isSpaceTab l.reverse,
    List.mem_append] at hx
  exact hx.resolve_left fun h => by simpa [hsp] using List.mem_takeWhile_imp h

/-- `TrimRight` keeps a line that ends in a byte other than a space or a tab. -/
theorem trimRight_of_getLast? {x : Fin 256} {l : Bytes} (h : l.getLast? = some x)
    (hsp : isSpaceTab x = false) : trimRight l = l := by
  obtain ⟨ys, rfl⟩ := List.getLast?_eq_some_iff.1 h
  simp [trimRight, hsp]

/-- The line before a `'\n'`, and the bytes after it. -/
theorem getLine_append {seg : Bytes} (h : nl ∉ seg) (rest : Bytes) :
    getLine (seg ++ nl :: rest) =
      (trimRight (if seg.getLast? = some cr then seg.dropLast else seg), rest) := by
  have ht : (seg ++ nl :: rest).takeWhile (· != nl) = seg := by
    rw [List.takeWhile_append_of_pos fun a ha => by simpa using ne_of_mem_of_not_mem ha h]
    simp
  simp only [getLine, ht, List.length_append, List.length_cons]
  rw [if_neg (by omega), List.drop_append]
  rfl

/-- A line of dashes-terminated type is read whole. -/
theorem getLine_dashes {seg : Bytes} (h : nl ∉ seg) (rest : Bytes) :
    getLine (seg ++ pemEndOfLine ++ nl :: rest) = (seg ++ pemEndOfLine, rest) := by
  have hlast : (seg ++ pemEndOfLine).getLast? = some 45 := by
    rw [List.getLast?_append]
    rfl
  have hnl : nl ∉ seg ++ pemEndOfLine := by
    simp only [List.mem_append, not_or]
    exact ⟨h, by decide⟩
  rw [getLine_append hnl, hlast,
    if_neg (by decide), trimRight_of_getLast? hlast rfl]

@[simp] theorem getLine_nl (rest : Bytes) : getLine (nl :: rest) = ([], rest) :=
  getLine_append (List.not_mem_nil _) rest

/-! ## `Decode` -/

/-- The fields of the `*Block` that `Decode` returns which callers here read. -/
structure Decoded where
  type : Bytes
  bytes : Bytes
  deriving DecidableEq, Repr

/-- The start of a pass: the bytes after `-----BEGIN ` at the front, or after the first
    `\n-----BEGIN `. -/
def findBegin (rest : Bytes) : Option Bytes :=
  if (pemStart.drop 1).isPrefixOf rest then some (rest.drop (pemStart.length - 1))
  else (index pemStart rest).map fun i => rest.drop (i + pemStart.length)

/-- The header loop of `Decode`, with `fuel` passes: `none` where the input runs out
    (`return nil, data`), and otherwise whether a header line was read and the bytes from the
    first line without a colon. -/
def readHeaders : Nat → Bytes → Bool → Option (Bool × Bytes)
  | 0, _, _ => none
  | fuel + 1, rest, has =>
    if rest = [] then none
    else if colon ∈ (getLine rest).1 then readHeaders fuel (getLine rest).2 true
    else some (has, rest)

/-- `endIndex` and `endTrailerIndex`: right at the front when there were no headers, and
    otherwise at the first `\n-----END `. -/
def findEnd (hasHeaders : Bool) (rest : Bytes) : Option (Nat × Nat) :=
  if !hasHeaders && (pemEnd.drop 1).isPrefixOf rest then some (0, pemEnd.length - 1)
  else (index pemEnd rest).map fun i => (i, i + pemEnd.length)

/-- The checks of the END line: the type, five dashes, and nothing but spaces and tabs after
    them on that line. -/
def endLineOk (typeLine endTrailer : Bytes) : Bool :=
  let endTrailerLen := typeLine.length + pemEndOfLine.length
  endTrailerLen ≤ endTrailer.length &&
    typeLine.isPrefixOf (endTrailer.take endTrailerLen) &&
    pemEndOfLine.isSuffixOf (endTrailer.take endTrailerLen) &&
    (getLine (endTrailer.drop endTrailerLen)).1 = []

/-- How a pass of the loop of `Decode` ends. -/
inductive Pass where
  /-- `return p, rest`. -/
  | found (p : Decoded) (rest : Bytes)
  /-- `continue`, from `rest`. -/
  | retry (rest : Bytes)
  /-- `return nil, data`. -/
  | fail

/-- One pass of the loop of `Decode`. -/
def decodePass (rest : Bytes) : Pass :=
  match findBegin rest with
  | none => .fail
  | some rest =>
    match getLine rest with
    | (typeLine, rest) =>
      if !pemEndOfLine.isSuffixOf typeLine then .retry rest
      else
        let typeLine := typeLine.take (typeLine.length - pemEndOfLine.length)
        match readHeaders rest.length rest false with
        | none => .fail
        | some (hasHeaders, rest) =>
          match findEnd hasHeaders rest with
          | none => .retry rest
          | some (endIndex, endTrailerIndex) =>
            if !endLineOk typeLine (rest.drop endTrailerIndex) then .retry rest
            else
              match Base64.stdDecode (removeSpacesAndTabs (rest.take endIndex)) with
              | none => .retry rest
              | some bytes =>
                .found ⟨typeLine, bytes⟩ (getLine (rest.drop (endIndex + pemEnd.length - 1))).2

/-- The loop of `Decode`, with `fuel` passes. -/
def decodeLoop : Nat → Bytes → Option (Decoded × Bytes)
  | 0, _ => none
  | fuel + 1, rest =>
    match decodePass rest with
    | .found p rest => some (p, rest)
    | .retry rest => decodeLoop fuel rest
    | .fail => none

/-- `pem.Decode(data)`: the block and the rest; `none` is a `nil` block, which `Decode` returns
    with `data` as the rest. -/
def decode (data : Bytes) : Option (Decoded × Bytes) := decodeLoop (data.length + 1) data

/-! ## `Encode` -/

/-- `type Block struct`. -/
structure Block where
  type : Bytes
  headers : GoMap Bytes
  bytes : Bytes

/-- The `lineBreaker` holding the partial line `line`, fed the rest of the stream and closed:
    a `'\n'` after every 64 bytes, and after a last partial line. -/
def lineBreaker (line : Bytes) : Bytes → Bytes
  | [] => if line = [] then [] else line ++ [nl]
  | c :: cs =>
    if line.length + 1 = pemLineLength then line ++ [c, nl] ++ lineBreaker [] cs
    else lineBreaker (line ++ [c]) cs

/-- `writeHeader`. -/
def writeHeader (k v : Bytes) : Bytes := k ++ ascii ": " ++ v ++ [nl]

/-- `"Proc-Type"`, the header `Encode` writes first. -/
def procType : Bytes := ascii "Proc-Type"

/-- The header lines `Encode` writes: `Proc-Type` first, the other keys in `sort.Strings`
    order, then a blank line; nothing for a block without headers. -/
def headerLines (h : GoMap Bytes) : Bytes :=
  if h.keys = [] then []
  else
    (match h.lookup procType with
      | some v => writeHeader procType v
      | none => []) ++
    ((h.keys.filter (· != procType)).insertionSort (· ≤ ·)).flatMap
      (fun k => writeHeader k (h.getD k [])) ++ [nl]

/-- The error of `Encode`. -/
inductive EncodeError where
  /-- `"pem: cannot encode a header key that contains a colon"`. -/
  | colonInKey
  deriving DecidableEq, Repr

/-- `pem.Encode(out, b)`: the bytes it writes, which the writers of this repository take
    without error. -/
def encode (b : Block) : Except EncodeError Bytes :=
  if b.headers.keys.any fun k => colon ∈ k then .error .colonInKey
  else .ok (pemStart.drop 1 ++ b.type ++ pemEndOfLine ++ [nl] ++ headerLines b.headers ++
    lineBreaker [] (Base64.stdEncodeToString b.bytes) ++ pemEnd.drop 1 ++ b.type ++
    pemEndOfLine ++ [nl])

/-! ## Lemmas of `Decode` -/

/-! ### The header loop -/

/-- A blank line ends the header loop. -/
theorem readHeaders_blank (fuel : Nat) (rest : Bytes) (has : Bool) :
    readHeaders (fuel + 1) (nl :: rest) has = some (has, nl :: rest) := by
  simp [readHeaders]

/-- A line written by `writeHeader` is read as a header: it holds a colon, which neither the
    dropped `'\r'` nor the trimmed spaces can take away. -/
theorem readHeaders_writeHeader {k v : Bytes} (hk : nl ∉ k) (hv : nl ∉ v) (fuel : Nat)
    (rest : Bytes) (has : Bool) :
    readHeaders (fuel + 1) (writeHeader k v ++ rest) has = readHeaders fuel rest true := by
  have hsep : ascii ": " = [colon, 32] := rfl
  have hseg : writeHeader k v ++ rest = (k ++ [colon] ++ 32 :: v) ++ nl :: rest := by
    simp [writeHeader, hsep]
  have hnl : nl ∉ k ++ [colon] ++ 32 :: v := by
    simp only [List.mem_append, List.mem_cons, List.mem_singleton, not_or]
    exact ⟨⟨hk, by decide⟩, by decide, hv⟩
  have hcolon : colon ∈ (if (k ++ [colon] ++ 32 :: v).getLast? = some cr then
      (k ++ [colon] ++ 32 :: v).dropLast else k ++ [colon] ++ 32 :: v) := by
    split_ifs
    · rw [List.dropLast_append_of_ne_nil _ (List.cons_ne_nil _ _)]
      simp
    · simp
  rw [hseg, readHeaders, if_neg (by simp), getLine_append hnl,
    if_pos (mem_trimRight hcolon rfl)]

/-- The header loop reads every line `writeHeader` wrote, and stops at the blank line. -/
theorem readHeaders_lines (hs : List (Bytes × Bytes)) (hkv : ∀ kv ∈ hs, nl ∉ kv.1 ∧ nl ∉ kv.2)
    (fuel : Nat) (rest : Bytes) (has : Bool) :
    readHeaders (fuel + hs.length + 1) ((hs.flatMap fun kv => writeHeader kv.1 kv.2) ++ nl :: rest)
      has = some (has || !hs.isEmpty, nl :: rest) := by
  induction hs generalizing has with
  | nil => simpa using readHeaders_blank fuel rest has
  | cons kv hs ih =>
    obtain ⟨hk, hv⟩ := hkv kv (List.mem_cons_self _ _)
    rw [List.flatMap_cons, List.append_assoc, List.length_cons, ← Nat.add_assoc,
      readHeaders_writeHeader hk hv, ih (fun kv' h => hkv kv' (List.mem_cons_of_mem _ h))]
    simp

/-! ### The END line -/

/-- The END line `Encode` writes passes the checks of `Decode`. -/
theorem endLineOk_self (t : Bytes) : endLineOk t (t ++ pemEndOfLine ++ [nl]) = true := by
  have hlen : (t ++ pemEndOfLine).length = t.length + pemEndOfLine.length := List.length_append _ _
  simp only [endLineOk, List.take_left' hlen, List.drop_left' hlen]
  simp [List.isPrefixOf_iff_prefix, List.isSuffixOf_iff_suffix]

/-! ### The body -/

theorem length_le_flatMap_writeHeader (hs : List (Bytes × Bytes)) :
    hs.length ≤ (hs.flatMap fun kv => writeHeader kv.1 kv.2).length := by
  induction hs with
  | nil => simp
  | cons kv hs ih =>
    have : 1 ≤ (writeHeader kv.1 kv.2).length := by
      simp only [writeHeader, List.length_append, List.length_singleton]
      omega
    simp only [List.flatMap_cons, List.length_append, List.length_cons]
    omega

/-- `lineBreaker` inserts newlines: behind a leading `'\n'`, its output is a text ending in
    `'\n'` whose other bytes are newlines or bytes of the stream, and which is the stream once
    the newlines are taken out. -/
theorem lineBreaker_spec (line cs : Bytes) :
    ∃ x, nl :: lineBreaker line cs = x ++ [nl] ∧ (∀ c ∈ x, c = nl ∨ c ∈ line ∨ c ∈ cs) ∧
      x.filter (fun c => !Base64.isNewline c) =
        (line ++ cs).filter fun c => !Base64.isNewline c := by
  induction cs generalizing line with
  | nil =>
    by_cases hl : line = []
    · exact ⟨[], by simp [lineBreaker, hl], by simp, by simp [hl]⟩
    · refine ⟨nl :: line, by simp [lineBreaker, hl], by simp, ?_⟩
      simp only [List.filter_cons, List.append_nil]
      rfl
  | cons c cs ih =>
    unfold lineBreaker
    split_ifs
    · obtain ⟨x, hx, hmem, hf⟩ := ih []
      refine ⟨nl :: line ++ c :: x, ?_, ?_, ?_⟩
      · simp only [List.cons_append, List.append_assoc, List.singleton_append, List.nil_append]
        rw [hx]
      · intro d hd
        simp only [List.cons_append, List.mem_cons, List.mem_append] at hd
        rcases hd with rfl | hd | rfl | hd
        · exact .inl rfl
        · exact .inr (.inl hd)
        · exact .inr (.inr (List.mem_cons_self _ _))
        · rcases hmem d hd with h | h | h
          · exact .inl h
          · simp at h
          · exact .inr (.inr (List.mem_cons_of_mem _ h))
      · simp only [List.nil_append] at hf
        simp only [List.filter_cons, List.filter_append, hf]
        rfl
    · obtain ⟨x, hx, hmem, hf⟩ := ih (line ++ [c])
      refine ⟨x, hx, fun d hd => ?_, by simpa using hf⟩
      rcases hmem d hd with h | h | h
      · exact .inl h
      · simp only [List.mem_append, List.mem_singleton] at h
        rcases h with h | rfl
        · exact .inr (.inl h)
        · exact .inr (.inr (List.mem_cons_self _ _))
      · exact .inr (.inr (List.mem_cons_of_mem _ h))

theorem stdAlphabet_char : ∀ v < 64, Base64.isNewline (Base64.swapStd (Base64.encodeURL v)) = false ∧
    Base64.swapStd (Base64.encodeURL v) ≠ 45 ∧ isSpaceTab (Base64.swapStd (Base64.encodeURL v)) = false := by
  decide

/-- The bytes of the standard encoding are no newline, dash, space or tab. -/
theorem stdEncode_char {b : Bytes} {c : Fin 256} (h : c ∈ Base64.stdEncodeToString b) :
    Base64.isNewline c = false ∧ c ≠ 45 ∧ isSpaceTab c = false := by
  obtain ⟨d, hd, rfl⟩ := List.mem_map.1 h
  rcases Base64.mem_encode hd with ⟨v, hv, rfl⟩ | rfl
  · exact stdAlphabet_char v hv
  · decide

/-- The body `Encode` writes for bytes `b`: behind a leading `'\n'`, lines of base64 ending in
    `'\n'`, with no dash, that decode to `b` once spaces and tabs are taken out. -/
theorem lineBreaker_stdEncode (b : Bytes) :
    ∃ x, nl :: lineBreaker [] (Base64.stdEncodeToString b) = x ++ [nl] ∧ (45 : Fin 256) ∉ x ∧
      Base64.stdDecode (removeSpacesAndTabs x) = some b := by
  obtain ⟨x, hx, hmem, hf⟩ := lineBreaker_spec [] (Base64.stdEncodeToString b)
  have hxchar : ∀ c ∈ x, c = nl ∨ c ∈ Base64.stdEncodeToString b := by
    intro c hc
    simpa using hmem c hc
  refine ⟨x, hx, fun h => ?_, ?_⟩
  · rcases hxchar _ h with h | h
    · exact absurd h (by decide)
    · exact (stdEncode_char h).2.1 rfl
  · have hsp : removeSpacesAndTabs x = x := List.filter_eq_self.2 fun c hc => by
      rcases hxchar c hc with rfl | h
      · rfl
      · simp [(stdEncode_char h).2.2]
    have henc : (Base64.stdEncodeToString b).filter (fun c => !Base64.isNewline c) =
        Base64.stdEncodeToString b :=
      List.filter_eq_self.2 fun c hc => by simp [(stdEncode_char hc).1]
    rw [hsp, ← Base64.stdDecode_filter, hf, List.nil_append, henc,
      Base64.stdDecode_stdEncodeToString]

theorem findBegin_begin (rest : Bytes) : findBegin (pemStart.drop 1 ++ rest) = some rest := by
  simp only [findBegin, List.isPrefixOf_iff_prefix, List.prefix_append, if_true]
  rfl

/-- One pass of `Decode` over a block with headers, as `Encode` lays it out, finds it whole. -/
theorem decodePass_encoded {t b : Bytes} {hs : List (Bytes × Bytes)} (ht : nl ∉ t) (hhs : hs ≠ [])
    (hkv : ∀ kv ∈ hs, nl ∉ kv.1 ∧ nl ∉ kv.2) :
    decodePass (pemStart.drop 1 ++ t ++ pemEndOfLine ++ [nl] ++
      (hs.flatMap fun kv => writeHeader kv.1 kv.2) ++ [nl] ++
      lineBreaker [] (Base64.stdEncodeToString b) ++ pemEnd.drop 1 ++ t ++ pemEndOfLine ++ [nl]) =
      .found ⟨t, b⟩ [] := by
  obtain ⟨x, hx, hdash, hbytes⟩ := lineBreaker_stdEncode b
  -- the bytes after the headers: the body, then `pemEnd` and the rest of the END line
  have hbody : nl :: (lineBreaker [] (Base64.stdEncodeToString b) ++ pemEnd.drop 1 ++ t ++
      pemEndOfLine ++ [nl]) = x ++ (pemEnd ++ (t ++ pemEndOfLine ++ [nl])) := by
    rw [← List.cons_append, ← List.cons_append, ← List.cons_append, ← List.cons_append, hx]
    simp [pemEnd, ascii]
    rfl
  have hend : index pemEnd (x ++ (pemEnd ++ (t ++ pemEndOfLine ++ [nl]))) = some x.length :=
    index_append_self_of_second_not_mem (s := ascii "----END ") hdash (by decide) _
  have hfuel : hs.length + 1 ≤ ((hs.flatMap fun kv => writeHeader kv.1 kv.2) ++
      nl :: (lineBreaker [] (Base64.stdEncodeToString b) ++ pemEnd.drop 1 ++ t ++ pemEndOfLine ++
        [nl])).length := by
    have := length_le_flatMap_writeHeader hs
    simp only [List.length_append, List.length_cons]
    omega
  obtain ⟨f, hf'⟩ := Nat.exists_eq_add_of_le' hfuel
  have hdata : pemStart.drop 1 ++ t ++ pemEndOfLine ++ [nl] ++
      (hs.flatMap fun kv => writeHeader kv.1 kv.2) ++ [nl] ++
      lineBreaker [] (Base64.stdEncodeToString b) ++ pemEnd.drop 1 ++ t ++ pemEndOfLine ++ [nl] =
      pemStart.drop 1 ++ (t ++ pemEndOfLine ++ nl :: ((hs.flatMap fun kv => writeHeader kv.1 kv.2) ++
        nl :: (lineBreaker [] (Base64.stdEncodeToString b) ++ pemEnd.drop 1 ++ t ++ pemEndOfLine ++
          [nl]))) := by
    simp only [List.append_assoc, List.cons_append, List.singleton_append, List.nil_append]
  have hsuffix : pemEndOfLine.isSuffixOf (t ++ pemEndOfLine) = true :=
    List.isSuffixOf_iff_suffix.2 (List.suffix_append _ _)
  have htype : (t ++ pemEndOfLine).take ((t ++ pemEndOfLine).length - pemEndOfLine.length) = t :=
    List.take_left' (by simp)
  rw [hdata, decodePass, findBegin_begin]
  dsimp only
  rw [getLine_dashes ht]
  dsimp only
  rw [hsuffix, htype, hf', ← Nat.add_assoc, readHeaders_lines hs hkv, hbody]
  have hhas : (false || !hs.isEmpty) = true := by simpa using hhs
  have htrailer : (x ++ (pemEnd ++ (t ++ pemEndOfLine ++ [nl]))).drop (x.length + pemEnd.length) =
      t ++ pemEndOfLine ++ [nl] := by
    rw [List.drop_append, List.drop_left]
  have hlast : (x ++ (pemEnd ++ (t ++ pemEndOfLine ++ [nl]))).drop (x.length + pemEnd.length - 1) =
      (32 :: (t ++ pemEndOfLine)) ++ nl :: [] := by
    rw [show x.length + pemEnd.length - 1 = x.length + 9 from rfl, List.drop_append]
    simp [pemEnd, ascii]
    rfl
  have hnl : nl ∉ 32 :: (t ++ pemEndOfLine) := by
    simp only [List.mem_cons, List.mem_append, not_or]
    exact ⟨by decide, ht, by decide⟩
  simp only [Bool.not_true, Bool.false_eq_true, if_false, hhas, findEnd, Bool.not_true,
    Bool.false_and, hend, Option.map_some']
  rw [htrailer, endLineOk_self, List.take_left, hbytes, hlast, getLine_append hnl]
  rfl

/-- `pem.Decode` gives back the type and the bytes of a block with headers, as `Encode` lays it
    out, and leaves nothing over. -/
theorem decode_encoded {t b : Bytes} {hs : List (Bytes × Bytes)} (ht : nl ∉ t) (hhs : hs ≠ [])
    (hkv : ∀ kv ∈ hs, nl ∉ kv.1 ∧ nl ∉ kv.2) :
    decode (pemStart.drop 1 ++ t ++ pemEndOfLine ++ [nl] ++
      (hs.flatMap fun kv => writeHeader kv.1 kv.2) ++ [nl] ++
      lineBreaker [] (Base64.stdEncodeToString b) ++ pemEnd.drop 1 ++ t ++ pemEndOfLine ++ [nl]) =
      some (⟨t, b⟩, []) := by
  rw [decode, decodeLoop, decodePass_encoded ht hhs hkv]

end CtMapReduce.Go.Pem
