import CtMapReduce.Go.Bytes

/-!
# `encoding/base64` with the URL-safe alphabet

`Serial.ID()` and `CertificateLogIDFromShortURL` encode with `base64.URLEncoding`, `logNameToId`
with `base64.RawURLEncoding`, and `NewSerialFromIDString` decodes with
`base64.URLEncoding.DecodeString`. `encode` follows `(*Encoding).Encode`
(`go/src/encoding/base64/base64.go`): whole 3-byte groups become four sextets, a trailing group
two or three, then `=` padding when the encoding has it. `decodeLoop` follows `decodeQuantum` with
padding and without strict mode: `\r` and `\n` are skipped, a quantum cut short is an error, `=`
may only end a quantum of two or three sextets, and only newlines may follow it. The fast paths of
`Decode` compute the same bytes and are not modelled apart. `decodeString_encode` is the round
trip of the padded URL encoding.
-/

namespace CtMapReduce.Go.Base64

/-- The alphabet `encodeURL`: `A-Z`, `a-z`, `0-9`, `-`, `_`. -/
def encodeURL (v : Nat) : Fin 256 :=
  if v < 26 then Fin.ofNat (65 + v)
  else if v < 52 then Fin.ofNat (71 + v)
  else if v < 62 then Fin.ofNat (v - 4)
  else if v = 62 then 45 else 95

/-- `decodeMap` of the URL alphabet: the sextet a byte stands for, or `none` (`0xFF`). -/
def decodeURL (c : Fin 256) : Option Nat :=
  if 65 ≤ c.val ∧ c.val ≤ 90 then some (c.val - 65)
  else if 97 ≤ c.val ∧ c.val ≤ 122 then some (c.val - 71)
  else if 48 ≤ c.val ∧ c.val ≤ 57 then some (c.val + 4)
  else if c.val = 45 then some 62
  else if c.val = 95 then some 63 else none

/-- `StdPadding`, the byte `'='`. -/
def padChar : Fin 256 := 61

/-- The bytes `decodeQuantum` skips: `'\n'` and `'\r'`. -/
def isNewline (c : Fin 256) : Bool := c.val = 10 || c.val = 13

/-- The four sextets of `val := a<<16 | b<<8 | c`, as `Encode` writes them. -/
def encodeQuantum (a b c : Fin 256) : Bytes :=
  let val := a.val * 65536 + b.val * 256 + c.val
  [encodeURL (val / 262144 % 64), encodeURL (val / 4096 % 64), encodeURL (val / 64 % 64),
    encodeURL (val % 64)]

/-- `(*Encoding).Encode` with the URL alphabet; `padded` is `padChar != NoPadding`. -/
def encode (padded : Bool) : Bytes → Bytes
  | a :: b :: c :: rest => encodeQuantum a b c ++ encode padded rest
  | [a, b] => (encodeQuantum a b 0).take 3 ++ if padded then [padChar] else []
  | [a] => (encodeQuantum a 0 0).take 2 ++ if padded then [padChar, padChar] else []
  | [] => []

/-- `base64.URLEncoding.EncodeToString`. -/
def encodeToString (b : Bytes) : Bytes := encode true b

/-- `base64.RawURLEncoding.EncodeToString`. -/
def rawEncodeToString (b : Bytes) : Bytes := encode false b

/-- The `dlen - 1` bytes `decodeQuantum` writes for the `dlen` sextets it collected. -/
def quantumBytes : List Nat → Bytes
  | [s0, s1] => [Fin.ofNat ((s0 * 262144 + s1 * 4096) / 65536)]
  | [s0, s1, s2] =>
    let val := s0 * 262144 + s1 * 4096 + s2 * 64
    [Fin.ofNat (val / 65536), Fin.ofNat (val / 256)]
  | [s0, s1, s2, s3] =>
    let val := s0 * 262144 + s1 * 4096 + s2 * 64 + s3
    [Fin.ofNat (val / 65536), Fin.ofNat (val / 256), Fin.ofNat val]
  | _ => []

/-- The loop of `Decode` over `decodeQuantum`, for the padded URL encoding. `q` holds the
    sextets of the current quantum; `none` is a `CorruptInputError`. -/
def decodeLoop : Bytes → List Nat → Option Bytes
  | [], [] => some []
  | [], _ :: _ => none
  | c :: cs, q =>
    match decodeURL c with
    | some v =>
      if q.length = 3 then (quantumBytes (q ++ [v]) ++ ·) <$> decodeLoop cs []
      else decodeLoop cs (q ++ [v])
    | none =>
      if isNewline c then decodeLoop cs q
      else if c ≠ padChar ∨ q.length < 2 then none
      else if q.length = 2 then
        match cs.dropWhile isNewline with
        | d :: ds => if d = padChar ∧ ds.dropWhile isNewline = [] then some (quantumBytes q)
          else none
        | [] => none
      else if cs.dropWhile isNewline = [] then some (quantumBytes q) else none

/-- `base64.URLEncoding.DecodeString`, with the partial output of a failed decode dropped. -/
def decodeString (s : Bytes) : Option Bytes := decodeLoop s []

theorem decodeURL_encodeURL : ∀ v < 64, decodeURL (encodeURL v) = some v := by decide

theorem isNewline_encodeURL : ∀ v < 64, isNewline (encodeURL v) = false := by decide

theorem encodeURL_ne_padChar : ∀ v < 64, encodeURL v ≠ padChar := by decide

@[simp] theorem isNewline_padChar : isNewline padChar = false := rfl

@[simp] theorem decodeURL_padChar : decodeURL padChar = none := rfl

/-- The four sextets of a 24-bit value, weighted back, give the value. -/
theorem sextets_sum {x : Nat} (hx : x < 16777216) :
    x / 262144 % 64 * 262144 + x / 4096 % 64 * 4096 + x / 64 % 64 * 64 + x % 64 = x := by
  omega

/-- A decoded quantum of four sextets gives back the three bytes that were encoded. -/
theorem quantumBytes_four (a b c : Fin 256) :
    let val := a.val * 65536 + b.val * 256 + c.val
    quantumBytes [val / 262144 % 64, val / 4096 % 64, val / 64 % 64, val % 64] = [a, b, c] := by
  intro val
  simp only [quantumBytes, sextets_sum (show val < 16777216 by omega), List.cons.injEq, and_true]
  refine ⟨Fin.ext ?_, Fin.ext ?_, Fin.ext ?_⟩ <;>
    simp only [Fin.ofNat, Fin.val_ofNat'] <;> omega

theorem quantumBytes_three (a b : Fin 256) :
    let val := a.val * 65536 + b.val * 256
    quantumBytes [val / 262144 % 64, val / 4096 % 64, val / 64 % 64] = [a, b] := by
  intro val
  have hv : val / 262144 % 64 * 262144 + val / 4096 % 64 * 4096 + val / 64 % 64 * 64 = val := by
    simpa [show val % 64 = 0 by omega] using sextets_sum (show val < 16777216 by omega)
  simp only [quantumBytes, hv, List.cons.injEq, and_true]
  refine ⟨Fin.ext ?_, Fin.ext ?_⟩ <;> simp only [Fin.ofNat, Fin.val_ofNat'] <;> omega

theorem quantumBytes_two (a : Fin 256) :
    let val := a.val * 65536
    quantumBytes [val / 262144 % 64, val / 4096 % 64] = [a] := by
  intro val
  have hv : val / 262144 % 64 * 262144 + val / 4096 % 64 * 4096 = val := by
    simpa [show val % 64 = 0 by omega, show val / 64 % 64 = 0 by omega] using
      sextets_sum (show val < 16777216 by omega)
  simp only [quantumBytes, hv, List.cons.injEq, and_true]
  exact Fin.ext (by simp only [Fin.ofNat, Fin.val_ofNat']; omega)

/-- The decoder collects an encoded sextet into a quantum that is not yet full. -/
theorem decodeLoop_encodeURL {v : Nat} (hv : v < 64) (cs : Bytes) {q : List Nat}
    (hq : q.length ≠ 3) : decodeLoop (encodeURL v :: cs) q = decodeLoop cs (q ++ [v]) := by
  rw [decodeLoop, decodeURL_encodeURL v hv]
  simp [hq]

/-- The fourth sextet completes the quantum, whose bytes come out first. -/
theorem decodeLoop_encodeURL_full {v : Nat} (hv : v < 64) (cs : Bytes) {q : List Nat}
    (hq : q.length = 3) :
    decodeLoop (encodeURL v :: cs) q = (quantumBytes (q ++ [v]) ++ ·) <$> decodeLoop cs [] := by
  rw [decodeLoop, decodeURL_encodeURL v hv]
  simp [hq]

/-- One `=` ends a quantum of three sextets at the end of the input. -/
theorem decodeLoop_pad_three {q : List Nat} (hq : q.length = 3) :
    decodeLoop [padChar] q = some (quantumBytes q) := by
  rw [decodeLoop]
  simp [hq]

/-- Two `=` end a quantum of two sextets at the end of the input. -/
theorem decodeLoop_pad_two {q : List Nat} (hq : q.length = 2) :
    decodeLoop [padChar, padChar] q = some (quantumBytes q) := by
  rw [decodeLoop]
  simp [hq]

/-- `NewSerialFromIDString(s.ID())` recovers the bytes: the padded URL encoding round-trips. -/
theorem decodeString_encode (b : Bytes) : decodeString (encodeToString b) = some b := by
  unfold decodeString encodeToString
  induction b using encode.induct true with
  | case1 a b c rest ih =>
    simp only [encode, encodeQuantum, List.cons_append, List.nil_append]
    rw [decodeLoop_encodeURL (by omega) _ (by simp), decodeLoop_encodeURL (by omega) _ (by simp),
      decodeLoop_encodeURL (by omega) _ (by simp), decodeLoop_encodeURL_full (by omega) _ (by simp)]
    simp [ih, quantumBytes_four]
  | case2 a b =>
    simp only [encode, encodeQuantum, List.take, if_true, List.cons_append, List.nil_append]
    rw [decodeLoop_encodeURL (by omega) _ (by simp), decodeLoop_encodeURL (by omega) _ (by simp),
      decodeLoop_encodeURL (by omega) _ (by simp), decodeLoop_pad_three (by simp)]
    simp [quantumBytes_three]
  | case3 a =>
    simp only [encode, encodeQuantum, List.take, if_true, List.cons_append, List.nil_append]
    rw [decodeLoop_encodeURL (by omega) _ (by simp), decodeLoop_encodeURL (by omega) _ (by simp),
      decodeLoop_pad_two (by simp)]
    simp [quantumBytes_two]
  | case4 => rfl

/-- Distinct byte strings have distinct URL encodings. -/
theorem encodeToString_injective : Function.Injective encodeToString := by
  intro a b h
  have := decodeString_encode a
  rw [h, decodeString_encode] at this
  exact (Option.some.inj this).symm

/-! ## Newlines and the standard alphabet

`pem.Decode` hands `base64.StdEncoding.Decode` the body lines of a block with their newlines.
`decodeLoop_filter` says the decoder reads a text exactly as it reads the text with every `\r`
and `\n` taken out.

`StdEncoding` differs from `URLEncoding` only in the characters of the sextets 62 and 63, `+`
and `/` in place of `-` and `_`. `swapStd` exchanges the two pairs and fixes every other byte,
`=`, `\r` and `\n` among them. The standard encoder is the URL one followed by `swapStd`,
and the standard decoder is the URL one after it: a `-` or `_` in its input becomes a `+` or
`/`, which the URL alphabet rejects as the standard one rejects the original. -/

/-- Exchanges `-` with `+` and `_` with `/`. -/
def swapStd (c : Fin 256) : Fin 256 :=
  if c = 45 then 43 else if c = 43 then 45 else if c = 95 then 47 else if c = 47 then 95 else c

/-- `base64.StdEncoding.EncodeToString`. -/
def stdEncodeToString (b : Bytes) : Bytes := (encode true b).map swapStd

/-- `base64.StdEncoding.Decode`, with the partial output of a failed decode dropped. -/
def stdDecode (s : Bytes) : Option Bytes := decodeLoop (s.map swapStd) []

/-- `swapStd` moves only the four bytes it exchanges. -/
theorem swapStd_cases (c : Fin 256) : swapStd c = c ∨ c = 45 ∨ c = 43 ∨ c = 95 ∨ c = 47 := by
  unfold swapStd
  split_ifs <;> simp [*]

@[simp] theorem swapStd_swapStd (c : Fin 256) : swapStd (swapStd c) = c := by
  rcases swapStd_cases c with h | rfl | rfl | rfl | rfl
  · rw [h, h]
  all_goals rfl

@[simp] theorem isNewline_swapStd (c : Fin 256) : isNewline (swapStd c) = isNewline c := by
  rcases swapStd_cases c with h | rfl | rfl | rfl | rfl
  · rw [h]
  all_goals rfl

/-- The bytes the padding check reads past are newlines exactly when they are in the
    newline-free copy of the text. -/
theorem filter_dropWhile_isNewline_eq_nil_iff (l : Bytes) :
    (l.filter fun c => !isNewline c).dropWhile isNewline = [] ↔ l.dropWhile isNewline = [] := by
  simp only [List.dropWhile_eq_nil_iff, List.mem_filter, Bool.not_eq_true', and_imp]
  exact forall₂_congr fun x _ => by cases isNewline x <;> simp

/-- Past the newlines the padding check skips, the first byte is the first byte of the
    newline-free copy. -/
theorem filter_not_isNewline_of_dropWhile {l ds : Bytes} {d : Fin 256}
    (h : l.dropWhile isNewline = d :: ds) :
    (l.filter fun c => !isNewline c) = d :: ds.filter fun c => !isNewline c := by
  have hd : isNewline d = false := by
    simpa [h] using List.head_dropWhile_not isNewline l (by simp [h])
  conv_lhs => rw [← List.takeWhile_append_dropWhile isNewline l, h]
  rw [List.filter_append, List.filter_cons, List.filter_eq_nil_iff.2]
  · simp [hd]
  · intro a ha
    simpa using List.mem_takeWhile_imp ha

theorem decodeLoop_filter (s : Bytes) (q : List Nat) :
    decodeLoop (s.filter fun c => !isNewline c) q = decodeLoop s q := by
  induction s generalizing q with
  | nil => rfl
  | cons c cs ih =>
    by_cases hc : isNewline c
    · have hnone : decodeURL c = none := by
        simp only [isNewline, Bool.or_eq_true, decide_eq_true_eq] at hc
        rcases hc with h | h <;> simp [decodeURL, h]
      simp [hc, decodeLoop, hnone, ih]
    · rw [List.filter_cons, if_pos (by simpa using hc), decodeLoop, decodeLoop]
      rcases decodeURL c with _ | v
      · simp only [hc, Bool.false_eq_true, if_false, filter_dropWhile_isNewline_eq_nil_iff]
        split_ifs
        · rfl
        · rcases hd : cs.dropWhile isNewline with _ | ⟨d, ds⟩
          · rw [List.filter_eq_nil_iff.2 (by simpa using List.dropWhile_eq_nil_iff.1 hd)]
            rfl
          · have hd' : isNewline d = false := by
              simpa [hd] using List.head_dropWhile_not isNewline cs (by simp [hd])
            rw [filter_not_isNewline_of_dropWhile hd, List.dropWhile_cons_of_neg (by simp [hd'])]
            simp only [filter_dropWhile_isNewline_eq_nil_iff]
        all_goals rfl
      · simp only [ih]

/-- Every byte `Encode` writes is a letter of the alphabet or the padding. -/
theorem mem_encode {p : Bool} {b : Bytes} {c : Fin 256} (h : c ∈ encode p b) :
    (∃ v < 64, c = encodeURL v) ∨ c = padChar := by
  induction b using encode.induct p with
  | case1 a b d rest ih =>
    simp only [encode, encodeQuantum, List.cons_append, List.nil_append, List.mem_cons] at h
    rcases h with rfl | rfl | rfl | rfl | h
    all_goals first | exact ih h | exact Or.inl ⟨_, Nat.mod_lt _ (by omega), rfl⟩
  | case2 a b =>
    simp only [encode, encodeQuantum, List.take, List.mem_append, List.mem_cons] at h
    rcases h with (rfl | rfl | rfl | h) | h
    all_goals first | exact Or.inl ⟨_, Nat.mod_lt _ (by omega), rfl⟩ | skip
    · simp at h
    · split_ifs at h <;> simp_all
  | case3 a =>
    simp only [encode, encodeQuantum, List.take, List.mem_append, List.mem_cons] at h
    rcases h with (rfl | rfl | h) | h
    all_goals first | exact Or.inl ⟨_, Nat.mod_lt _ (by omega), rfl⟩ | skip
    · simp at h
    · split_ifs at h <;> simp_all
  | case4 => simp [encode] at h

/-- The standard decoder, too, reads a text as it reads the text without its newlines. -/
theorem stdDecode_filter (s : Bytes) : stdDecode (s.filter fun c => !isNewline c) = stdDecode s := by
  rw [stdDecode, stdDecode, ← decodeLoop_filter (s.map swapStd), List.filter_map]
  simp only [Function.comp_def, isNewline_swapStd]

/-- `base64.StdEncoding.Decode(base64.StdEncoding.EncodeToString(b))` is `b`. -/
theorem stdDecode_stdEncodeToString (b : Bytes) : stdDecode (stdEncodeToString b) = some b := by
  simpa [stdDecode, stdEncodeToString, Function.comp_def] using decodeString_encode b

end CtMapReduce.Go.Base64
