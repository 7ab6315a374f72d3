import CtMapReduce.Go.Bytes
import Mathlib.Algebra.Group.Nat.Basic

/-!
# `bufio.Scanner` over a file read in chunks

`ReconstructIssuerMetadata` reads a shard file with a `bufio.Scanner` of 512 KiB and a split
function of its own. `Scanner` holds the fields `Scan` reads and writes (`go/src/bufio/scan.go`);
the file is read in chunks, the `j`-th `Read` returning between one and `size j` bytes, then
`(0, io.EOF)`. `scanStep` is one pass of the loop of `Scan`, and `scan` runs it with one pass per
unread byte and two more, which always suffice. `Cuts split p` says the split function cuts `p`
off the front of every stream that starts with it: then `Scan` returns `p` whatever the chunks
(`scanLoop_cuts`, the step lemma), what is left once no token remains is dropped with a `nil`
`Err()` (`scanLoop_tail`), and a file of such pieces and such a tail is scanned into exactly
those pieces (`tokensLoop_pieces_tail`, the run lemma). Left out: `ErrFinalToken` and the split
errors this repository's split function never returns, with the fields that serve them, and
`ErrBadReadCount` and `io.ErrNoProgress`, which a file never causes.
-/

namespace CtMapReduce.Go.Bufio

/-- How a file is read: the `j`-th `Read` returns at most `size j` bytes, and at least one. -/
structure Chunking where
  size : Nat → Nat
  pos : ∀ j, 0 < size j

/-- The errors `Scan` records. -/
inductive ScanError where
  /-- `io.EOF`, which `Err()` reports as `nil`. -/
  | eof
  /-- `ErrTooLong`: `"bufio.Scanner: token too long"`. -/
  | tooLong
  /-- `ErrAdvanceTooFar`: `"bufio.Scanner: SplitFunc returns advance count beyond input"`. -/
  | advanceTooFar
  deriving DecidableEq, Repr

/-- The fields of a `bufio.Scanner` with the file it reads. -/
structure Scanner where
  /-- `len(s.buf)`. -/
  bufLen : Nat
  maxTokenSize : Nat
  start : Nat
  /-- `s.buf[s.start:s.end]`. -/
  data : Bytes
  token : Option Bytes
  err : Option ScanError
  /-- The bytes of the file not read yet. -/
  input : Bytes
  /-- The number of `Read` calls made. -/
  reads : Nat

/-- `startBufSize`, the first size of a buffer that grows from nothing. -/
def startBufSize : Nat := 4096

/-- `maxInt` of a 64-bit `int`. -/
def maxInt : Nat := 2 ^ 63 - 1

namespace Scanner

/-- `s.end`. -/
def stop (s : Scanner) : Nat := s.start + s.data.length

/-- `setErr`: an error other than `io.EOF` is kept. -/
def setErr (s : Scanner) (e : ScanError) : Scanner :=
  if s.err = none ∨ s.err = some .eof then { s with err := some e } else s

/-- `Err()`: the error, with `io.EOF` as `nil`. -/
def errResult (s : Scanner) : Option ScanError :=
  if s.err = some .eof then none else s.err

/-- `advance(n)`: `none` for `ErrAdvanceTooFar`. -/
def advance (s : Scanner) (n : Nat) : Option Scanner :=
  if s.data.length < n then none else some { s with start := s.start + n, data := s.data.drop n }

/-- One `Read` of the file into `buf[end:]`, then `s.end += n`, and `setErr(io.EOF)` at the
    end of the file. -/
def read (c : Chunking) (s : Scanner) : Scanner :=
  match s.input with
  | [] => ({ s with reads := s.reads + 1 } : Scanner).setErr .eof
  | _ :: _ =>
    let n := min (c.size s.reads) (min (s.bufLen - s.stop) s.input.length)
    { s with data := s.data ++ s.input.take n, input := s.input.drop n, reads := s.reads + 1 }

/-- The data moved to the front of the buffer. -/
def shift (s : Scanner) : Scanner :=
  if 0 < s.start ∧ (s.stop = s.bufLen ∨ s.bufLen / 2 < s.start) then { s with start := 0 }
  else s

/-- A full buffer replaced by one twice as large, at most `maxTokenSize`. -/
def grow (s : Scanner) : Scanner :=
  { s with bufLen := min (if s.bufLen * 2 = 0 then startBufSize else s.bufLen * 2) s.maxTokenSize,
           start := 0 }

/-- The part of a pass of `Scan` after the split function gave no token: stop on an error, and
    otherwise make room and read. `.inr ok` is a return of `ok`, `.inl` a further pass. -/
def refill (c : Chunking) (s : Scanner) : Scanner ⊕ (Bool × Scanner) :=
  if s.err.isSome then .inr (false, { s with start := 0, data := [] })
  else
    let s := s.shift
    if s.stop = s.bufLen then
      if s.maxTokenSize ≤ s.bufLen ∨ maxInt / 2 < s.bufLen then .inr (false, s.setErr .tooLong)
      else .inl (s.grow.read c)
    else .inl (s.read c)

end Scanner

open Scanner

/-- One pass of the loop of `Scan` with split function `split`, which maps the data and
    `atEOF` to an advance and a token. -/
def scanStep (split : Bytes → Bool → Nat × Option Bytes) (c : Chunking) (s : Scanner) :
    Scanner ⊕ (Bool × Scanner) :=
  if s.start < s.stop ∨ s.err.isSome then
    match s.advance (split s.data s.err.isSome).1 with
    | none => .inr (false, s.setErr .advanceTooFar)
    | some s' =>
      let tok := (split s.data s.err.isSome).2
      if tok.isSome then .inr (true, { s' with token := tok }) else refill c { s' with token := tok }
  else refill c s

/-- The loop of `Scan`, with `fuel` passes. -/
def scanLoop (split : Bytes → Bool → Nat × Option Bytes) (c : Chunking) :
    Nat → Scanner → Option (Bool × Scanner)
  | 0, _ => none
  | fuel + 1, s =>
    match scanStep split c s with
    | .inl s => scanLoop split c fuel s
    | .inr r => some r

/-- `Scan()`. -/
def scan (split : Bytes → Bool → Nat × Option Bytes) (c : Chunking) (s : Scanner) :
    Option (Bool × Scanner) :=
  scanLoop split c (s.input.length + 2) s

/-- The tokens of successive `Scan` calls up to the first that returns `false`, and `Err()`
    then, with at most `fuel` calls. -/
def tokensLoop (split : Bytes → Bool → Nat × Option Bytes) (c : Chunking) :
    Nat → Scanner → Option (List Bytes × Option ScanError)
  | 0, _ => none
  | fuel + 1, s => do
    let (ok, s) ← scan split c s
    if ok then
      let (toks, e) ← tokensLoop split c fuel s
      return (s.token.getD [] :: toks, e)
    else return ([], s.errResult)

/-- `bufio.NewScanner(file)` followed by `Buffer(buf, max)` with `cap(buf) = size`. -/
def newScanner (file : Bytes) (size max : Nat) : Scanner :=
  ⟨size, max, 0, [], none, none, file, 0⟩

/-! ## What the scanner keeps between passes -/

/-- The invariant of the scanner between passes: the data fits the buffer, the buffer never
    outgrows `maxTokenSize`, which stays below `maxInt / 2`, and the only error recorded is
    `io.EOF`, at the end of the file. -/
structure Scanner.Wf (s : Scanner) : Prop where
  stop_le : s.stop ≤ s.bufLen
  bufLen_pos : 0 < s.bufLen
  bufLen_le : s.bufLen ≤ s.maxTokenSize
  maxTokenSize_le : s.maxTokenSize ≤ maxInt / 2
  err_eof : s.err = none ∨ (s.err = some .eof ∧ s.input = [])

/-- The split function cuts `p` off the front of every stream that starts with it: on a prefix
    shorter than `p` it asks for more data, and on a longer one it returns `p`. -/
def Cuts (split : Bytes → Bool → Nat × Option Bytes) (p : Bytes) : Prop :=
  ∀ d more atEOF, d <+: p ++ more →
    split d atEOF = if d.length < p.length then (0, none) else (p.length, some p)

variable {split : Bytes → Bool → Nat × Option Bytes} {c : Chunking}

namespace Scanner

@[simp] theorem stop_def (s : Scanner) : s.stop = s.start + s.data.length := rfl

@[simp] theorem shift_data (s : Scanner) : s.shift.data = s.data := by
  unfold shift; split_ifs <;> rfl

@[simp] theorem shift_bufLen (s : Scanner) : s.shift.bufLen = s.bufLen := by
  unfold shift; split_ifs <;> rfl

/-- A read with room in the buffer moves at least one byte, and at most the room, from a
    file that is not done to the data. -/
theorem read_spec {s : Scanner} (hin : s.input ≠ []) (hroom : s.stop < s.bufLen) :
    ∃ n, 0 < n ∧ s.stop + n ≤ s.bufLen ∧ n ≤ s.input.length ∧
      s.read c =
        { s with data := s.data ++ s.input.take n, input := s.input.drop n, reads := s.reads + 1 } := by
  obtain ⟨x, xs, hx⟩ := List.exists_cons_of_ne_nil hin
  have hsize := c.pos s.reads
  refine ⟨min (c.size s.reads) (min (s.bufLen - s.stop) s.input.length), ?_, ?_, ?_, ?_⟩
  · rw [hx, List.length_cons]; omega
  · omega
  · omega
  · simp only [read, hx]

/-- `shift` moves the data to an offset no later, and to `0` where it would end at the end of
    the buffer. -/
theorem shift_eq (s : Scanner) :
    ∃ st, s.shift = { s with start := st } ∧ st ≤ s.start ∧
      (st + s.data.length = s.bufLen → st = 0) := by
  unfold shift
  split_ifs with h
  · exact ⟨0, rfl, Nat.zero_le _, fun _ => rfl⟩
  · exact ⟨s.start, rfl, le_rfl, fun h' => by simp only [stop_def] at h; omega⟩

/-- A pass that finds no token and no error makes room and reads at least one byte, unless the
    data fills the largest buffer. -/
theorem refill_read {s : Scanner} (hwf : s.Wf) (herr : s.err = none) (hin : s.input ≠ [])
    (hlen : s.data.length < s.maxTokenSize) :
    ∃ s₁, refill c s = .inl s₁ ∧ s₁.Wf ∧ s₁.data ++ s₁.input = s.data ++ s.input ∧
      s₁.input.length < s.input.length ∧ s₁.maxTokenSize = s.maxTokenSize := by
  obtain ⟨st, hsh, hst, h0⟩ := shift_eq s
  obtain ⟨hstop, hpos, hle, hmax, -⟩ := hwf
  simp only [stop_def] at hstop
  have hok : ¬s.err.isSome = true := by simp [herr]
  simp only [refill, if_neg hok, hsh, stop_def]
  by_cases hfull : st + s.data.length = s.bufLen
  · have hst0 := h0 hfull
    rw [if_pos hfull, if_neg (by omega)]
    obtain ⟨n, hn, hroom, hnin, hr⟩ := read_spec (c := c) (s := grow { s with start := st }) hin
      (by simp only [grow, stop_def]; split_ifs <;> omega)
    simp only [grow, stop_def] at hroom hnin
    rw [hr]
    refine ⟨_, rfl, ⟨?_, ?_, ?_, hmax, Or.inl herr⟩, ?_, ?_, rfl⟩ <;>
      simp only [grow, stop_def, List.length_append, List.length_take, List.length_drop,
        List.append_assoc, List.take_append_drop]
    all_goals split_ifs at * <;> omega
  · rw [if_neg hfull]
    obtain ⟨n, hn, hroom, hnin, hr⟩ := read_spec (c := c) (s := { s with start := st }) hin
      (by simp only [stop_def]; omega)
    simp only [stop_def] at hroom hnin
    rw [hr]
    refine ⟨_, rfl, ⟨?_, hpos, hle, hmax, Or.inl herr⟩, ?_, ?_, rfl⟩ <;>
      simp only [stop_def, List.length_append, List.length_take, List.length_drop,
        List.append_assoc, List.take_append_drop] <;> omega

/-- A read at the end of the file records `io.EOF`. -/
theorem read_eof {s : Scanner} (hin : s.input = []) (herr : s.err = none) :
    s.read c = { s with err := some .eof, reads := s.reads + 1 } := by
  simp [read, hin, setErr, herr]

/-- A pass that finds no token and no error at the end of the file records `io.EOF` and keeps
    the data, unless the data fills the largest buffer. -/
theorem refill_eof {s : Scanner} (hwf : s.Wf) (herr : s.err = none) (hin : s.input = [])
    (hlen : s.data.length < s.maxTokenSize) :
    ∃ s₁, refill c s = .inl s₁ ∧ s₁.Wf ∧ s₁.data = s.data ∧ s₁.err = some .eof := by
  obtain ⟨st, hsh, hst, h0⟩ := shift_eq s
  obtain ⟨hstop, hpos, hle, hmax, -⟩ := hwf
  simp only [stop_def] at hstop
  have hok : ¬s.err.isSome = true := by simp [herr]
  simp only [refill, if_neg hok, hsh, stop_def]
  by_cases hfull : st + s.data.length = s.bufLen
  · have hst0 := h0 hfull
    rw [if_pos hfull, if_neg (by omega), read_eof (s := grow { s with start := st }) hin herr]
    refine ⟨_, rfl, ⟨?_, ?_, ?_, hmax, Or.inr ⟨rfl, hin⟩⟩, rfl, rfl⟩ <;> simp only [grow, stop_def]
    all_goals split_ifs <;> omega
  · rw [if_neg hfull, read_eof (s := { s with start := st }) hin herr]
    exact ⟨_, rfl, ⟨by simp only [stop_def]; omega, hpos, hle, hmax, Or.inr ⟨rfl, hin⟩⟩, rfl, rfl⟩

/-- A pass whose split function gives no token, with no error recorded, reads at least one
    byte, unless the data fills the largest buffer. -/
theorem scanStep_read {s : Scanner} (hwf : s.Wf) (herr : s.err = none) (hin : s.input ≠ [])
    (hlen : s.data.length < s.maxTokenSize) (hsplit : s.data ≠ [] → split s.data false = (0, none)) :
    ∃ s₁, scanStep split c s = .inl s₁ ∧ s₁.Wf ∧ s₁.data ++ s₁.input = s.data ++ s.input ∧
      s₁.input.length < s.input.length ∧ s₁.maxTokenSize = s.maxTokenSize := by
  have hwf' : ({ s with token := none } : Scanner).Wf :=
    ⟨hwf.stop_le, hwf.bufLen_pos, hwf.bufLen_le, hwf.maxTokenSize_le, hwf.err_eof⟩
  have hok : s.err.isSome = false := by simp [herr]
  unfold scanStep
  split_ifs with hc
  · have hd : s.data ≠ [] := fun hd => by simp [hd, hok] at hc
    simp only [hok, hsplit hd, advance, Nat.not_lt_zero, if_false, Nat.add_zero, List.drop_zero,
      Option.isSome_none, Bool.false_eq_true]
    exact refill_read hwf' herr hin hlen
  · exact refill_read hwf herr hin hlen

/-- A pass whose split function gives no token, with no error recorded, at the end of the file
    records `io.EOF` and keeps the data, unless the data fills the largest buffer. -/
theorem scanStep_eof {s : Scanner} (hwf : s.Wf) (herr : s.err = none) (hin : s.input = [])
    (hlen : s.data.length < s.maxTokenSize) (hsplit : s.data ≠ [] → split s.data false = (0, none)) :
    ∃ s₁, scanStep split c s = .inl s₁ ∧ s₁.Wf ∧ s₁.data = s.data ∧ s₁.err = some .eof := by
  have hwf' : ({ s with token := none } : Scanner).Wf :=
    ⟨hwf.stop_le, hwf.bufLen_pos, hwf.bufLen_le, hwf.maxTokenSize_le, hwf.err_eof⟩
  have hok : s.err.isSome = false := by simp [herr]
  unfold scanStep
  split_ifs with hc
  · have hd : s.data ≠ [] := fun hd => by simp [hd, hok] at hc
    simp only [hok, hsplit hd, advance, Nat.not_lt_zero, if_false, Nat.add_zero, List.drop_zero,
      Option.isSome_none, Bool.false_eq_true]
    exact refill_eof hwf' herr hin hlen
  · exact refill_eof hwf herr hin hlen

/-- The step lemma of `Scan`: from a state whose data and unread bytes start with a piece the
    split function cuts, and which fits the largest buffer, `Scan` returns that piece and leaves
    the rest, whatever the chunks. -/
theorem scanLoop_cuts {p more : Bytes} (hcut : Cuts split p) (hp : p ≠ []) :
    ∀ (fuel : Nat) (s : Scanner), s.Wf → p.length ≤ s.maxTokenSize →
      s.data ++ s.input = p ++ more → s.input.length < fuel →
      ∃ s', scanLoop split c fuel s = some (true, s') ∧ s'.token = some p ∧
        s'.data ++ s'.input = more ∧ s'.Wf ∧ s'.maxTokenSize = s.maxTokenSize
  | 0, _, _, _, _, h => absurd h (Nat.not_lt_zero _)
  | fuel + 1, s, hwf, hfit, hdi, hlt => by
    have hpre : s.data <+: p ++ more := hdi ▸ List.prefix_append _ _
    have hsplit := hcut s.data more s.err.isSome hpre
    by_cases hlong : p.length ≤ s.data.length
    · rw [if_neg (by omega)] at hsplit
      obtain ⟨rest, hrest⟩ := List.prefix_of_prefix_length_le (List.prefix_append p more) hpre hlong
      have hpos : 0 < p.length := List.length_pos.2 hp
      have hstop := hwf.stop_le
      simp only [scanLoop, scanStep, stop_def, hsplit, advance, if_neg (Nat.not_lt.2 hlong),
        Option.isSome_some, if_true]
      rw [if_pos (Or.inl (by omega))]
      refine ⟨_, rfl, rfl, ?_, ⟨?_, hwf.bufLen_pos, hwf.bufLen_le, hwf.maxTokenSize_le,
        hwf.err_eof⟩, rfl⟩
      · rw [← hrest, List.append_assoc] at hdi
        rw [← hrest, List.drop_left]
        exact List.append_cancel_left hdi
      · simp only [stop_def, List.length_drop] at hstop ⊢
        omega
    · rw [if_pos (by omega)] at hsplit
      have hin : s.input ≠ [] := by
        rintro hin
        rw [hin, List.append_nil] at hdi
        simp only [hdi, List.length_append] at hlong
        omega
      have herr : s.err = none := hwf.err_eof.resolve_right fun h => hin h.2
      rw [herr, Option.isSome_none] at hsplit
      obtain ⟨s₁, hstep, hwf₁, hdi₁, hlt₁, hmax₁⟩ :=
        scanStep_read (c := c) hwf herr hin (by omega) fun _ => hsplit
      obtain ⟨s', hloop, htok, hdi', hwf', hmax'⟩ :=
        scanLoop_cuts hcut hp fuel s₁ hwf₁ (hmax₁ ▸ hfit) (hdi₁.trans hdi) (by omega)
      exact ⟨s', by simp only [scanLoop, hstep, hloop], htok, hdi', hwf', hmax'.trans hmax₁⟩

/-- The end lemma: from a state whose data and unread bytes are a tail in which the split
    function finds no token, at the end of the file or not, and which fits the largest buffer
    with room to spare, `Scan` returns `false` and `Err()` is `nil`, whatever the chunks: the tail
    is read, and dropped. -/
theorem scanLoop_tail (h0 : split [] true = (0, none)) {tail : Bytes}
    (hsplit : ∀ d atEOF, d <+: tail → d ≠ [] → split d atEOF = (0, none)) :
    ∀ (fuel : Nat) (s : Scanner), s.Wf → tail.length < s.maxTokenSize →
      s.data ++ s.input = tail → s.input.length + 1 < fuel →
      ∃ s', scanLoop split c fuel s = some (false, s') ∧ s'.errResult = none
  | 0, _, _, _, _, h => absurd h (Nat.not_lt_zero _)
  | fuel + 1, s, hwf, hfit, hdi, hlt => by
    have hpre : s.data <+: tail := hdi ▸ List.prefix_append _ _
    have hlen : s.data.length < s.maxTokenSize := lt_of_le_of_lt hpre.length_le hfit
    have hnil : s.data ≠ [] → split s.data false = (0, none) := hsplit _ _ hpre
    -- a pass once `io.EOF` is recorded finds no token, and returns
    have hend : ∀ f (t : Scanner), t.data <+: tail → t.err = some .eof →
        ∃ s', scanLoop split c (f + 1) t = some (false, s') ∧ s'.errResult = none := by
      intro f t hd he
      have ht : split t.data true = (0, none) := by
        by_cases hd' : t.data = []
        · rw [hd']
          exact h0
        · exact hsplit _ _ hd hd'
      simp only [scanLoop, scanStep, he, Option.isSome_some, or_true, if_true, ht, advance,
        Nat.not_lt_zero, if_false, Option.isSome_none, Bool.false_eq_true, refill]
      exact ⟨_, rfl, by simp [errResult, he]⟩
    rcases hwf.err_eof with herr | ⟨herr, -⟩
    · by_cases hin : s.input = []
      · obtain ⟨s₁, hstep, -, hd₁, he₁⟩ := scanStep_eof (c := c) hwf herr hin hlen hnil
        obtain ⟨f, rfl⟩ : ∃ f, fuel = f + 1 := ⟨fuel - 1, by simp [hin] at hlt; omega⟩
        obtain ⟨s', h, h'⟩ := hend f s₁ (hd₁ ▸ hpre) he₁
        exact ⟨s', by rw [scanLoop, hstep]; exact h, h'⟩
      · obtain ⟨s₁, hstep, hwf₁, hdi₁, hlt₁, hmax₁⟩ := scanStep_read (c := c) hwf herr hin hlen hnil
        obtain ⟨s', h, h'⟩ :=
          scanLoop_tail h0 hsplit fuel s₁ hwf₁ (hmax₁ ▸ hfit) (hdi₁.trans hdi) (by omega)
        exact ⟨s', by simp only [scanLoop, hstep, h], h'⟩
    · exact hend fuel s hpre herr
end Scanner

/-- The run lemma: a file made of pieces that the split function cuts and that fit the largest
    buffer, followed by a tail in which it finds no token and which fits with room to spare, is
    scanned into exactly those pieces, whatever the chunks; the tail is dropped, and `Err()` is
    then `nil`. -/
theorem tokensLoop_pieces_tail (h0 : split [] true = (0, none)) {tail : Bytes}
    (hsplit : ∀ d atEOF, d <+: tail → d ≠ [] → split d atEOF = (0, none)) :
    ∀ (pieces : List Bytes) (fuel : Nat) (s : Scanner), s.Wf →
      (∀ p ∈ pieces, p ≠ [] ∧ p.length ≤ s.maxTokenSize ∧ Cuts split p) →
      tail.length < s.maxTokenSize → s.data ++ s.input = pieces.flatten ++ tail →
      pieces.length < fuel → tokensLoop split c fuel s = some (pieces, none)
  | _, 0, _, _, _, _, _, h => absurd h (Nat.not_lt_zero _)
  | [], fuel + 1, s, hwf, _, hfit, hdi, _ => by
    obtain ⟨s', h1, h2⟩ := Scanner.scanLoop_tail (c := c) h0 hsplit (s.input.length + 2) s hwf
      hfit (by simpa using hdi) (by omega)
    simp [tokensLoop, scan, h1, h2]
  | p :: ps, fuel + 1, s, hwf, hps, hfit, hdi, hlt => by
    obtain ⟨hp, hpfit, hcut⟩ := hps p (List.mem_cons_self _ _)
    obtain ⟨s', h1, htok, hdi', hwf', hmax'⟩ :=
      Scanner.scanLoop_cuts (c := c) hcut hp (s.input.length + 2) s hwf hpfit
        (by simpa [List.append_assoc] using hdi) (by omega)
    have hrun := tokensLoop_pieces_tail h0 hsplit ps fuel s' hwf'
      (fun q hq => hmax' ▸ hps q (List.mem_cons_of_mem _ hq)) (hmax' ▸ hfit) hdi'
      (by simpa using hlt)
    simp [tokensLoop, scan, h1, htok, hrun]

/-- A file made of such pieces alone is scanned into exactly those pieces. -/
theorem tokensLoop_pieces (h0 : split [] true = (0, none)) (pieces : List Bytes) (fuel : Nat)
    (s : Scanner) (hwf : s.Wf) (hps : ∀ p ∈ pieces, p ≠ [] ∧ p.length ≤ s.maxTokenSize ∧ Cuts split p)
    (hdi : s.data ++ s.input = pieces.flatten) (hlt : pieces.length < fuel) :
    tokensLoop split c fuel s = some (pieces, none) :=
  tokensLoop_pieces_tail h0 (fun d _ hd hne => absurd (List.prefix_nil.1 hd) hne) pieces fuel s
    hwf hps (lt_of_lt_of_le hwf.bufLen_pos hwf.bufLen_le) (by rw [hdi, List.append_nil]) hlt

end CtMapReduce.Go.Bufio
