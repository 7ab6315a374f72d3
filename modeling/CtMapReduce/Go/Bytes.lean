import Mathlib.Data.List.AList
import Mathlib.Data.List.Lex
import Mathlib.Data.List.Sort
import Mathlib.Order.Fin.Basic

/-!
# Go byte strings, `strings.Compare` and `sort.Search`

`Bytes` models Go's `string` and `[]byte`; `strings.Compare` and `bytes.Compare` are Mathlib's
lexicographic order on `List (Fin 256)`, and Go maps keyed by strings are `GoMap`s. The sorted
sets of the storage package (`MockRemoteCache.SetInsert`, `MockBackend.AllocateExpDateAndIssuer`,
the file-backed `IssuerMetadata.addCRL`) share one idiom: `sort.Search` for the lower bound, then
the SliceTricks insert. `search` is the loop of `sort.Search` (`go/src/sort/search.go`) with one
unit of fuel per element, always enough (`search_spec`), and `insertAt` the `append`/`copy`/assign
triple. On a strictly increasing list the lower bound finds an entry exactly when it is present
(`lowerBound_mem_iff`), and inserting an absent entry there keeps the list strictly increasing
(`insertAt_sorted`).
-/

namespace CtMapReduce.Go

/-- A Go `string` or `[]byte`: a finite sequence of bytes. -/
abbrev Bytes := List (Fin 256)

/-- A Go `map[string]V`. `AList` keeps the keys distinct; ranging over the map visits the
    entries in list order, which is one of the orders Go may choose. -/
abbrev GoMap (V : Type) := AList fun _ : Bytes => V

/-- `m[k]`, with `d` the zero value returned for a missing key. -/
def GoMap.getD {V : Type} (m : GoMap V) (k : Bytes) (d : V) : V := (m.lookup k).getD d

@[simp] theorem GoMap.getD_insert_self {V : Type} (m : GoMap V) (k : Bytes) (v d : V) :
    GoMap.getD (m.insert k v) k d = v := by simp [GoMap.getD]

theorem GoMap.getD_insert_ne {V : Type} (m : GoMap V) {k k' : Bytes} (v d : V) (h : k' ≠ k) :
    GoMap.getD (m.insert k v) k' d = m.getD k' d := by simp [GoMap.getD, h]

/-- The bytes of an ASCII string literal of the source (`"issuer"`, `"::"`, ...). -/
def ascii (s : String) : Bytes := s.toList.map fun c => Fin.ofNat c.toNat

/-- Go `strings.Compare(a, b)`: `-1`, `0` or `+1` by lexicographic byte order. -/
def stringsCompare (a b : Bytes) : Int :=
  if a < b then -1 else if a = b then 0 else 1

@[simp] theorem stringsCompare_nonpos_iff (a b : Bytes) : stringsCompare a b ≤ 0 ↔ a ≤ b := by
  unfold stringsCompare
  rcases lt_trichotomy a b with h | rfl | h
  · simp [h, h.le]
  · simp
  · simp [h.not_lt, h.ne', h.not_le]

@[simp] theorem zero_le_stringsCompare_iff (a b : Bytes) :
    0 ≤ stringsCompare a b ↔ b ≤ a := by
  unfold stringsCompare
  rcases lt_trichotomy a b with h | rfl | h
  · simp [h, h.not_le]
  · simp
  · simp [h.not_lt, h.ne', h.le]

@[simp] theorem stringsCompare_eq_zero_iff (a b : Bytes) : stringsCompare a b = 0 ↔ a = b := by
  unfold stringsCompare
  rcases lt_trichotomy a b with h | rfl | h
  · simp [h, h.ne]
  · simp
  · simp [h.not_lt, h.ne']

/-- The loop of Go `sort.Search(n, f)`: `i, j := 0, n; for i < j { h := (i+j)/2; if !f(h)
    { i = h + 1 } else { j = h } }; return i`, with `fuel` bounding the iterations. -/
def searchLoop (f : Nat → Bool) : Nat → Nat → Nat → Nat
  | 0, i, _ => i
  | fuel + 1, i, j =>
    if i < j then
      if !f ((i + j) / 2) then searchLoop f fuel ((i + j) / 2 + 1) j
      else searchLoop f fuel i ((i + j) / 2)
    else i

/-- Go `sort.Search(n, f)`. Every iteration shrinks `j - i`, so `n` iterations suffice. -/
def search (n : Nat) (f : Nat → Bool) : Nat := searchLoop f n 0 n

/-- The loop keeps its bracket: `f` is false below `i` and true from `j` to `n`; with enough
    fuel and a monotone `f` the result is the first index where `f` holds. -/
theorem searchLoop_spec (n : Nat) (f : Nat → Bool)
    (mono : ∀ a b, a ≤ b → b < n → f a = true → f b = true) :
    ∀ fuel i j, j ≤ n → i ≤ j → j - i ≤ fuel →
      (∀ k < i, f k = false) → (∀ k, j ≤ k → k < n → f k = true) →
      searchLoop f fuel i j ≤ n ∧ (∀ k < searchLoop f fuel i j, f k = false) ∧
        (∀ k, searchLoop f fuel i j ≤ k → k < n → f k = true) := by
  intro fuel
  induction fuel with
  | zero =>
    intro i j hj hij hfuel hlo hhi
    have : i = j := by omega
    subst this
    exact ⟨hj, hlo, hhi⟩
  | succ fuel ih =>
    intro i j hj hij hfuel hlo hhi
    simp only [searchLoop]
    split
    · split
      · rename_i _ hf
        refine ih _ _ hj (by omega) (by omega) (fun k hk => ?_) hhi
        rcases Nat.lt_succ_iff_lt_or_eq.mp hk with hk | rfl
        · by_cases hki : k < i
          · exact hlo k hki
          · cases hfk : f k
            · rfl
            · have := mono k ((i + j) / 2) (by omega) (by omega) hfk
              simp [this] at hf
        · simpa using hf
      · rename_i _ hf
        refine ih _ _ (by omega) (by omega) (by omega) hlo (fun k hk hkn => ?_)
        exact mono _ k hk hkn (by simpa using hf)
    · have : i = j := by omega
      subst this
      exact ⟨hj, hlo, hhi⟩

/-- `sort.Search` returns the first index below `n` where a monotone `f` holds, or `n`. -/
theorem search_spec (n : Nat) (f : Nat → Bool)
    (mono : ∀ a b, a ≤ b → b < n → f a = true → f b = true) :
    search n f ≤ n ∧ (∀ k < search n f, f k = false) ∧
      (∀ k, search n f ≤ k → k < n → f k = true) :=
  searchLoop_spec n f mono n 0 n le_rfl (Nat.zero_le _) (by omega) (by omega) (by omega)

/-- The lower-bound search the storage code writes for an entry `x` of a sorted list `l`:
    `sort.Search(len(l), func(i int) bool { return strings.Compare(x, l[i]) <= 0 })`. -/
def lowerBound (l : List Bytes) (x : Bytes) : Nat :=
  search l.length fun i => decide (stringsCompare x (l.getD i []) ≤ 0)

/-- The SliceTricks insert `l = append(l, ""); copy(l[i+1:], l[i:]); l[i] = x`: after the
    copy the old `l[i:]` sits one place to the right, so the result is `l[:i] ++ [x] ++ l[i:]`. -/
def insertAt (l : List Bytes) (i : Nat) (x : Bytes) : List Bytes :=
  l.take i ++ x :: l.drop i

/-- A strictly increasing list: the invariant of every sorted slice of the storage code. -/
abbrev StrictlySorted (l : List Bytes) : Prop := l.Sorted (· < ·)

section LowerBound

variable {l : List Bytes} {x : Bytes}

theorem getD_of_lt {i : Nat} (h : i < l.length) : l.getD i [] = l[i] := by
  simp [List.getElem?_eq_getElem h]

theorem getElem?_getD_of_lt {i : Nat} (h : i < l.length) : (l[i]?).getD [] = l[i] := by
  simp [List.getElem?_eq_getElem h]

/-- On a strictly increasing list the lower bound splits the list at `x`: every entry before
    it is below `x` and every entry from it on is at least `x`. -/
theorem lowerBound_spec (hs : StrictlySorted l) :
    lowerBound l x ≤ l.length ∧
      (∀ i (h : i < l.length), i < lowerBound l x → l[i] < x) ∧
      (∀ i (h : i < l.length), lowerBound l x ≤ i → x ≤ l[i]) := by
  have mono : ∀ a b, a ≤ b → b < l.length →
      decide (stringsCompare x (l.getD a []) ≤ 0) = true →
      decide (stringsCompare x (l.getD b []) ≤ 0) = true := by
    intro a b hab hb ha
    simp only [decide_eq_true_eq, stringsCompare_nonpos_iff, getD_of_lt hb,
      getD_of_lt (Nat.lt_of_le_of_lt hab hb)] at ha ⊢
    rcases Nat.lt_or_eq_of_le hab with hab | rfl
    · exact ha.trans
        (List.Sorted.rel_get_of_lt hs (a := ⟨a, by omega⟩) (b := ⟨b, hb⟩) hab).le
    · exact ha
  obtain ⟨hle, hlo, hhi⟩ := search_spec _ _ mono
  refine ⟨hle, fun i h hi => ?_, fun i h hi => ?_⟩
  · have := hlo i hi
    simpa [getElem?_getD_of_lt h] using this
  · have := hhi i hi h
    simpa [getElem?_getD_of_lt h] using this

/-- The test the storage code makes after the search, `idx < count && Compare(x, l[idx]) == 0`,
    holds exactly when `x` is in the list. -/
theorem lowerBound_mem_iff (hs : StrictlySorted l) :
    (∃ h : lowerBound l x < l.length, l[lowerBound l x] = x) ↔ x ∈ l := by
  obtain ⟨_, hlo, hhi⟩ := lowerBound_spec (x := x) hs
  constructor
  · rintro ⟨h, heq⟩
    exact heq ▸ List.getElem_mem h
  · intro hx
    obtain ⟨i, hi, rfl⟩ := List.mem_iff_getElem.mp hx
    have hlb : lowerBound l l[i] ≤ i := by
      by_contra hc
      exact lt_irrefl _ (hlo i hi (by omega))
    refine ⟨by omega, ?_⟩
    rcases Nat.lt_or_eq_of_le hlb with hlt | heq
    · exact absurd (hhi _ (by omega) le_rfl)
        (not_le.mpr (List.Sorted.rel_get_of_lt hs (a := ⟨_, by omega⟩) (b := ⟨i, hi⟩) hlt))
    · simp only [heq]

/-- The same test with `l[idx]` read as the code's `Compare(x, l[idx]) == 0`. -/
theorem lowerBound_found_iff (hs : StrictlySorted l) :
    (lowerBound l x < l.length ∧ stringsCompare x (l.getD (lowerBound l x) []) = 0) ↔ x ∈ l := by
  rw [← lowerBound_mem_iff hs, stringsCompare_eq_zero_iff]
  constructor
  · rintro ⟨h, heq⟩
    exact ⟨h, by rw [← getD_of_lt h]; exact heq.symm⟩
  · rintro ⟨h, heq⟩
    exact ⟨h, by rw [getD_of_lt h, heq]⟩

/-- Inserting an absent entry at its lower bound keeps the list strictly increasing. -/
theorem insertAt_sorted (hs : StrictlySorted l) (hx : x ∉ l) :
    StrictlySorted (insertAt l (lowerBound l x) x) := by
  obtain ⟨hle, hlo, hhi⟩ := lowerBound_spec (x := x) hs
  have below : ∀ a ∈ l.take (lowerBound l x), a < x := by
    intro a ha
    obtain ⟨i, hi, rfl⟩ := List.mem_iff_getElem.mp ha
    simp only [List.length_take] at hi
    simpa using hlo i (by omega) (by omega)
  have above : ∀ b ∈ l.drop (lowerBound l x), x < b := by
    intro b hb
    obtain ⟨i, hi, rfl⟩ := List.mem_iff_getElem.mp hb
    simp only [List.length_drop] at hi
    have hmem : l[lowerBound l x + i] ∈ l := List.getElem_mem _
    simp only [List.getElem_drop]
    exact lt_of_le_of_ne (hhi _ (by omega) (by omega)) fun h => hx (h ▸ hmem)
  have split := List.take_append_drop (lowerBound l x) l
  rw [← split, StrictlySorted, List.Sorted, List.pairwise_append] at hs
  rw [insertAt, StrictlySorted, List.Sorted, List.pairwise_append, List.pairwise_cons]
  refine ⟨hs.1, ⟨above, hs.2.1⟩, fun a ha b hb => ?_⟩
  rcases List.mem_cons.mp hb with rfl | hb
  · exact below a ha
  · exact hs.2.2 a ha b hb

@[simp] theorem mem_insertAt {i : Nat} {y : Bytes} :
    y ∈ insertAt l i x ↔ y = x ∨ y ∈ l := by
  conv_rhs => rw [← List.take_append_drop i l]
  simp only [insertAt, List.mem_append, List.mem_cons]
  tauto

end LowerBound

end CtMapReduce.Go
