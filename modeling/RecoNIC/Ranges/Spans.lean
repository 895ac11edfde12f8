import Mathlib

namespace ranges

/-- Bytes at consecutive addresses. -/
structure Span where
  start : Nat
  len : Nat
  deriving DecidableEq

def Span.bytes (s : Span) : List Nat := (List.range s.len).map fun i => s.start + i

/-- The bytes of spans one after the other. -/
def bytes (spans : List Span) : List Nat := spans.flatMap Span.bytes

def total (spans : List Span) : Nat := (spans.map Span.len).sum

@[simp] theorem bytes_nil : bytes [] = [] := rfl

@[simp] theorem bytes_cons (s : Span) (spans : List Span) :
    bytes (s :: spans) = s.bytes ++ bytes spans := by simp [bytes]

@[simp] theorem bytes_append (l l' : List Span) : bytes (l ++ l') = bytes l ++ bytes l' := by
  simp [bytes]

@[simp] theorem total_nil : total [] = 0 := rfl

@[simp] theorem total_cons (s : Span) (spans : List Span) :
    total (s :: spans) = s.len + total spans := by simp [total]

@[simp] theorem total_append (l l' : List Span) : total (l ++ l') = total l + total l' := by
  simp [total]

/-- A span may be cut in two. -/
theorem Span.bytes_add (start m n : Nat) :
    (Span.mk start (m + n)).bytes = (Span.mk start m).bytes ++ (Span.mk (start + m) n).bytes := by
  simp only [Span.bytes, List.range_add, List.map_append, List.map_map, Function.comp_def,
    Nat.add_assoc]

/-- The first spans have no more bytes than all. -/
theorem take_total_le (spans : List Span) (n : Nat) : total (spans.take n) ≤ total spans := by
  conv_rhs => rw [← List.take_append_drop n spans, total_append]
  exact Nat.le_add_right _ _

section Chunks

variable {size : Nat} (hsize : 0 < size)

/-- A span in chunks of at most `size` bytes. An empty span is one empty chunk. -/
def chunks (hsize : 0 < size) (start len : Nat) : List Span :=
  if len ≤ size then [⟨start, len⟩]
  else ⟨start, size⟩ :: chunks hsize (start + size) (len - size)
termination_by len

/-- Chunks have as many bytes as what is cut. -/
theorem chunks_total (start len : Nat) : total (chunks hsize start len) = len := by
  induction start, len using chunks.induct hsize with
  | case1 start len hle => simp [chunks, hle]
  | case2 start len hmore ih =>
    rw [chunks, if_neg hmore, total_cons, ih]
    dsimp only
    omega

/-- Chunks are the bytes that are cut, in order. -/
theorem chunks_bytes (start len : Nat) :
    bytes (chunks hsize start len) = (Span.mk start len).bytes := by
  induction start, len using chunks.induct hsize with
  | case1 start len hle => simp [chunks, hle]
  | case2 start len hmore ih =>
    rw [chunks, if_neg hmore, bytes_cons, ih, ← Span.bytes_add]
    congr 2
    omega

/-- No chunk is longer than the given size. -/
theorem chunks_len_le (start len : Nat) : ∀ s ∈ chunks hsize start len, s.len ≤ size := by
  induction start, len using chunks.induct hsize with
  | case1 start len hle => simp [chunks, hle]
  | case2 start len hmore ih =>
    rw [chunks, if_neg hmore]
    intro s hs
    rcases List.mem_cons.mp hs with rfl | hs
    · exact Nat.le_refl size
    · exact ih s hs

/-- No chunk is empty. -/
theorem chunks_len_pos (start : Nat) {len : Nat} (hpos : 0 < len) :
    ∀ s ∈ chunks hsize start len, 0 < s.len := by
  induction start, len using chunks.induct hsize with
  | case1 start len hle => simpa [chunks, hle] using hpos
  | case2 start len hmore ih =>
    rw [chunks, if_neg hmore]
    intro s hs
    rcases List.mem_cons.mp hs with rfl | hs
    · exact hsize
    · exact ih (by omega) s hs

/-- The chunks that are left after the first ones are those of what is left. -/
theorem chunks_drop (start : Nat) {len n : Nat} (hpos : 0 < len)
    (hn : n < (chunks hsize start len).length) :
    total ((chunks hsize start len).take n) < len ∧
      chunks hsize (start + total ((chunks hsize start len).take n))
        (len - total ((chunks hsize start len).take n)) = (chunks hsize start len).drop n := by
  induction start, len using chunks.induct hsize generalizing n with
  | case1 start len hle =>
    have hone : chunks hsize start len = [⟨start, len⟩] := by rw [chunks, if_pos hle]
    rw [hone] at hn ⊢
    obtain rfl : n = 0 := by simpa using hn
    simpa [hone] using hpos
  | case2 start len hmore ih =>
    have hmany : chunks hsize start len =
        ⟨start, size⟩ :: chunks hsize (start + size) (len - size) := by rw [chunks, if_neg hmore]
    rw [hmany] at hn
    cases n with
    | zero => simpa using hpos
    | succ n =>
      obtain ⟨hlt, hrest⟩ := ih (by omega) (Nat.lt_of_succ_lt_succ hn)
      rw [hmany, List.take_succ_cons, List.drop_succ_cons, total_cons]
      dsimp only
      refine ⟨by omega, ?_⟩
      rw [← hrest]
      congr 1 <;> omega

/-- The bytes of spans from an offset on, in chunks. No chunk has bytes of two spans. -/
def cut (hsize : 0 < size) : List Span → Nat → List Span
  | [], _ => []
  | s :: spans, off =>
    if s.len ≤ off then cut hsize spans (off - s.len)
    else chunks hsize (s.start + off) (s.len - off) ++ cut hsize spans 0

/-- From an offset on, the rest is cut. -/
theorem cut_total {spans : List Span} {off : Nat} (h : off ≤ total spans) :
    off + total (cut hsize spans off) = total spans := by
  induction spans generalizing off with
  | nil => simpa [cut] using h
  | cons s spans ih =>
    rw [total_cons] at h ⊢
    rw [cut]
    split
    · have := @ih (off - s.len) (by omega)
      omega
    · have := @ih 0 (by omega)
      rw [total_append, chunks_total]
      omega

/-- Cutting spans keeps their bytes in order. -/
theorem cut_bytes {spans : List Span} (hpos : ∀ s ∈ spans, 0 < s.len) :
    bytes (cut hsize spans 0) = bytes spans := by
  induction spans with
  | nil => rfl
  | cons s spans ih =>
    have hs := hpos s List.mem_cons_self
    rw [cut, if_neg (by omega), bytes_append, chunks_bytes, bytes_cons,
      ih fun t ht => hpos t (List.mem_cons_of_mem _ ht)]
    rfl

/-- No piece of a span is longer than the given size. -/
theorem cut_len_le (spans : List Span) (off : Nat) : ∀ s ∈ cut hsize spans off, s.len ≤ size := by
  induction spans generalizing off with
  | nil => simp [cut]
  | cons s spans ih =>
    rw [cut]
    split
    · exact ih _
    · intro t ht
      rcases List.mem_append.mp ht with ht | ht
      · exact chunks_len_le hsize _ _ t ht
      · exact ih 0 t ht

/-- No piece of a span is empty. -/
theorem cut_len_pos (spans : List Span) (off : Nat) : ∀ s ∈ cut hsize spans off, 0 < s.len := by
  induction spans generalizing off with
  | nil => simp [cut]
  | cons s spans ih =>
    rw [cut]
    split
    · exact ih _
    · intro t ht
      rcases List.mem_append.mp ht with ht | ht
      · exact chunks_len_pos hsize _ (by omega) t ht
      · exact ih 0 t ht

/-- The cut can be interrupted after any chunk: what follows the first chunks is the cut from
where they end. -/
theorem cut_drop (spans : List Span) (off n : Nat) :
    cut hsize spans (off + total ((cut hsize spans off).take n)) = (cut hsize spans off).drop n := by
  induction spans generalizing off n with
  | nil => simp [cut]
  | cons s spans ih =>
    by_cases hpast : s.len ≤ off
    · have hskip : ∀ more, cut hsize (s :: spans) (off + more) =
          cut hsize spans (off - s.len + more) := by
        intro more
        rw [cut, if_pos (by omega)]
        congr 1
        omega
      rw [hskip, cut, if_pos hpast]
      exact ih (off - s.len) n
    · have hcut : cut hsize (s :: spans) off =
          chunks hsize (s.start + off) (s.len - off) ++ cut hsize spans 0 := by
        rw [cut, if_neg hpast]
      rw [hcut, List.take_append, List.drop_append, total_append]
      by_cases hn : n < (chunks hsize (s.start + off) (s.len - off)).length
      · obtain ⟨hlt, hrest⟩ := chunks_drop hsize (s.start + off) (by omega) hn
        have hzero : n - (chunks hsize (s.start + off) (s.len - off)).length = 0 := by omega
        rw [hzero, List.take_zero, List.drop_zero, total_nil, ← hrest, cut, if_neg (by omega)]
        congr 2 <;> omega
      · rw [List.take_of_length_le (by omega), List.drop_of_length_le (by omega), chunks_total,
          List.nil_append, cut, if_pos (by omega), ← ih 0]
        congr 1
        omega

end Chunks

end ranges
