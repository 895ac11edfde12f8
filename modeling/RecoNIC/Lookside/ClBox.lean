import RecoNIC.Lookside.ControlApi

namespace reconic.cl_box

/-- Why a call of `parse_ctl_cmd` does not return: the stream has no word to
read and the call waits, or it stores outside `cmd_array`. -/
inductive ParseError where
  | stream_empty
  | out_of_bounds
  deriving DecidableEq

/-- The `int` outputs of `parse_ctl_cmd`. -/
structure Args where
  a_baseaddr : BitVec 32
  b_baseaddr : BitVec 32
  c_baseaddr : BitVec 32
  a_row : BitVec 32
  a_col : BitVec 32
  b_col : BitVec 32
  work_id : BitVec 32
  deriving DecidableEq

/-- The loop that receives the words after the size word. The comparison is the
unsigned one of `uint32_t`, so a size below 2 wraps. -/
def recvLoop (cmd_size : BitVec 32) : List (BitVec 32) → BitVec 32 → Vector (BitVec 32) 5 →
    Except ParseError (Vector (BitVec 32) 5 × List (BitVec 32))
  | [], cmd_recved, cmd_array =>
    if cmd_recved ≤ cmd_size - 2 then .error .stream_empty else .ok (cmd_array, [])
  | word :: stream, cmd_recved, cmd_array =>
    if cmd_recved ≤ cmd_size - 2 then
      if h : cmd_recved.toNat < 5 then
        recvLoop cmd_size stream (cmd_recved + 1) (cmd_array.set cmd_recved.toNat word)
      else .error .out_of_bounds
    else .ok (cmd_array, word :: stream)

/-- One call: the outputs, and the words left in the stream. -/
def parse_ctl_cmd : List (BitVec 32) → Except ParseError (Args × List (BitVec 32))
  | [] => .error .stream_empty
  | cmd_size :: stream => do
    let (cmd_array, stream) ← recvLoop cmd_size stream 0 (Vector.replicate 5 0)
    return ({ a_baseaddr := cmd_array[0]
              b_baseaddr := cmd_array[1]
              c_baseaddr := cmd_array[2]
              a_row := cmd_array[3] >>> 16
              a_col := cmd_array[3] &&& 0x0000ffff#32
              b_col := cmd_array[4] >>> 16
              work_id := cmd_array[4] &&& 0x0000ffff#32 }, stream)

/-- Successive calls on one stream. -/
def parse_ctl_cmds : Nat → List (BitVec 32) → Except ParseError (List Args × List (BitVec 32))
  | 0, stream => return ([], stream)
  | calls + 1, stream => do
    let (args, stream) ← parse_ctl_cmd stream
    let (rest, stream) ← parse_ctl_cmds calls stream
    return (args :: rest, stream)

/-- A call that parses a frame is followed by the remaining calls. -/
theorem parse_ctl_cmds_succ {calls : Nat} {stream after left : List (BitVec 32)} {args : Args}
    {rest : List Args} (hfirst : parse_ctl_cmd stream = .ok (args, after))
    (hrest : parse_ctl_cmds calls after = .ok (rest, left)) :
    parse_ctl_cmds (calls + 1) stream = .ok (args :: rest, left) := by
  rw [parse_ctl_cmds, hfirst]
  dsimp only [Except.bind, bind]
  rw [hrest]
  rfl

/-- A frame of size 6 is consumed exactly, and its five payload words are the
ones the outputs are computed from. -/
theorem parse_ctl_cmd_six (a b c d e : BitVec 32) (stream : List (BitVec 32)) :
    parse_ctl_cmd (6 :: a :: b :: c :: d :: e :: stream) =
      .ok (⟨a, b, c, d >>> 16, d &&& 0x0000ffff#32, e >>> 16, e &&& 0x0000ffff#32⟩, stream) := by
  cases stream <;> rfl

/-- Nothing is read once `cmd_size - 1` words have been received. -/
theorem recvLoop_done {cmd_size cmd_recved : BitVec 32} (stream : List (BitVec 32))
    (cmd_array : Vector (BitVec 32) 5) (hdone : cmd_size - 2 < cmd_recved) :
    recvLoop cmd_size stream cmd_recved cmd_array = .ok (cmd_array, stream) := by
  cases stream with
  | nil => rw [recvLoop, if_neg (BitVec.not_le.mpr hdone)]
  | cons word stream => rw [recvLoop, if_neg (BitVec.not_le.mpr hdone)]

/-- Under a bound inside `cmd_array` the loop receives the words up to the
bound and leaves the rest of the stream. -/
theorem recvLoop_returns (cmd_size cmd_recved : BitVec 32) (stream : List (BitVec 32))
    (cmd_array : Vector (BitVec 32) 5) (hbound : (cmd_size - 2).toNat < 5)
    (hrecved : cmd_recved.toNat ≤ (cmd_size - 2).toNat + 1)
    (hstream : (cmd_size - 2).toNat + 1 - cmd_recved.toNat ≤ stream.length) :
    ∃ received, recvLoop cmd_size stream cmd_recved cmd_array =
      .ok (received, stream.drop ((cmd_size - 2).toNat + 1 - cmd_recved.toNat)) := by
  induction stream generalizing cmd_recved cmd_array with
  | nil =>
    have hpast : (cmd_size - 2).toNat < cmd_recved.toNat := by
      simp only [List.length_nil, Nat.le_zero] at hstream
      omega
    exact ⟨cmd_array, by rw [recvLoop_done _ _ (BitVec.lt_def.mpr hpast), List.drop_nil]⟩
  | cons word stream ih =>
    by_cases hmore : cmd_recved ≤ cmd_size - 2
    · have hle : cmd_recved.toNat ≤ (cmd_size - 2).toNat := BitVec.le_def.mp hmore
      have hslot : cmd_recved.toNat < 5 := by omega
      have hnext : (cmd_recved + 1).toNat = cmd_recved.toNat + 1 := by bv_omega
      obtain ⟨received, hreceived⟩ := ih (cmd_recved + 1) (cmd_array.set cmd_recved.toNat word)
        (by rw [hnext]; omega) (by rw [hnext]; simp only [List.length_cons] at hstream; omega)
      refine ⟨received, ?_⟩
      rw [recvLoop, if_pos hmore, dif_pos hslot, hreceived, hnext]
      have hcount : (cmd_size - 2).toNat + 1 - cmd_recved.toNat =
          (cmd_size - 2).toNat + 1 - (cmd_recved.toNat + 1) + 1 := by omega
      rw [hcount, List.drop_succ_cons]
    · have hpast : (cmd_size - 2).toNat < cmd_recved.toNat :=
        BitVec.lt_def.mp (BitVec.not_le.mp hmore)
      refine ⟨cmd_array, ?_⟩
      rw [recvLoop_done _ _ (BitVec.not_le.mp hmore), Nat.sub_eq_zero_of_le hpast, List.drop_zero]

/-- A bound outside `cmd_array`: the sixth word has no slot, and a stream that
ends before it leaves the call waiting. -/
theorem recvLoop_fails {cmd_size cmd_recved : BitVec 32} (stream : List (BitVec 32))
    (cmd_array : Vector (BitVec 32) 5) (hbound : 5 ≤ (cmd_size - 2).toNat)
    (hrecved : cmd_recved.toNat ≤ 5) :
    recvLoop cmd_size stream cmd_recved cmd_array =
      .error (if stream.length + cmd_recved.toNat ≤ 5 then .stream_empty else .out_of_bounds) := by
  have hmore : cmd_recved ≤ cmd_size - 2 := BitVec.le_def.mpr (by omega)
  induction stream generalizing cmd_recved cmd_array with
  | nil => rw [recvLoop, if_pos hmore, if_pos (by simpa using hrecved)]
  | cons word stream ih =>
    by_cases hslot : cmd_recved.toNat < 5
    · have hnext : (cmd_recved + 1).toNat = cmd_recved.toNat + 1 := by bv_omega
      rw [recvLoop, if_pos hmore, dif_pos hslot,
        ih _ (by omega) (BitVec.le_def.mpr (by omega)), hnext, List.length_cons,
        Nat.add_right_comm, Nat.add_assoc]
    · rw [recvLoop, if_pos hmore, dif_neg hslot, if_neg (by rw [List.length_cons]; omega)]

/-- The loop bound `cmd_size - 2` is below 5 for the sizes 2 to 6 only: it is
computed modulo 2^32. -/
theorem bound_lt_five (cmd_size : BitVec 32) :
    (cmd_size - 2).toNat < 5 ↔ 2 ≤ cmd_size.toNat ∧ cmd_size.toNat ≤ 6 := by
  bv_omega

/-- A size that stays inside `cmd_array` is consumed exactly. -/
theorem parse_ctl_cmd_returns {cmd_size : BitVec 32} {stream : List (BitVec 32)}
    (hsize : 2 ≤ cmd_size.toNat ∧ cmd_size.toNat ≤ 6)
    (hstream : cmd_size.toNat - 1 ≤ stream.length) :
    ∃ args, parse_ctl_cmd (cmd_size :: stream) =
      .ok (args, stream.drop (cmd_size.toNat - 1)) := by
  have hcount : (cmd_size - 2).toNat + 1 = cmd_size.toNat - 1 := by bv_omega
  obtain ⟨received, hreceived⟩ := recvLoop_returns cmd_size 0 stream
    (Vector.replicate 5 0) ((bound_lt_five cmd_size).mpr hsize) (Nat.zero_le _)
    (by rw [hcount]; exact hstream)
  rw [hcount] at hreceived
  exact ⟨_, by rw [parse_ctl_cmd, hreceived]; rfl⟩

/-- Any other size runs past `cmd_array`, or waits for a word that never comes. -/
theorem parse_ctl_cmd_fails {cmd_size : BitVec 32} (stream : List (BitVec 32))
    (hsize : ¬(2 ≤ cmd_size.toNat ∧ cmd_size.toNat ≤ 6)) :
    parse_ctl_cmd (cmd_size :: stream) =
      .error (if stream.length ≤ 5 then .stream_empty else .out_of_bounds) := by
  have hbound : 5 ≤ (cmd_size - 2).toNat := by
    rw [← bound_lt_five] at hsize
    omega
  rw [parse_ctl_cmd, recvLoop_fails stream _ hbound (Nat.zero_le _)]
  rfl

/-- A call on a stream with the words its size announces returns, keeps inside
`cmd_array` and consumes `max cmd_size 1` words, for the sizes 2 to 6 exactly. -/
theorem parse_ctl_cmd_safe_iff (cmd_size : BitVec 32) (stream : List (BitVec 32))
    (hstream : cmd_size.toNat - 1 ≤ stream.length) :
    (∃ args, parse_ctl_cmd (cmd_size :: stream) =
        .ok (args, (cmd_size :: stream).drop (max cmd_size.toNat 1))) ↔
      2 ≤ cmd_size.toNat ∧ cmd_size.toNat ≤ 6 := by
  constructor
  · rintro ⟨args, hreturns⟩
    apply Classical.byContradiction
    intro hsize
    rw [parse_ctl_cmd_fails stream hsize] at hreturns
    simp at hreturns
  · intro hsize
    obtain ⟨args, hreturns⟩ := parse_ctl_cmd_returns hsize hstream
    have hwords : max cmd_size.toNat 1 = cmd_size.toNat - 1 + 1 := by omega
    exact ⟨args, by rw [hreturns, hwords, List.drop_succ_cons]⟩

theorem parse_ctl_cmd_safe_iff_six :
    ∃ args, parse_ctl_cmd [6, 1, 2, 3, 4, 5, 7] = .ok (args, [7]) :=
  (parse_ctl_cmd_safe_iff 6 [1, 2, 3, 4, 5, 7] (by decide)).mpr (by decide)

/-- The size word of a frame without payload: the bound wraps, and the call eats
the next frame and stores its last word behind `cmd_array`. -/
theorem parse_ctl_cmd_size_one :
    parse_ctl_cmd [1, 6, 0, 64, 128, 0x20002, 0x20001] = .error .out_of_bounds ∧
      ¬∃ args, parse_ctl_cmd [1, 6, 0, 64, 128, 0x20002, 0x20001] =
        .ok (args, [6, 0, 64, 128, 0x20002, 0x20001]) := by
  have hfails : parse_ctl_cmd [1, 6, 0, 64, 128, 0x20002, 0x20001] = .error .out_of_bounds :=
    parse_ctl_cmd_fails [6, 0, 64, 128, 0x20002, 0x20001] (by decide)
  refine ⟨hfails, ?_⟩
  rintro ⟨args, hreturns⟩
  rw [hfails] at hreturns
  simp at hreturns

end reconic.cl_box
