import Mathlib.Data.Rat.Floor
import RecoNIC.Top.Reconic

open clocked
open reconic.rn_reg_control (Traffic Counter CounterLow Counted carries)

namespace reconic.top

/-- What a counter has counted, with a carry that has not reached the high register. -/
def value (c : Counter) : Nat :=
  c.low.low_reg.toNat + 2 ^ 32 * (c.high.high_reg.toNat + c.low.carry_bit.toNat + c.low.wrapped.toNat)

/-- A packet of the traffic leaves the packet filter in the cycle. -/
def pkt_recved_at_axis_clk : Traffic → Cycle packet_filter.Regs packet_filter.Input → Bool
  | .roce => roce_pkt_recved_at_axis_clk
  | .non_roce => non_roce_pkt_recved_at_axis_clk

/-- The level that the edges of `axil_aclk` sample. -/
def Shell.level (shell : Shell) (t : Traffic) : Nat → Bool :=
  registered false fun j => pkt_recved_at_axis_clk t (shell.filter_cycle j)

theorem value_of_counted {n : Nat} {c : Counter} (hcounted : Counted n c) : value c = n := by
  obtain ⟨hlow, hmsb, hhigh, -⟩ := hcounted
  have hwrapped : c.low.wrapped = decide (0 < n ∧ n % 2 ^ 32 = 0) := by
    simp only [CounterLow.wrapped, hmsb, BitVec.msb_eq_decide, hlow, ← decide_not, ← Bool.decide_and]
    rw [decide_eq_decide]
    omega
  rw [value, hlow, hhigh, hwrapped, carries]
  by_cases hwrap : 0 < n ∧ n % 2 ^ 32 = 0
  · rw [decide_eq_true hwrap, Bool.toNat_true]
    omega
  · rw [decide_eq_false hwrap, Bool.toNat_false]
    omega

theorem pkt_recved_reg_input (shell : Shell) (t : Traffic) (m : Nat) :
    t.pkt_recved (shell.reg_input m) = shell.clocks.synchronised DEST_SYNC_FF false
      (fun j => pkt_recved_at_axis_clk t (shell.filter_cycle j)) m := by
  cases t <;> rfl

/-- The packets that reach the counters are those that an edge has sampled. -/
theorem count_reg_input (shell : Shell) (t : Traffic) (k : Nat) :
    (initialInputs shell.reg_input (DEST_SYNC_FF + k)).countP t.pkt_recved =
      Nat.count (fun n => shell.level t (shell.clocks.edge n) = true) k := by
  rw [initialInputs, countP_map_range]
  simp only [pkt_recved_reg_input]
  exact shell.clocks.count_synchronised DEST_SYNC_FF _ k

theorem no_reset_value (shell : Shell) (t : Traffic) (k : Nat)
    (hn : Nat.count (fun j => shell.level t j = true) (shell.clocks.edge k) < 2 ^ 63) :
    value (t.no_reset (shell.regs (DEST_SYNC_FF + k))) =
      Nat.count (fun n => shell.level t (shell.clocks.edge n) = true) k := by
  have hcount := count_reg_input shell t k
  have hle := shell.clocks.count_le (shell.level t) k
  have hcounted := rn_reg_control.counted_run t (initialInputs shell.reg_input (DEST_SYNC_FF + k))
    (by omega)
  rw [hcount] at hcounted
  exact value_of_counted hcounted

/-- A counter that is cleared by reads counts like the other one when nothing is read. -/
theorem read_to_clear_unread (shell : Shell) (t : Traffic)
    (hunread : ∀ m, (shell.axil m).s_axil_reg_arvalid = false) (m : Nat) :
    (shell.regs m).read.s_axil_reg_rvalid = false ∧
      (shell.regs m).read.axil_read_state = .AXIL_READ_IDLE ∧
      t.read_to_clear (shell.regs m) = t.no_reset (shell.regs m) := by
  induction m with
  | zero => cases t <;> exact ⟨rfl, rfl, rfl⟩
  | succ m ih =>
    obtain ⟨hrvalid, hstate, hsame⟩ := ih
    have hidle : (shell.reg_input m).s_axil_reg_arvalid = false := hunread m
    have hread : (shell.regs (m + 1)).read = (shell.regs m).read := by
      have hclock : (rn_reg_control.machine.step (shell.regs m) (shell.reg_input m)).read =
        rn_reg_control.read_clock (shell.regs m) (shell.reg_input m) := rfl
      simp [shell.regs_succ, hclock, rn_reg_control.read_clock, hstate, hidle]
    rw [hread]
    refine ⟨hrvalid, hstate, ?_⟩
    rw [shell.regs_succ, rn_reg_control.read_to_clear_step, rn_reg_control.no_reset_step, hsame]
    simp [rn_reg_control.being_read, hrvalid]

/-- When both counters have counted every packet that has come before an edge of
`axil_aclk`: when an edge has fallen in the cycle of each of these packets. -/
theorem every_packet_counted_iff (shell : Shell) (t : Traffic) (k : Nat)
    (hn : Nat.count (fun j => shell.level t j = true) (shell.clocks.edge k) < 2 ^ 63) :
    (value (t.no_reset (shell.regs (DEST_SYNC_FF + k))) =
        Nat.count (fun j => shell.level t j = true) (shell.clocks.edge k) ↔
      ∀ j < shell.clocks.edge k, shell.level t j = true → ∃ n < k, shell.clocks.edge n = j) ∧
    ((∀ m, (shell.axil m).s_axil_reg_arvalid = false) →
      (value (t.read_to_clear (shell.regs (DEST_SYNC_FF + k))) =
          Nat.count (fun j => shell.level t j = true) (shell.clocks.edge k) ↔
        ∀ j < shell.clocks.edge k, shell.level t j = true → ∃ n < k, shell.clocks.edge n = j)) := by
  have hvalue := no_reset_value shell t k hn
  have hsampled := shell.clocks.count_eq_iff (shell.level t) k
  refine ⟨by rw [hvalue, hsampled], fun hunread => ?_⟩
  rw [(read_to_clear_unread shell t hunread _).2.2, hvalue, hsampled]

/-- Equal clocks: every packet is counted. -/
theorem every_packet_counted_of_equal_clocks {K : Type} [Field K] [LinearOrder K]
    [IsStrictOrderedRing K] [FloorSemiring K] {phase : K} (hphase : 0 ≤ phase) (hfirst : phase < 1)
    (axis : Nat → packet_filter.Input) (axil : Nat → rn_reg_control.Input) (t : Traffic) (k : Nat)
    (hk : k < 2 ^ 63) :
    let shell : Shell := ⟨.ofClocks 1 phase le_rfl hphase, axis, axil⟩
    value (t.no_reset (shell.regs (DEST_SYNC_FF + k))) = Nat.count (fun j => shell.level t j = true) k := by
  intro shell
  have hedge : shell.clocks.edge = id := funext (Sampling.ofClocks_one_edge hphase hfirst)
  have hle : Nat.count (fun j => shell.level t j = true) (shell.clocks.edge k) ≤ k := by
    rw [hedge]
    exact Nat.count_le _
  rw [no_reset_value shell t k (by omega), hedge]
  rfl

/-- One packet of a single beat, with RoCE metadata, in cycle 1. -/
def one_roce_packet (j : Nat) : packet_filter.Input where
  metadata_in := 1
  metadata_in_valid := true
  s_axis_tvalid := j = 1
  s_axis := ⟨0, 0, 0, true⟩
  m_axis_roce_tready := true
  m_axis_non_roce_tready := true

/-- Both clocks run at the same speed. -/
def equal_clocks : Shell :=
  ⟨.ofClocks (1 : Rat) 0 le_rfl le_rfl, one_roce_packet, fun _ => rn_reg_control.idle_cycle false⟩

theorem equal_clocks_counted : value (Traffic.roce.no_reset (equal_clocks.regs (DEST_SYNC_FF + 4))) =
    Nat.count (fun j => equal_clocks.level .roce j = true) (equal_clocks.clocks.edge 4) := by
  have hedge : ∀ k, equal_clocks.clocks.edge k = k := Sampling.ofClocks_one_edge le_rfl zero_lt_one
  have hfew : Nat.count (fun j => equal_clocks.level .roce j = true) (equal_clocks.clocks.edge 4) <
      2 ^ 63 := by
    have hle : Nat.count (fun j => equal_clocks.level .roce j = true) (equal_clocks.clocks.edge 4) ≤
      equal_clocks.clocks.edge 4 := Nat.count_le _
    rw [hedge] at hle ⊢
    omega
  refine (every_packet_counted_iff equal_clocks .roce 4 hfew).1.mpr ?_
  intro j hj _
  rw [hedge] at hj
  exact ⟨j, hj, hedge j⟩

/-- `axil_aclk` at half the speed of `axis_aclk`. -/
def half_speed : Shell :=
  ⟨.ofClocks (2 : Rat) 0 one_le_two le_rfl, one_roce_packet, fun _ => rn_reg_control.idle_cycle false⟩

/-- The packet comes out between two edges and is not counted. -/
theorem half_speed_misses_packet :
    value (Traffic.roce.no_reset (half_speed.regs (DEST_SYNC_FF + 2))) = 0 ∧
      Nat.count (fun j => half_speed.level .roce j = true) (half_speed.clocks.edge 2) = 1 := by
  have hedge : ∀ k, half_speed.clocks.edge k = 2 * k := Sampling.ofClocks_two_edge
  have hone : Nat.count (fun j => half_speed.level .roce j = true) (half_speed.clocks.edge 2) = 1 := by
    rw [hedge]
    decide +kernel
  refine ⟨?_, hone⟩
  rw [no_reset_value half_speed .roce 2 (by rw [hone]; decide)]
  simp only [hedge]
  decide +kernel

end reconic.top
