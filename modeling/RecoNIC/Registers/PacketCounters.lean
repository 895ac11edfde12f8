import Mathlib.Algebra.Order.Ring.Nat
import RecoNIC.Registers.RegControl

open clocked

namespace reconic.rn_reg_control

/-- The packets that a counter counts. -/
inductive Traffic where
  | roce
  | non_roce
  deriving DecidableEq

def Traffic.pkt_recved : Traffic → Input → Bool
  | .roce, i => i.roce_pkt_recved
  | .non_roce, i => i.non_roce_pkt_recved

/-- The counter whose registers have no reset. -/
def Traffic.no_reset : Traffic → Regs → Counter
  | .roce, s => s.trroce_no_reset
  | .non_roce, s => s.trnonroce_no_reset

def Traffic.no_reset_high_reg : Traffic → BitVec 12
  | .roce => TRROCE_NO_RESET_HIGH_REG
  | .non_roce => TRNONROCE_NO_RESET_HIGH_REG

def Traffic.no_reset_low_reg : Traffic → BitVec 12
  | .roce => TRROCE_NO_RESET_LOW_REG
  | .non_roce => TRNONROCE_NO_RESET_LOW_REG

/-- How often the high register has been carried into when `n` packets have been
counted: the carry of a wrap comes with the packet after it. -/
def carries (n : Nat) : Nat := (n - 1) / 2 ^ 32

/-- A counter that is never cleared, after `n` packets. -/
structure Counted (n : Nat) (c : Counter) : Prop where
  low : c.low.low_reg.toNat = n % 2 ^ 32
  msb : c.low.msb_low = decide (2 ^ 31 ≤ (n - 1) % 2 ^ 32)
  high : c.high.high_reg.toNat + c.low.carry_bit.toNat = carries n
  running : c.high.overflow_bit = false

/-- The cycles in which no packet has come for at least two cycles. -/
structure Quiet (t : Traffic) (inputs : List Input) : Prop where
  low : ∀ i ∈ inputs, t.pkt_recved i = false
  two : 2 ≤ inputs.length

theorem no_reset_step (t : Traffic) (s : Regs) (i : Input) :
    t.no_reset (machine.step s i) = (t.no_reset s).clock false false (t.pkt_recved i) := by
  cases t <;> rfl

theorem read_no_reset_high (t : Traffic) (s : Regs) :
    read_data s t.no_reset_high_reg = (t.no_reset s).high.high_reg := by
  cases t <;> rfl

theorem read_no_reset_low (t : Traffic) (s : Regs) :
    read_data s t.no_reset_low_reg = (t.no_reset s).low.low_reg := by
  cases t <;> rfl

theorem Counted.zero : Counted 0 .zero := ⟨rfl, rfl, rfl, rfl⟩

/-- The high register keeps room for the carry, so its top bit is clear. -/
theorem Counted.high_clock {n : Nat} {c : Counter} (hcounted : Counted n c) (hn : n < 2 ^ 63) :
    (c.high.clock false c.low.carry_bit).high_reg.toNat = carries n ∧
      (c.high.clock false c.low.carry_bit).overflow_bit = false := by
  have hsum := hcounted.high
  have hsmall : carries n < 2 ^ 31 := by
    rw [carries]
    omega
  have htop : c.high.high_reg.msb = false := by
    rw [BitVec.msb_eq_decide, decide_eq_false_iff_not]
    omega
  simp only [CounterHigh.clock, hcounted.running, Bool.not_false, if_true, Bool.false_eq_true, if_false]
  refine ⟨?_, htop⟩
  cases hcarry : c.low.carry_bit with
  | false => simpa [hcarry] using hsum
  | true =>
    rw [hcarry, Bool.toNat_true] at hsum
    rw [if_pos rfl, BitVec.toNat_add]
    simp only [BitVec.toNat_ofNat]
    omega

theorem Counted.packet {n : Nat} {c : Counter} (hcounted : Counted n c) (hn : n < 2 ^ 63) :
    Counted (n + 1) (c.clock false false true) := by
  obtain ⟨hhigh, hrunning⟩ := hcounted.high_clock hn
  obtain ⟨hlow, hmsb, -, hnow⟩ := hcounted
  have htop : c.low.low_reg.msb = decide (2 ^ 31 ≤ n % 2 ^ 32) := by
    rw [BitVec.msb_eq_decide, hlow]
  refine ⟨?_, ?_, ?_, hrunning⟩
  · simp only [Counter.clock, CounterLow.clock, hnow, Bool.not_false, if_true, Bool.false_eq_true,
      if_false, BitVec.toNat_add, hlow, BitVec.toNat_ofNat]
    omega
  · simp only [Counter.clock, CounterLow.clock, hnow, Bool.not_false, if_true, Bool.false_eq_true,
      if_false, htop, Nat.add_sub_cancel]
  · have hcarry : (c.clock false false true).low.carry_bit = decide (0 < n ∧ n % 2 ^ 32 = 0) := by
      simp only [Counter.clock, CounterLow.clock, hnow, Bool.not_false, if_true, Bool.false_eq_true,
        if_false, hmsb, htop, ← decide_not, ← Bool.decide_and]
      rw [decide_eq_decide]
      omega
    rw [hcarry]
    simp only [Counter.clock, hhigh, carries]
    by_cases hwrap : 0 < n ∧ n % 2 ^ 32 = 0
    · rw [decide_eq_true hwrap, Bool.toNat_true]
      omega
    · rw [decide_eq_false hwrap, Bool.toNat_false]
      omega

theorem Counted.quiet {n : Nat} {c : Counter} (hcounted : Counted n c) (hn : n < 2 ^ 63) :
    Counted n (c.clock false false false) ∧ (c.clock false false false).low.carry_bit = false := by
  obtain ⟨hhigh, hrunning⟩ := hcounted.high_clock hn
  obtain ⟨hlow, hmsb, -, hnow⟩ := hcounted
  have hlow' : (c.clock false false false).low = { c.low with carry_bit := false } := by
    simp only [Counter.clock, CounterLow.clock, hnow, Bool.not_false, if_true, Bool.false_eq_true, if_false]
  refine ⟨⟨?_, ?_, ?_, hrunning⟩, by rw [hlow']⟩
  · rw [hlow']
    exact hlow
  · rw [hlow']
    exact hmsb
  · rw [hlow']
    exact hhigh

/-- A counter without reset counts in every run. -/
theorem counted_run (t : Traffic) (inputs : List Input) (hn : inputs.countP t.pkt_recved < 2 ^ 63) :
    Counted (inputs.countP t.pkt_recved) (t.no_reset (machine.run inputs)) := by
  induction inputs using List.reverseRecOn with
  | nil => cases t <;> exact Counted.zero
  | append_singleton inputs i ih =>
    rw [List.countP_append, List.countP_singleton] at hn ⊢
    have hbefore : inputs.countP t.pkt_recved < 2 ^ 63 := by omega
    rw [Machine.run_snoc, no_reset_step]
    cases hrecved : t.pkt_recved i with
    | true => exact (ih hbefore).packet hbefore
    | false => exact ((ih hbefore).quiet hbefore).1

/-- Once no packet comes, the carry has reached the high register. -/
theorem settled {t : Traffic} (inputs : List Input) {quiet : List Input} (hquiet : Quiet t quiet)
    (hn : inputs.countP t.pkt_recved < 2 ^ 63) :
    (read_data (machine.run (inputs ++ quiet)) t.no_reset_high_reg).toNat =
        carries (inputs.countP t.pkt_recved) ∧
      (read_data (machine.run (inputs ++ quiet)) t.no_reset_low_reg).toNat =
        inputs.countP t.pkt_recved % 2 ^ 32 := by
  obtain ⟨earlier, i, rfl⟩ : ∃ earlier i, quiet = earlier ++ [i] := by
    have hsome : quiet ≠ [] := List.ne_nil_of_length_pos (Nat.lt_of_lt_of_le Nat.zero_lt_two hquiet.two)
    exact ⟨_, _, (List.dropLast_concat_getLast hsome).symm⟩
  have hlast : t.pkt_recved i = false := hquiet.low i (by simp)
  have hnone : earlier.countP t.pkt_recved = 0 := by
    rw [List.countP_eq_zero]
    intro j hj
    simp [hquiet.low j (by simp [hj])]
  have hsame : (inputs ++ earlier).countP t.pkt_recved = inputs.countP t.pkt_recved := by
    rw [List.countP_append, hnone, Nat.add_zero]
  have hcounted := counted_run t (inputs ++ earlier) (by rwa [hsame])
  rw [hsame] at hcounted
  obtain ⟨hafter, hcarry⟩ := hcounted.quiet hn
  rw [← List.append_assoc, Machine.run_snoc, read_no_reset_high, read_no_reset_low, no_reset_step, hlast]
  have hhigh := hafter.high
  rw [hcarry, Bool.toNat_false, Nat.add_zero] at hhigh
  exact ⟨hhigh, hafter.low⟩

theorem pair_toNat (high low : BitVec 32) : (high ++ low).toNat = high.toNat * 2 ^ 32 + low.toNat := by
  rw [BitVec.toNat_append, ← Nat.shiftLeft_add_eq_or_of_lt low.isLt, Nat.shiftLeft_eq]

/-- The pair of registers reads as the number of packets unless that is a positive
multiple of `2 ^ 32`: for every run and for reads in any two of the cycles in which
packets have ceased. -/
theorem no_reset_pair_counts_iff (t : Traffic) (inputs quiet quiet' : List Input)
    (hn : inputs.countP t.pkt_recved < 2 ^ 63) (hquiet : Quiet t quiet) (hquiet' : Quiet t quiet') :
    (read_data (machine.run (inputs ++ quiet)) t.no_reset_high_reg ++
        read_data (machine.run (inputs ++ quiet')) t.no_reset_low_reg).toNat =
          inputs.countP t.pkt_recved ↔
      inputs.countP t.pkt_recved = 0 ∨ inputs.countP t.pkt_recved % 2 ^ 32 ≠ 0 := by
  rw [pair_toNat, (settled inputs hquiet hn).1, (settled inputs hquiet' hn).2, carries]
  omega

/-- A cycle in which nothing is read or written. -/
def idle_cycle (roce_pkt_recved : Bool) : Input where
  s_axil_reg_awvalid := false
  s_axil_reg_awaddr := 0
  s_axil_reg_wvalid := false
  s_axil_reg_wdata := 0
  s_axil_reg_bready := false
  s_axil_reg_arvalid := false
  s_axil_reg_araddr := 0
  s_axil_reg_rready := false
  roce_pkt_recved := roce_pkt_recved
  non_roce_pkt_recved := false
  fatal_err := 0

theorem no_reset_pair_counts_three :
    (read_data (machine.run ([true, false, true, true].map idle_cycle ++ [false, false].map idle_cycle))
          TRROCE_NO_RESET_HIGH_REG ++
        read_data (machine.run ([true, false, true, true].map idle_cycle ++
          [false, false, false].map idle_cycle)) TRROCE_NO_RESET_LOW_REG).toNat = 3 := by
  exact (no_reset_pair_counts_iff .roce ([true, false, true, true].map idle_cycle)
    ([false, false].map idle_cycle) ([false, false, false].map idle_cycle) (by decide)
    ⟨by decide, by decide⟩ ⟨by decide, by decide⟩).mpr (by decide)

def pulses (n : Nat) : List Input := List.replicate n (idle_cycle true)

theorem pulses_pair (n : Nat) (hn : n < 2 ^ 63) :
    (pulses n).countP Traffic.roce.pkt_recved = n ∧
      (read_data (machine.run (pulses n ++ [false, false].map idle_cycle)) TRROCE_NO_RESET_HIGH_REG ++
        read_data (machine.run (pulses n ++ [false, false].map idle_cycle))
          TRROCE_NO_RESET_LOW_REG).toNat = carries n * 2 ^ 32 + n % 2 ^ 32 := by
  have hcount : (pulses n).countP Traffic.roce.pkt_recved = n := by
    rw [pulses, List.countP_replicate]
    rfl
  have hquiet : Quiet .roce ([false, false].map idle_cycle) := ⟨by decide, by decide⟩
  obtain ⟨hhigh, hlow⟩ := settled (pulses n) hquiet (by rwa [hcount])
  rw [hcount] at hhigh hlow
  refine ⟨hcount, ?_⟩
  rw [pair_toNat]
  exact congrArg₂ (· * 2 ^ 32 + ·) hhigh hlow

/-- After `2 ^ 32` packets the pair reads as 0. -/
theorem no_reset_pair_loses_wrap :
    (pulses (2 ^ 32)).countP Traffic.roce.pkt_recved = 2 ^ 32 ∧
      (read_data (machine.run (pulses (2 ^ 32) ++ [false, false].map idle_cycle))
            TRROCE_NO_RESET_HIGH_REG ++
          read_data (machine.run (pulses (2 ^ 32) ++ [false, false].map idle_cycle))
            TRROCE_NO_RESET_LOW_REG).toNat = 0 := by
  obtain ⟨hcount, hpair⟩ := pulses_pair (2 ^ 32) (by decide)
  exact ⟨hcount, hpair.trans (by decide)⟩

end reconic.rn_reg_control
