import RecoNIC.Clocked.AxiLite
import RecoNIC.Registers.PacketCounters

open clocked

namespace reconic.rn_reg_control

/-- The counter whose registers are cleared when they are read. -/
def Traffic.read_to_clear : Traffic → Regs → Counter
  | .roce, s => s.trroce
  | .non_roce, s => s.trnonroce

def Traffic.high_reg : Traffic → BitVec 12
  | .roce => TRROCE_HIGH_REG
  | .non_roce => TRNONROCE_HIGH_REG

def Traffic.low_reg : Traffic → BitVec 12
  | .roce => TRROCE_LOW_REG
  | .non_roce => TRNONROCE_LOW_REG

/-- The read channels of the register interface during one cycle. -/
@[simps]
def read_pins (c : Cycle Regs Input) : axi_lite.ReadPins (BitVec 12) (BitVec 32) where
  arvalid := c.input.s_axil_reg_arvalid
  arready := c.state.read.s_axil_reg_arready
  araddr := c.input.s_axil_reg_araddr
  rvalid := c.state.read.s_axil_reg_rvalid
  rready := c.input.s_axil_reg_rready
  rdata := c.state.read.s_axil_reg_rdata

@[simp] theorem read_pins_ar_taken (c : Cycle Regs Input) :
    (read_pins c).ar_taken = (c.input.s_axil_reg_arvalid && c.state.read.s_axil_reg_arready) := rfl

@[simp] theorem read_pins_r_taken (c : Cycle Regs Input) :
    (read_pins c).r_taken = (c.state.read.s_axil_reg_rvalid && c.input.s_axil_reg_rready) := rfl

/-- A read of the register is accepted. -/
def accepts_read (c : Cycle Regs Input) (address : BitVec 12) : Bool :=
  (read_pins c).ar_taken && c.input.s_axil_reg_araddr == address

/-- The sum of the values that the reads of a register have returned. -/
def returned (address : BitVec 12) (h : List (Cycle Regs Input)) : Nat :=
  ((axi_lite.results ((h.filter fun c => being_read c.state address).map read_pins)).map
    BitVec.toNat).sum

/-- The packets that have come so far. -/
def Traffic.pulses (t : Traffic) (h : List (Cycle Regs Input)) : Nat :=
  h.countP fun c => t.pkt_recved c.input

/-- The value that is held for a register: while the register is being read and cleared,
that is the value on its way to the master. -/
def held (s : Regs) (address : BitVec 12) (reg : BitVec 32) : Nat :=
  if being_read s address then s.read.s_axil_reg_rdata.toNat else reg.toNat

/-- The low register has wrapped, and no packet has come since. -/
def CounterLow.wrapped (low : CounterLow) : Bool := low.msb_low && !low.low_reg.msb

/-- A wrap that the next packet carries into the high register. -/
def Traffic.pending_wrap (t : Traffic) (s : Regs) : Bool :=
  (t.read_to_clear s).low.wrapped && !being_read s t.low_reg

/-- What the master has read and what is still held. -/
def Traffic.total (t : Traffic) (inputs : List Input) : Nat :=
  returned t.low_reg (machine.trace inputs) + 2 ^ 32 * returned t.high_reg (machine.trace inputs) +
    held (machine.run inputs) t.low_reg (t.read_to_clear (machine.run inputs)).low.low_reg +
    2 ^ 32 * held (machine.run inputs) t.high_reg (t.read_to_clear (machine.run inputs)).high.high_reg

/-- Every packet is accounted for, but for a carry on its way to the high register. -/
def PacketsAccounted (t : Traffic) (inputs : List Input) : Prop :=
  t.total inputs + 2 ^ 32 * (t.read_to_clear (machine.run inputs)).low.carry_bit.toNat =
    t.pulses (machine.trace inputs)

/-- Every packet is accounted for, but for a carry that may still wait for a packet. -/
def PacketsAccountedLater (t : Traffic) (inputs : List Input) : Prop :=
  t.total inputs + 2 ^ 32 * ((t.read_to_clear (machine.run inputs)).low.carry_bit.toNat +
    (t.pending_wrap (machine.run inputs)).toNat) = t.pulses (machine.trace inputs)

/-- No packet comes when a read of the low register is accepted, nor while its response
waits; the high register is not read while a carry moves, nor the low register while a
wrap is pending. -/
structure Lossless (t : Traffic) (c : Cycle Regs Input) : Prop where
  accepted : accepts_read c t.low_reg = true →
    t.pkt_recved c.input = false ∧ t.pending_wrap c.state = false
  waiting : being_read c.state t.low_reg = true → c.input.s_axil_reg_rready = false →
    t.pkt_recved c.input = false
  carried : accepts_read c t.high_reg = true ∨ being_read c.state t.high_reg = true →
    (t.read_to_clear c.state).low.carry_bit = false

/-- The low register is not counted past its end. -/
def NoWrap (t : Traffic) (c : Cycle Regs Input) : Prop :=
  t.pkt_recved c.input = true → being_read c.state t.low_reg = false →
    (t.read_to_clear c.state).low.low_reg ≠ BitVec.allOnes 32

/-- The packets that are lost to the low register in a cycle. -/
def lost_low (t : Traffic) (c : Cycle Regs Input) : Nat :=
  if accepts_read c t.low_reg then
    if t.pkt_recved c.input then 1 else 2 ^ 32 * (t.pending_wrap c.state).toNat
  else if being_read c.state t.low_reg && !c.input.s_axil_reg_rready then
    (t.pkt_recved c.input).toNat
  else 0

/-- The carries that are lost to the high register in a cycle. -/
def lost_high (t : Traffic) (c : Cycle Regs Input) : Nat :=
  if accepts_read c t.high_reg || being_read c.state t.high_reg then
    (t.read_to_clear c.state).low.carry_bit.toNat
  else 0

def lost (t : Traffic) (c : Cycle Regs Input) : Nat := lost_low t c + 2 ^ 32 * lost_high t c

/-- When the low register loses no packet. -/
theorem lost_low_eq_zero_iff (t : Traffic) (c : Cycle Regs Input) : lost_low t c = 0 ↔
    (accepts_read c t.low_reg = true →
      t.pkt_recved c.input = false ∧ t.pending_wrap c.state = false) ∧
    (being_read c.state t.low_reg = true → c.input.s_axil_reg_rready = false →
      t.pkt_recved c.input = false) := by
  unfold lost_low
  cases accepts_read c t.low_reg <;> cases t.pkt_recved c.input <;> cases t.pending_wrap c.state <;>
    cases being_read c.state t.low_reg <;> cases c.input.s_axil_reg_rready <;> decide

/-- When the high register loses no carry. -/
theorem lost_high_eq_zero_iff (t : Traffic) (c : Cycle Regs Input) : lost_high t c = 0 ↔
    (accepts_read c t.high_reg = true ∨ being_read c.state t.high_reg = true →
      (t.read_to_clear c.state).low.carry_bit = false) := by
  unfold lost_high
  cases accepts_read c t.high_reg <;> cases being_read c.state t.high_reg <;>
    cases (t.read_to_clear c.state).low.carry_bit <;> decide

/-- A cycle loses nothing exactly when neither register does. -/
theorem lost_eq_zero_iff (t : Traffic) (c : Cycle Regs Input) : lost t c = 0 ↔ Lossless t c := by
  have hsum : lost t c = 0 ↔ lost_low t c = 0 ∧ lost_high t c = 0 := by
    unfold lost
    omega
  rw [hsum, lost_low_eq_zero_iff, lost_high_eq_zero_iff]
  exact ⟨fun ⟨⟨haccepted, hwaiting⟩, hcarried⟩ => ⟨haccepted, hwaiting, hcarried⟩,
    fun ⟨haccepted, hwaiting, hcarried⟩ => ⟨⟨haccepted, hwaiting⟩, hcarried⟩⟩

/-- The read channels are in one of two states. -/
inductive ReadConsistent (s : Regs) : Prop where
  | idle (state : s.read.axil_read_state = .AXIL_READ_IDLE)
      (arready : s.read.s_axil_reg_arready = true) (rvalid : s.read.s_axil_reg_rvalid = false)
  | resp (state : s.read.axil_read_state = .AXIL_READ_RESP)
      (arready : s.read.s_axil_reg_arready = false) (rvalid : s.read.s_axil_reg_rvalid = true)

/-- The read channel stays consistent. -/
theorem ReadConsistent.step {s : Regs} (h : ReadConsistent s) (i : Input) :
    ReadConsistent (machine.step s i) := by
  have hread : (machine.step s i).read = read_clock s i := rfl
  cases h with
  | idle hstate harready hrvalid =>
    cases harvalid : i.s_axil_reg_arvalid with
    | false =>
      have hsame : (machine.step s i).read = s.read := by
        simp [hread, read_clock, hstate, harvalid]
      exact .idle (by rw [hsame, hstate]) (by rw [hsame, harready]) (by rw [hsame, hrvalid])
    | true =>
      apply ReadConsistent.resp <;> simp [hread, read_clock, hstate, harready, harvalid]
  | resp hstate harready hrvalid =>
    cases hrready : i.s_axil_reg_rready with
    | false =>
      have hsame : (machine.step s i).read = s.read := by
        simp [hread, read_clock, hstate, hrready]
      exact .resp (by rw [hsame, hstate]) (by rw [hsame, harready]) (by rw [hsame, hrvalid])
    | true =>
      apply ReadConsistent.idle <;> simp [hread, read_clock, hstate, hrready, hrvalid]

/-- No register is being read when a read is accepted. -/
theorem ReadConsistent.free {s : Regs} (h : ReadConsistent s) {i : Input} {address : BitVec 12}
    (haccepts : accepts_read ⟨s, i⟩ address = true) (other : BitVec 12) :
    being_read s other = false := by
  cases h with
  | idle _ _ hrvalid => simp [being_read, hrvalid]
  | resp _ harready _ => simp [accepts_read, harready] at haccepts

/-- A register is being read from when a read of it is accepted until the master takes
the response. -/
theorem ReadConsistent.being_read_next {s : Regs} (h : ReadConsistent s) (i : Input)
    (address : BitVec 12) : being_read (machine.step s i) address =
      (accepts_read ⟨s, i⟩ address || (being_read s address && !i.s_axil_reg_rready)) := by
  have hread : (machine.step s i).read = read_clock s i := rfl
  cases h with
  | idle hstate harready hrvalid =>
    cases harvalid : i.s_axil_reg_arvalid <;>
      simp [being_read, accepts_read, hread, read_clock, hstate, harready, hrvalid, harvalid]
  | resp hstate harready hrvalid =>
    cases hrready : i.s_axil_reg_rready <;>
      simp [being_read, accepts_read, hread, read_clock, hstate, harready, hrvalid, hrready]

/-- An accepted read returns the register as it is. -/
theorem ReadConsistent.rdata_accepted {s : Regs} (h : ReadConsistent s) {i : Input}
    {address : BitVec 12} (haccepts : accepts_read ⟨s, i⟩ address = true) :
    (machine.step s i).read.s_axil_reg_rdata = read_data s address := by
  have hread : (machine.step s i).read = read_clock s i := rfl
  cases h with
  | idle hstate harready hrvalid =>
    simp only [accepts_read, read_pins_ar_taken, harready, Bool.and_true, Bool.and_eq_true,
      beq_iff_eq] at haccepts
    simp [hread, read_clock, hstate, harready, haccepts]
  | resp _ harready _ => simp [accepts_read, harready] at haccepts

/-- While it waits for the master the returned word stays. -/
theorem ReadConsistent.rdata_kept {s : Regs} (h : ReadConsistent s) (i : Input) {address : BitVec 12}
    (hreading : being_read s address = true) :
    (machine.step s i).read.s_axil_reg_rdata = s.read.s_axil_reg_rdata := by
  have hread : (machine.step s i).read = read_clock s i := rfl
  cases h with
  | idle _ _ hrvalid => simp [being_read, hrvalid] at hreading
  | resp hstate _ hrvalid =>
    cases hrready : i.s_axil_reg_rready <;> simp [hread, read_clock, hstate, hrvalid, hrready]

/-- A counter is cleared in each cycle in which its register is read. -/
theorem read_to_clear_step (t : Traffic) (s : Regs) (i : Input) :
    t.read_to_clear (machine.step s i) = (t.read_to_clear s).clock (being_read s t.low_reg)
      (being_read s t.high_reg) (t.pkt_recved i) := by
  cases t <;> rfl

/-- Before it overflows, a counter counts every packet in its low register. -/
theorem Traffic.low_clock (t : Traffic) {s : Regs} (i : Input)
    (hrunning : (t.read_to_clear s).high.overflow_bit = false) :
    (t.read_to_clear (machine.step s i)).low =
      (t.read_to_clear s).low.clock false (being_read s t.low_reg) (t.pkt_recved i) := by
  rw [read_to_clear_step, Counter.clock, hrunning]

/-- The low register is read at its address. -/
theorem read_low (t : Traffic) (s : Regs) :
    read_data s t.low_reg = (t.read_to_clear s).low.low_reg := by
  cases t <;> rfl

/-- The high register is read at its address. -/
theorem read_high (t : Traffic) (s : Regs) :
    read_data s t.high_reg = (t.read_to_clear s).high.high_reg := by
  cases t <;> rfl

/-- What the master takes of a register in a cycle. -/
def taken (c : Cycle Regs Input) (address : BitVec 12) : Nat :=
  if being_read c.state address && c.input.s_axil_reg_rready then
    c.state.read.s_axil_reg_rdata.toNat
  else 0

/-- The sum of the words that have been taken, with one more cycle. -/
theorem returned_snoc (address : BitVec 12) (h : List (Cycle Regs Input)) (c : Cycle Regs Input) :
    returned address (h ++ [c]) = returned address h + taken c address := by
  cases hreading : being_read c.state address with
  | false => simp [returned, taken, hreading]
  | true =>
    have hrvalid : c.state.read.s_axil_reg_rvalid = true := by
      simp only [being_read, Bool.and_eq_true] at hreading
      exact hreading.1
    cases hrready : c.input.s_axil_reg_rready <;>
      simp [returned, taken, hreading, hrready, hrvalid]

/-- A packet makes a low register wrap at its end. -/
theorem CounterLow.wrapped_packet (low : CounterLow) :
    (low.clock false false true).wrapped = decide (low.low_reg = BitVec.allOnes 32) := by
  have hlast : low.low_reg = BitVec.allOnes 32 ↔ low.low_reg.toNat + 1 = 2 ^ 32 := by
    rw [← BitVec.toNat_inj, BitVec.toNat_allOnes]
    omega
  simp only [CounterLow.wrapped, CounterLow.clock, Bool.not_false, if_true, Bool.false_eq_true,
    if_false, BitVec.msb_eq_decide, BitVec.toNat_add, BitVec.toNat_ofNat, ← decide_not,
    ← Bool.decide_and]
  rw [decide_eq_decide, hlast]
  have hbound := low.low_reg.isLt
  omega

/-- A low register that is not cleared counts, carries a wrap and keeps a new one. -/
theorem CounterLow.clock_counts (low : CounterLow) (pkt_recved : Bool) :
    (low.clock false false pkt_recved).low_reg.toNat +
        2 ^ 32 * ((low.clock false false pkt_recved).carry_bit.toNat +
          (low.clock false false pkt_recved).wrapped.toNat) =
      low.low_reg.toNat + pkt_recved.toNat + 2 ^ 32 * low.wrapped.toNat := by
  cases pkt_recved with
  | false => simp [CounterLow.clock, CounterLow.wrapped]
  | true =>
    have hcarry : (low.clock false false true).carry_bit = low.wrapped := rfl
    have hlow : (low.clock false false true).low_reg = low.low_reg + 1#32 := rfl
    rw [hcarry, hlow, low.wrapped_packet, Bool.toNat_true]
    by_cases hlast : low.low_reg = BitVec.allOnes 32
    · rw [decide_eq_true hlast, hlast, Bool.toNat_true]
      have hzero : (BitVec.allOnes 32 + 1#32).toNat = 0 := rfl
      have hend : (BitVec.allOnes 32).toNat + 1 = 2 ^ 32 := rfl
      omega
    · have hvalue : low.low_reg.toNat ≠ (BitVec.allOnes 32).toNat :=
        fun heq => hlast (BitVec.toNat_inj.mp heq)
      rw [BitVec.toNat_allOnes] at hvalue
      have hbound := low.low_reg.isLt
      rw [decide_eq_false hlast, Bool.toNat_false, BitVec.toNat_add]
      simp only [BitVec.toNat_ofNat]
      omega

/-- The low register over one cycle: what comes in is taken, held, carried or lost. -/
theorem low_step (t : Traffic) {s : Regs} (hread : ReadConsistent s) (i : Input)
    (hrunning : (t.read_to_clear s).high.overflow_bit = false) :
    taken ⟨s, i⟩ t.low_reg +
        held (machine.step s i) t.low_reg (t.read_to_clear (machine.step s i)).low.low_reg +
        2 ^ 32 * ((t.read_to_clear (machine.step s i)).low.carry_bit.toNat +
          (t.pending_wrap (machine.step s i)).toNat) + lost_low t ⟨s, i⟩ =
      held s t.low_reg (t.read_to_clear s).low.low_reg + (t.pkt_recved i).toNat +
        2 ^ 32 * (t.pending_wrap s).toNat := by
  have hnext := hread.being_read_next i t.low_reg
  have hlow := t.low_clock i hrunning
  cases haccepts : accepts_read ⟨s, i⟩ t.low_reg with
  | true =>
    -- The value before a packet of this cycle is on its way to the master.
    have hbefore := hread.free haccepts t.low_reg
    have hafter : being_read (machine.step s i) t.low_reg = true := by
      rw [hnext, haccepts, Bool.true_or]
    have hdata := hread.rdata_accepted haccepts
    rw [read_low] at hdata
    rw [hbefore] at hlow
    simp only [taken, held, Traffic.pending_wrap, lost_low, haccepts, hbefore, hafter, hdata, hlow,
      Bool.false_and, Bool.false_eq_true, if_true, if_false, Bool.not_true, Bool.not_false,
      Bool.and_false, Bool.and_true, Bool.toNat_false]
    cases hpkt : t.pkt_recved i with
    | false => simp [CounterLow.clock]
    | true =>
      have hcarry : ((t.read_to_clear s).low.clock false false true).carry_bit =
          (t.read_to_clear s).low.wrapped := rfl
      rw [hcarry]
      simp only [if_true, Bool.toNat_true]
      omega
  | false =>
    cases hreading : being_read s t.low_reg with
    | true =>
      have hdata := hread.rdata_kept i hreading
      have hcleared : (t.read_to_clear (machine.step s i)).low.low_reg.toNat =
          (t.pkt_recved i).toNat ∧ (t.read_to_clear (machine.step s i)).low.carry_bit = false ∧
          (t.read_to_clear (machine.step s i)).low.wrapped = false := by
        rw [hlow, hreading]
        cases t.pkt_recved i <;> simp [CounterLow.clock, CounterLow.wrapped]
      obtain ⟨hreg, hcarry, hwrapped⟩ := hcleared
      have hafter : being_read (machine.step s i) t.low_reg = !i.s_axil_reg_rready := by
        rw [hnext, haccepts, hreading, Bool.false_or, Bool.true_and]
      cases hrready : i.s_axil_reg_rready <;>
        simp [taken, held, Traffic.pending_wrap, lost_low, haccepts, hreading, hafter, hrready, hdata,
          hreg, hcarry, hwrapped]
    | false =>
      have hafter : being_read (machine.step s i) t.low_reg = false := by
        rw [hnext, haccepts, hreading]
        rfl
      have hcounts := (t.read_to_clear s).low.clock_counts (t.pkt_recved i)
      rw [hreading] at hlow
      rw [← hlow] at hcounts
      simpa [taken, held, Traffic.pending_wrap, lost_low, haccepts, hreading, hafter] using hcounts

/-- A high register that runs has room for a carry. -/
def HighRoom (high : CounterHigh) : Prop :=
  high.overflow_bit = false → high.high_reg.toNat ≤ 2 ^ 31

/-- As long as the counter runs the high register counts the carries. -/
theorem HighRoom.clock {high : CounterHigh} (hroom : HighRoom high)
    (hrunning : high.overflow_bit = false) (cleared carry_bit : Bool) :
    HighRoom (high.clock cleared carry_bit) ∧ (high.clock cleared carry_bit).high_reg.toNat =
      if cleared then 0 else high.high_reg.toNat + carry_bit.toNat := by
  have hbound := hroom hrunning
  cases cleared with
  | true => simp [HighRoom, CounterHigh.clock, hrunning]
  | false =>
    have hvalue : (high.clock false carry_bit).high_reg.toNat =
        high.high_reg.toNat + carry_bit.toNat := by
      cases carry_bit with
      | false => simp [CounterHigh.clock, hrunning]
      | true =>
        simp only [CounterHigh.clock, hrunning, Bool.not_false, if_true, Bool.false_eq_true, if_false,
          BitVec.toNat_add, BitVec.toNat_ofNat, Bool.toNat_true]
        omega
    refine ⟨fun hnext => ?_, by simpa using hvalue⟩
    have hmsb : high.high_reg.msb = false := by
      simpa [CounterHigh.clock, hrunning] using hnext
    rw [BitVec.msb_eq_decide, decide_eq_false_iff_not] at hmsb
    have hone := carry_bit.toNat_le
    omega

/-- The high register over one cycle. -/
theorem high_step (t : Traffic) {s : Regs} (hread : ReadConsistent s) (i : Input)
    (hrunning : (t.read_to_clear s).high.overflow_bit = false)
    (hroom : HighRoom (t.read_to_clear s).high) :
    taken ⟨s, i⟩ t.high_reg +
        held (machine.step s i) t.high_reg (t.read_to_clear (machine.step s i)).high.high_reg +
        lost_high t ⟨s, i⟩ =
      held s t.high_reg (t.read_to_clear s).high.high_reg +
        (t.read_to_clear s).low.carry_bit.toNat := by
  have hnext := hread.being_read_next i t.high_reg
  have hhigh : (t.read_to_clear (machine.step s i)).high.high_reg.toNat =
      if being_read s t.high_reg then 0
      else (t.read_to_clear s).high.high_reg.toNat + (t.read_to_clear s).low.carry_bit.toNat := by
    rw [read_to_clear_step]
    exact (hroom.clock hrunning _ _).2
  cases haccepts : accepts_read ⟨s, i⟩ t.high_reg with
  | true =>
    have hbefore := hread.free haccepts t.high_reg
    have hafter : being_read (machine.step s i) t.high_reg = true := by
      rw [hnext, haccepts, Bool.true_or]
    have hdata := hread.rdata_accepted haccepts
    rw [read_high] at hdata
    simp [taken, held, lost_high, haccepts, hbefore, hafter, hdata]
  | false =>
    cases hreading : being_read s t.high_reg with
    | true =>
      have hdata := hread.rdata_kept i hreading
      have hafter : being_read (machine.step s i) t.high_reg = !i.s_axil_reg_rready := by
        rw [hnext, haccepts, hreading, Bool.false_or, Bool.true_and]
      rw [hreading, if_pos rfl] at hhigh
      cases hrready : i.s_axil_reg_rready <;>
        simp [taken, held, lost_high, haccepts, hreading, hafter, hrready, hdata, hhigh]
    | false =>
      have hafter : being_read (machine.step s i) t.high_reg = false := by
        rw [hnext, haccepts, hreading]
        rfl
      rw [hreading] at hhigh
      simpa [taken, held, lost_high, haccepts, hreading, hafter] using hhigh

/-- The counters of a run that have not overflown before its last cycle. -/
def Running (t : Traffic) (h : List (Cycle Regs Input)) : Prop :=
  ∀ c ∈ h, (t.read_to_clear c.state).high.overflow_bit = false

/-- What holds in every run, with the packets that have been lost so far. -/
structure PacketLedger (t : Traffic) (h : List (Cycle Regs Input)) (s : Regs) : Prop where
  read : ReadConsistent s
  room : HighRoom (t.read_to_clear s).high
  balance : returned t.low_reg h + 2 ^ 32 * returned t.high_reg h +
      held s t.low_reg (t.read_to_clear s).low.low_reg +
      2 ^ 32 * held s t.high_reg (t.read_to_clear s).high.high_reg +
      2 ^ 32 * ((t.read_to_clear s).low.carry_bit.toNat + (t.pending_wrap s).toNat) +
      (h.map (lost t)).sum = t.pulses h

/-- One cycle adds its packet, or loses it. -/
theorem PacketLedger.step {t : Traffic} {h : List (Cycle Regs Input)} {s : Regs}
    (hledger : PacketLedger t h s) (i : Input)
    (hrunning : (t.read_to_clear s).high.overflow_bit = false) :
    PacketLedger t (h ++ [⟨s, i⟩]) (machine.step s i) := by
  obtain ⟨hread, hroom, hbalance⟩ := hledger
  refine ⟨hread.step i, ?_, ?_⟩
  · rw [read_to_clear_step]
    exact (hroom.clock hrunning _ _).1
  · have hlow := low_step t hread i hrunning
    have hhigh := high_step t hread i hrunning hroom
    have hpulses : t.pulses (h ++ [⟨s, i⟩]) = t.pulses h + (t.pkt_recved i).toNat := by
      cases hpkt : t.pkt_recved i <;> simp [Traffic.pulses, hpkt]
    rw [returned_snoc, returned_snoc, List.map_append, List.sum_append, hpulses]
    simp only [List.map_cons, List.map_nil, List.sum_cons, List.sum_nil, lost]
    omega

/-- In every run each packet is in a register, has been returned, or is lost. -/
theorem packet_ledger (t : Traffic) (inputs : List Input)
    (hrunning : Running t (machine.trace inputs)) :
    PacketLedger t (machine.trace inputs) (machine.run inputs) := by
  apply machine.history_induction (Running t) (PacketLedger t) _ _ _ inputs hrunning
  · exact fun h c hall d hd => hall d (List.mem_append_left _ hd)
  · refine ⟨.idle rfl rfl rfl, ?_, ?_⟩
    · cases t <;> simp [HighRoom, Traffic.read_to_clear, machine, Counter.zero]
    · cases t <;> rfl
  · exact fun h s i hall hledger => hledger.step i (hall ⟨s, i⟩ (by simp))

/-- A counter that runs to the end has been running before. -/
theorem Running.initial {t : Traffic} {earlier inputs : List Input}
    (hrunning : Running t (machine.trace inputs)) (hinitial : earlier <+: inputs) :
    Running t (machine.trace earlier) :=
  fun c hc => hrunning c ((machine.trace_initial hinitial).subset hc)

/-- All packets are accounted for later exactly when none has been lost. -/
theorem PacketLedger.accounted_later_iff {t : Traffic} {inputs : List Input}
    (hledger : PacketLedger t (machine.trace inputs) (machine.run inputs)) :
    PacketsAccountedLater t inputs ↔ ((machine.trace inputs).map (lost t)).sum = 0 := by
  have hbalance := hledger.balance
  unfold PacketsAccountedLater Traffic.total
  omega

/-- They are accounted for now when besides no carry is pending. -/
theorem PacketLedger.accounted_iff {t : Traffic} {inputs : List Input}
    (hledger : PacketLedger t (machine.trace inputs) (machine.run inputs)) :
    PacketsAccounted t inputs ↔
      PacketsAccountedLater t inputs ∧ t.pending_wrap (machine.run inputs) = false := by
  have hbalance := hledger.balance
  have hpending : t.pending_wrap (machine.run inputs) = false ↔
      (t.pending_wrap (machine.run inputs)).toNat = 0 := by
    cases t.pending_wrap (machine.run inputs) <;> decide
  rw [hpending]
  unfold PacketsAccounted PacketsAccountedLater Traffic.total
  omega

/-- Nothing is ever missing exactly when no cycle loses anything. -/
theorem accounted_later_throughout_iff (t : Traffic) (inputs : List Input)
    (hrunning : Running t (machine.trace inputs)) :
    (∀ earlier, earlier <+: inputs → PacketsAccountedLater t earlier) ↔
      ∀ c ∈ machine.trace inputs, Lossless t c := by
  have hsum : ∀ earlier, earlier <+: inputs →
      (PacketsAccountedLater t earlier ↔ ((machine.trace earlier).map (lost t)).sum = 0) :=
    fun earlier hinitial => (packet_ledger t earlier (hrunning.initial hinitial)).accounted_later_iff
  constructor
  · intro haccounted c hc
    have hzero := (hsum inputs (List.prefix_refl _)).mp (haccounted inputs (List.prefix_refl _))
    rw [← lost_eq_zero_iff]
    exact List.sum_eq_zero_iff_forall_eq_nat.mp hzero _ (List.mem_map_of_mem hc)
  · intro hlossless earlier hinitial
    rw [hsum earlier hinitial, List.sum_eq_zero_iff_forall_eq_nat]
    intro n hn
    obtain ⟨c, hc, rfl⟩ := List.mem_map.mp hn
    exact (lost_eq_zero_iff t c).mpr (hlossless c ((machine.trace_initial hinitial).subset hc))

/-- When nothing is lost, only a packet that the low register cannot count leaves a wrap
pending. -/
theorem pending_wrap_step (t : Traffic) {s : Regs} {i : Input} (hread : ReadConsistent s)
    (hrunning : (t.read_to_clear s).high.overflow_bit = false) (hlossless : Lossless t ⟨s, i⟩)
    (hnone : t.pending_wrap s = false) :
    t.pending_wrap (machine.step s i) = false ↔ NoWrap t ⟨s, i⟩ := by
  have hnext := hread.being_read_next i t.low_reg
  have hlow := t.low_clock i hrunning
  cases haccepts : accepts_read ⟨s, i⟩ t.low_reg with
  | true =>
    have hpkt : t.pkt_recved i = false := (hlossless.accepted haccepts).1
    simp [Traffic.pending_wrap, NoWrap, hnext, haccepts, hpkt]
  | false =>
    cases hreading : being_read s t.low_reg with
    | true =>
      have hwrapped : (t.read_to_clear (machine.step s i)).low.wrapped = false := by
        rw [hlow, hreading]
        cases t.pkt_recved i <;> simp [CounterLow.clock, CounterLow.wrapped]
      simp [Traffic.pending_wrap, NoWrap, hwrapped, hreading]
    | false =>
      rw [hreading] at hlow
      rw [Traffic.pending_wrap, hlow, hnext, haccepts, hreading]
      cases hpkt : t.pkt_recved i with
      | false =>
        have hwrapped : ((t.read_to_clear s).low.clock false false false).wrapped = false := by
          have hsame : ((t.read_to_clear s).low.clock false false false).wrapped =
            (t.read_to_clear s).low.wrapped := rfl
          simpa [Traffic.pending_wrap, hreading, hsame] using hnone
        simp [NoWrap, hpkt, hwrapped]
      | true => simp [NoWrap, hpkt, hreading, CounterLow.wrapped_packet]

/-- No carry is pending at any time exactly when no packet wraps the low register. -/
theorem no_pending_wrap_iff (t : Traffic) (inputs : List Input)
    (hrunning : Running t (machine.trace inputs))
    (hlossless : ∀ c ∈ machine.trace inputs, Lossless t c) :
    (∀ earlier, earlier <+: inputs → t.pending_wrap (machine.run earlier) = false) ↔
      ∀ c ∈ machine.trace inputs, NoWrap t c := by
  apply machine.condition_exact (fun s => ReadConsistent s ∧ t.pending_wrap s = false)
    (fun s => t.pending_wrap s = false) (NoWrap t)
  · refine ⟨.idle rfl rfl rfl, ?_⟩
    cases t <;> rfl
  · exact fun s hgood => hgood.2
  · intro s i hc ⟨hread, hnone⟩
    have hiff := pending_wrap_step t hread (hrunning _ hc) (hlossless _ hc) hnone
    exact ⟨hiff, fun hnowrap => ⟨hread.step i, hiff.mpr hnowrap⟩⟩

/-- When the packets are accounted for throughout a run: when no cycle loses any and the
low register never wraps. Without wraps left out, one carry may wait for a packet. -/
theorem reads_lose_no_packet_iff (t : Traffic) (inputs : List Input)
    (hrunning : Running t (machine.trace inputs)) :
    ((∀ earlier, earlier <+: inputs → PacketsAccounted t earlier) ↔
      ∀ c ∈ machine.trace inputs, Lossless t c ∧ NoWrap t c) ∧
    ((∀ earlier, earlier <+: inputs → PacketsAccountedLater t earlier) ↔
      ∀ c ∈ machine.trace inputs, Lossless t c) := by
  have hlater := accounted_later_throughout_iff t inputs hrunning
  refine ⟨?_, hlater⟩
  have hsplit : ∀ earlier, earlier <+: inputs → (PacketsAccounted t earlier ↔
      PacketsAccountedLater t earlier ∧ t.pending_wrap (machine.run earlier) = false) :=
    fun earlier hinitial => (packet_ledger t earlier (hrunning.initial hinitial)).accounted_iff
  constructor
  · intro haccounted
    have hlossless := hlater.mp fun earlier hinitial =>
      ((hsplit earlier hinitial).mp (haccounted earlier hinitial)).1
    have hnowrap := (no_pending_wrap_iff t inputs hrunning hlossless).mp fun earlier hinitial =>
      ((hsplit earlier hinitial).mp (haccounted earlier hinitial)).2
    exact fun c hc => ⟨hlossless c hc, hnowrap c hc⟩
  · intro hconditions earlier hinitial
    have hlossless : ∀ c ∈ machine.trace inputs, Lossless t c := fun c hc => (hconditions c hc).1
    exact (hsplit earlier hinitial).mpr ⟨hlater.mpr hlossless earlier hinitial,
      (no_pending_wrap_iff t inputs hrunning hlossless).mpr (fun c hc => (hconditions c hc).2)
        earlier hinitial⟩

/-- A cycle with a request for the low register on the read channels. -/
def read_cycle (arvalid rready roce_pkt_recved : Bool) : Input :=
  { idle_cycle roce_pkt_recved with
    s_axil_reg_arvalid := arvalid
    s_axil_reg_araddr := TRROCE_LOW_REG
    s_axil_reg_rready := rready }

/-- Packets before a read and while its response is taken. -/
def read_between_packets : List Input :=
  [read_cycle false false true, read_cycle true false false, read_cycle false false false,
    read_cycle false true true]

theorem read_between_packets_accounted : PacketsAccounted .roce read_between_packets := by
  have hrunning : Running .roce (machine.trace read_between_packets) := by
    unfold Running
    decide
  refine (reads_lose_no_packet_iff .roce read_between_packets hrunning).1.mpr ?_ _ (List.prefix_refl _)
  simp only [← lost_eq_zero_iff, NoWrap]
  decide

/-- A packet in the cycle in which a read is accepted. -/
def read_with_packet : List Input := [read_cycle true true true, read_cycle false true false]

/-- It is neither returned nor held. -/
theorem read_loses_packet : Running .roce (machine.trace read_with_packet) ∧
    ¬PacketsAccounted .roce read_with_packet := by
  unfold Running PacketsAccounted
  decide

end reconic.rn_reg_control
