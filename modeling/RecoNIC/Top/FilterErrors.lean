import RecoNIC.PacketFilter.Overload
import RecoNIC.Top.Reconic

open clocked
open reconic.rn_reg_control (FATAL_ERR read_data accepts_read)

namespace reconic.top

/-- The two data FIFOs of the packet filter, in the order of their error bits. -/
inductive DataFifo where
  | non_rdma
  | rdma
  deriving DecidableEq

def DataFifo.index : DataFifo → Nat
  | .non_rdma => 0
  | .rdma => 1

/-- A beat is written to the FIFO while it is full. -/
def DataFifo.overflows : DataFifo → Cycle packet_filter.Regs packet_filter.Input → Bool
  | .non_rdma => packet_filter.nonRoceOverflow
  | .rdma => packet_filter.roceOverflow

theorem pkt_filter_err_sticky (s : packet_filter.Regs) (i : packet_filter.Input) {bit : Nat}
    (hset : s.pkt_filter_err.getLsbD bit = true) :
    (packet_filter.machine.step s i).pkt_filter_err.getLsbD bit = true := by
  simp [packet_filter.machine, packet_filter.pkt_filter_err_next, hset]

/-- The error bit of a FIFO is set from its first overflow on. -/
theorem error_bit_stays (shell : Shell) (fifo : DataFifo) {j later : Nat}
    (hoverflow : fifo.overflows (shell.filter_cycle j) = true) (hle : j ≤ later) :
    (shell.filter_cycle later).state.pkt_filter_err.getLsbD fifo.index = true := by
  obtain ⟨hrdma, hnon⟩ := packet_filter.overflow_reported _ _
    (packet_filter.machine.cycleAt_mem_trace shell.axis j)
  have hnow : (shell.filter_cycle j).state.pkt_filter_err.getLsbD fifo.index = true := by
    cases fifo with
    | non_rdma => exact hnon hoverflow
    | rdma => exact hrdma hoverflow
  exact packet_filter.machine.stateAt_stays (fun s i hset => pkt_filter_err_sticky s i hset)
    shell.axis hnow hle

theorem regs_read_consistent (shell : Shell) (m : Nat) :
    rn_reg_control.ReadConsistent (shell.regs m) :=
  rn_reg_control.machine.stateAt_invariant (.idle rfl rfl rfl) (fun _ i h => h.step i) shell.reg_input m

/-- A read that is accepted in a cycle is answered with the register of that cycle. -/
theorem read_answered (shell : Shell) (m : Nat) {address : BitVec 12}
    (haccepts : accepts_read ⟨shell.regs m, shell.reg_input m⟩ address = true) :
    (shell.regs (m + 1)).read.s_axil_reg_rvalid = true ∧
      (shell.regs (m + 1)).read.s_axil_reg_rdata = read_data (shell.regs m) address := by
  have hread := regs_read_consistent shell m
  have hreading := hread.being_read_next (shell.reg_input m) address
  rw [haccepts, Bool.true_or, rn_reg_control.being_read, Bool.and_eq_true] at hreading
  rw [shell.regs_succ]
  exact ⟨hreading.1, hread.rdata_accepted haccepts⟩

theorem fatal_err_bits (e : Bool) :
    (fatal_err e).getLsbD 0 = e ∧ (fatal_err e).getLsbD 1 = false := by
  cases e <;> decide

/-- The register behind the wires. -/
theorem fatal_err_read_succ (shell : Shell) (m : Nat) :
    (read_data (shell.regs (m + 1)) FATAL_ERR).getLsbD 0 = shell.packet_filter_err m ∧
      (read_data (shell.regs (m + 1)) FATAL_ERR).getLsbD 1 = false := by
  obtain ⟨hzero, hone⟩ := fatal_err_bits (shell.packet_filter_err m)
  have hlow : ∀ bit < 6, (read_data (shell.regs (m + 1)) FATAL_ERR).getLsbD bit =
      (fatal_err (shell.packet_filter_err m)).getLsbD bit := by
    intro bit hbit
    rw [shell.regs_succ]
    change (rn_reg_control.machine.step (shell.regs m) (shell.reg_input m)).fatal_err_reg.getLsbD bit = _
    refine (BitVec.getLsbD_append ..).trans ?_
    simp [hbit, Shell.reg_input]
  exact ⟨(hlow 0 (by omega)).trans hzero, (hlow 1 (by omega)).trans hone⟩

/-- Bit 1 of `FATAL_ERR` is never set. -/
theorem fatal_err_bit_one (shell : Shell) (m : Nat) :
    (read_data (shell.regs m) FATAL_ERR).getLsbD 1 = false := by
  cases m with
  | zero =>
    change (read_data rn_reg_control.machine.reset FATAL_ERR).getLsbD 1 = false
    decide
  | succ m => exact (fatal_err_read_succ shell m).2

/-- The error bit of the non-RDMA FIFO arrives and stays. -/
theorem fatal_err_bit_zero (shell : Shell) {j k m : Nat}
    (hoverflow : DataFifo.non_rdma.overflows (shell.filter_cycle j) = true)
    (hedge : j < shell.clocks.edge k) (hm : DEST_SYNC_FF + k < m) :
    (read_data (shell.regs m) FATAL_ERR).getLsbD 0 = true := by
  obtain ⟨n, rfl⟩ : ∃ n, m = DEST_SYNC_FF + n + 1 := ⟨m - 1 - DEST_SYNC_FF, by omega⟩
  rw [(fatal_err_read_succ shell _).1, Shell.packet_filter_err, Sampling.synchronised_add]
  have hlater : shell.clocks.edge k ≤ shell.clocks.edge n := shell.clocks.increasing.monotone (by omega)
  obtain ⟨before, hbefore⟩ : ∃ before, shell.clocks.edge n = before + 1 :=
    ⟨shell.clocks.edge n - 1, by omega⟩
  rw [hbefore]
  exact error_bit_stays shell .non_rdma hoverflow (by omega)

/-- The register shows the overflow of the non-RDMA FIFO, and not that of the RDMA FIFO. -/
theorem fatal_err_shows_iff (shell : Shell) {fifo : DataFifo} {j k m : Nat}
    (hoverflow : fifo.overflows (shell.filter_cycle j) = true)
    (hedge : j < shell.clocks.edge k) (hm : DEST_SYNC_FF + k < m) :
    (read_data (shell.regs m) FATAL_ERR).getLsbD fifo.index = true ↔ fifo = .non_rdma := by
  cases fifo with
  | non_rdma => exact iff_of_true (fatal_err_bit_zero shell hoverflow hedge hm) rfl
  | rdma =>
    refine iff_of_false ?_ (by decide)
    rw [DataFifo.index, fatal_err_bit_one]
    decide

/-- Which overflow software can see. The sticky bit of an overflown FIFO is set from then
on, and from when it has crossed the clocks `FATAL_ERR` has the bit of the FIFO exactly for the
non-RDMA FIFO. A read of `FATAL_ERR` that is accepted from then on is answered so. -/
theorem overflow_visible_iff (shell : Shell) (fifo : DataFifo) (j : Nat)
    (hoverflow : fifo.overflows (shell.filter_cycle j) = true) :
    (∀ later, j ≤ later →
      (shell.filter_cycle later).state.pkt_filter_err.getLsbD fifo.index = true) ∧
    ((∀ k, j < shell.clocks.edge k → ∀ m, DEST_SYNC_FF + k < m →
        (read_data (shell.regs m) FATAL_ERR).getLsbD fifo.index = true) ↔ fifo = .non_rdma) ∧
    ∀ k, j < shell.clocks.edge k → ∀ m, DEST_SYNC_FF + k < m →
      accepts_read ⟨shell.regs m, shell.reg_input m⟩ FATAL_ERR = true →
        (shell.regs (m + 1)).read.s_axil_reg_rvalid = true ∧
          ((shell.regs (m + 1)).read.s_axil_reg_rdata.getLsbD fifo.index = true ↔
            fifo = .non_rdma) := by
  refine ⟨fun later hle => error_bit_stays shell fifo hoverflow hle, ⟨fun hvisible => ?_, ?_⟩, ?_⟩
  · have hafter : j < shell.clocks.edge (j + 1) := shell.clocks.increasing.le_apply
    have hm : DEST_SYNC_FF + (j + 1) < DEST_SYNC_FF + (j + 1) + 1 := Nat.lt_succ_self _
    exact (fatal_err_shows_iff shell hoverflow hafter hm).mp (hvisible _ hafter _ hm)
  · exact fun hfifo k hedge m hm => (fatal_err_shows_iff shell hoverflow hedge hm).mpr hfifo
  · intro k hedge m hm haccepts
    obtain ⟨hvalid, hdata⟩ := read_answered shell m haccepts
    rw [hdata]
    exact ⟨hvalid, fatal_err_shows_iff shell hoverflow hedge hm⟩

/-- A RoCE packet of a single beat while no output is ready. -/
def stalled_roce : packet_filter.Input where
  metadata_in := 1
  metadata_in_valid := true
  s_axis_tvalid := true
  s_axis := ⟨0, 0, 0, true⟩
  m_axis_roce_tready := false
  m_axis_non_roce_tready := false

theorem stalled_roce_step (s : packet_filter.Regs) (hidle : s.filter_state = .FILTER_IDLE) :
    (packet_filter.machine.step s stalled_roce).filter_state = .FILTER_IDLE ∧
      (packet_filter.machine.step s stalled_roce).filter_rdma_pkt_fifo.contents =
        s.filter_rdma_pkt_fifo.contents ++ s.filter_rdma_pkt_fifo.accepted [⟨0, 0, 0, true⟩] := by
  have hrdma : packet_filter.metadata_is_rdma stalled_roce.metadata_in = true := by decide +kernel
  have hwrite : packet_filter.writeControl s stalled_roce = ⟨true, true, false, .FILTER_IDLE⟩ := by
    simp only [packet_filter.writeControl, hidle, hrdma, if_true]
    rfl
  have hread : (packet_filter.rdmaReadControl s stalled_roce).rdma_pkt_rd_en = false := by
    cases hcase : s.filter_rd_rdma_state <;>
      simp [packet_filter.rdmaReadControl, stalled_roce, hcase]
  refine ⟨by simp [packet_filter.machine, hwrite], ?_⟩
  simp only [packet_filter.machine, Fifo.clock_contents, packet_filter.rdmaWrite, hwrite, hread,
    if_true, Fifo.kept_false]
  rfl

/-- Such packets fill the RDMA FIFO. -/
theorem stalled_roce_fills (n : Nat) (hn : n ≤ packet_filter.FIFO_WRITE_DEPTH) :
    (packet_filter.machine.stateAt (fun _ => stalled_roce) n).filter_state = .FILTER_IDLE ∧
      (packet_filter.machine.stateAt (fun _ => stalled_roce) n).filter_rdma_pkt_fifo.contents.length =
        n := by
  induction n with
  | zero => exact ⟨rfl, rfl⟩
  | succ n ih =>
    obtain ⟨hidle, hlength⟩ := ih (by omega)
    obtain ⟨hstill, hcontents⟩ := stalled_roce_step _ hidle
    rw [packet_filter.machine.stateAt_succ]
    refine ⟨hstill, ?_⟩
    have hroom : (packet_filter.machine.stateAt (fun _ => stalled_roce) n).filter_rdma_pkt_fifo.contents.length <
        packet_filter.FIFO_WRITE_DEPTH := by omega
    rw [Fifo.accepted_of_not_full _ hroom] at hcontents
    have hnext := congrArg List.length hcontents
    rw [List.length_append, List.length_singleton, hlength] at hnext
    exact hnext

/-- Software that reads `FATAL_ERR` again and again. -/
def polls_fatal_err : rn_reg_control.Input :=
  { rn_reg_control.idle_cycle false with
    s_axil_reg_arvalid := true
    s_axil_reg_araddr := FATAL_ERR
    s_axil_reg_rready := true }

/-- The shell with its RoCE output stalled for ever. -/
def stalled_shell : Shell :=
  ⟨⟨id, strictMono_id⟩, fun _ => stalled_roce, fun _ => polls_fatal_err⟩

theorem stalled_shell_overflows : DataFifo.rdma.overflows
    (stalled_shell.filter_cycle packet_filter.FIFO_WRITE_DEPTH) = true := by
  obtain ⟨hidle, hlength⟩ := stalled_roce_fills packet_filter.FIFO_WRITE_DEPTH le_rfl
  have hrdma : packet_filter.metadata_is_rdma stalled_roce.metadata_in = true := by decide +kernel
  have hvalid : stalled_roce.s_axis_tvalid = true := rfl
  change packet_filter.roceOverflow ⟨packet_filter.machine.stateAt (fun _ => stalled_roce) _,
    stalled_roce⟩ = true
  simp only [packet_filter.roceOverflow, packet_filter.writeControl, hidle, hrdma, hvalid, if_true,
    Bool.true_and, Fifo.full_eq_true, hlength, le_refl]

/-- The sticky bit of the RDMA FIFO is set, and no read of `FATAL_ERR` shows it. -/
theorem rdma_overflow_unseen :
    (∀ later, packet_filter.FIFO_WRITE_DEPTH ≤ later →
      (stalled_shell.filter_cycle later).state.pkt_filter_err.getLsbD DataFifo.rdma.index = true) ∧
    ((∀ k, packet_filter.FIFO_WRITE_DEPTH < stalled_shell.clocks.edge k → ∀ m, DEST_SYNC_FF + k < m →
        (read_data (stalled_shell.regs m) FATAL_ERR).getLsbD DataFifo.rdma.index = true) ↔
      DataFifo.rdma = .non_rdma) ∧
    ∀ k, packet_filter.FIFO_WRITE_DEPTH < stalled_shell.clocks.edge k → ∀ m, DEST_SYNC_FF + k < m →
      accepts_read ⟨stalled_shell.regs m, stalled_shell.reg_input m⟩ FATAL_ERR = true →
        (stalled_shell.regs (m + 1)).read.s_axil_reg_rvalid = true ∧
          ((stalled_shell.regs (m + 1)).read.s_axil_reg_rdata.getLsbD DataFifo.rdma.index = true ↔
            DataFifo.rdma = .non_rdma) :=
  overflow_visible_iff stalled_shell .rdma packet_filter.FIFO_WRITE_DEPTH stalled_shell_overflows

/-- Not every overflow becomes visible. -/
theorem overflow_not_always_visible : ¬∀ (shell : Shell) (fifo : DataFifo) (j : Nat),
    fifo.overflows (shell.filter_cycle j) = true → ∀ k, j < shell.clocks.edge k →
      ∀ m, DEST_SYNC_FF + k < m → (read_data (shell.regs m) FATAL_ERR).getLsbD fifo.index = true := by
  intro hclaim
  have hset := hclaim stalled_shell .rdma _ stalled_shell_overflows
    (packet_filter.FIFO_WRITE_DEPTH + 1) (Nat.lt_succ_self _) _ (Nat.lt_succ_self _)
  rw [DataFifo.index, fatal_err_bit_one] at hset
  cases hset

end reconic.top
