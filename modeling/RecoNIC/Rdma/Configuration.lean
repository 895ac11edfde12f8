import RecoNIC.Mmio.Program
import RecoNIC.Rdma.Device
import RecoNIC.Rdma.ReceiveLayout
import RecoNIC.Rdma.RegisterMap

open mmio
open reconic.rdma_buff (RdmaBuff BufLocation RnDev is_device_address allocate_rdma_buffer)

namespace reconic.rdma_api

/-- `mac_addr_t`. -/
structure MacAddr where
  mac_lsb : BitVec 32
  mac_msb : BitVec 32

/-- The halves of an address, low and high, as `config_rdma_global_csr` and `allocate_rdma_qp`
store it in registers. That of a host buffer is masked with the window size. -/
def masked_baseaddr (winSize : WinSize) (address : BitVec 64) : BitVec 32 × BitVec 32 :=
  let lsb := (address &&& 0x00000000ffffffff#64).setWidth 32
  let msb := ((address >>> 32) &&& 0x00000000ffffffff#64).setWidth 32
  if is_device_address address then (lsb, msb)
  else (lsb &&& winSize.win_size_lsb, msb &&& winSize.win_size_msb)

/-- The same in `rdma_register_memory_region`, which masks before it narrows. -/
def masked_dma_addr (winSize : WinSize) (dma_addr : BitVec 64) : BitVec 32 × BitVec 32 :=
  if is_device_address dma_addr then
    ((dma_addr &&& 0x00000000ffffffff#64).setWidth 32,
      ((dma_addr >>> 32) &&& 0x00000000ffffffff#64).setWidth 32)
  else
    ((dma_addr &&& 0x00000000ffffffff#64 &&& winSize.win_size_lsb.setWidth 64).setWidth 32,
      ((dma_addr >>> 32) &&& 0x00000000ffffffff#64 &&& winSize.win_size_msb.setWidth 64).setWidth 32)

/-- `rdma_glb_csr_t`, as far as `config_rdma_global_csr` reads it. -/
structure GlbCsr where
  data_buf_size : BitVec 32
  data_buf_baseaddr : BitVec 64
  ipkt_err_stat_q_size : BitVec 16
  ipkt_err_stat_q_baseaddr : BitVec 64
  err_buf_baseaddr : BitVec 64
  err_buf_size : BitVec 32
  resp_err_pkt_buf_baseaddr : BitVec 64
  resp_err_pkt_buf_size : BitVec 64
  interrupt_enable : BitVec 32
  src_mac : MacAddr
  src_ip : BitVec 32
  xrnic_conf : BitVec 32
  xrnic_advanced_conf : BitVec 32

/-- `rdma_pd_t`. Its other fields are only written. -/
structure RdmaPd where
  pd_num : BitVec 32
  pd_access_type : BitVec 16

/-- The device that `create_rdma_dev` makes, from `rn_dev->axil_ctl`, `rn_dev->num_qp` and
`rn_dev->winSize`. -/
def create_rdma_dev (rn_dev : RnDev) (axil_ctl : BitVec 64) (num_qp : BitVec 8)
    (winSize : WinSize) : RdmaDev where
  rn_dev := rn_dev
  axil_ctl := axil_ctl
  num_qp := num_qp.setWidth 32
  qps_ptr := List.replicate num_qp.toNat none
  winSize := winSize

def RdmaDev.config_rdma_global_csr (rdma_dev : RdmaDev) (global_csr : GlbCsr) :
    Program Stop Unit := do
  let (data_buf_baseaddr_lsb, data_buf_baseaddr_msb) :=
    masked_baseaddr rdma_dev.winSize global_csr.data_buf_baseaddr
  let (ipkt_err_stat_q_baseaddr_lsb, ipkt_err_stat_q_baseaddr_msb) :=
    masked_baseaddr rdma_dev.winSize global_csr.ipkt_err_stat_q_baseaddr
  let (err_buf_baseaddr_lsb, err_buf_baseaddr_msb) :=
    masked_baseaddr rdma_dev.winSize global_csr.err_buf_baseaddr
  let (resp_err_pkt_buf_baseaddr_lsb, resp_err_pkt_buf_baseaddr_msb) :=
    masked_baseaddr rdma_dev.winSize global_csr.resp_err_pkt_buf_baseaddr
  write32_data Gcsr.DATBUFBA.address data_buf_baseaddr_lsb
  write32_data Gcsr.DATBUFBAMSB.address data_buf_baseaddr_msb
  write32_data Gcsr.DATBUFSZ.address global_csr.data_buf_size
  write32_data Gcsr.IPKTERRQBA.address ipkt_err_stat_q_baseaddr_lsb
  write32_data Gcsr.IPKTERRQBAMSB.address ipkt_err_stat_q_baseaddr_msb
  write32_data Gcsr.IPKTERRQSZ.address (global_csr.ipkt_err_stat_q_size.setWidth 32)
  write32_data Gcsr.ERRBUFBA.address err_buf_baseaddr_lsb
  write32_data Gcsr.ERRBUFBAMSB.address err_buf_baseaddr_msb
  write32_data Gcsr.ERRBUFSZ.address global_csr.err_buf_size
  write32_data Gcsr.RESPERRPKTBA.address resp_err_pkt_buf_baseaddr_lsb
  write32_data Gcsr.RESPERRPKTBAMSB.address resp_err_pkt_buf_baseaddr_msb
  write32_data Gcsr.RESPERRSZ.address
    ((global_csr.resp_err_pkt_buf_size &&& 0x00000000ffffffff#64).setWidth 32)
  write32_data Gcsr.RESPERRSZMSB.address
    (((global_csr.resp_err_pkt_buf_size >>> 32) &&& 0x00000000ffffffff#64).setWidth 32)
  write32_data Gcsr.INTEN.address global_csr.interrupt_enable
  write32_data Gcsr.MACXADDLSB.address global_csr.src_mac.mac_lsb
  write32_data Gcsr.MACXADDMSB.address global_csr.src_mac.mac_msb
  write32_data Gcsr.IPV4XADD.address global_csr.src_ip
  write32_data Gcsr.XRNICCONF.address global_csr.xrnic_conf
  write32_data Gcsr.XRNICADCONF.address global_csr.xrnic_advanced_conf

def allocate_rdma_pd (pd_num : BitVec 32) : Program Stop RdmaPd := do
  write32_data (get_rdma_pd_config_addr Pdt.PDPDNUM.address pd_num) pd_num
  return ⟨pd_num, 2#16 &&& 0xffff#16⟩

def RdmaDev.rdma_register_memory_region (rdma_dev : RdmaDev) (rdma_pd : RdmaPd) (r_key : BitVec 32)
    (rdma_buf : RdmaBuff) : Program Stop Unit := do
  let pd_num := rdma_pd.pd_num
  let (dma_addr_lsb, dma_addr_msb) := masked_dma_addr rdma_dev.winSize rdma_buf.dma_addr
  let buffer_size : BitVec 64 := rdma_buf.buf_size.setWidth 64
  let buffer_size_msb : BitVec 16 :=
    (((buffer_size >>> 32) &&& 0x00000000ffffffff#64).setWidth 32).setWidth 16
  if rdma_dev.axil_ctl = 0 then Program.stop .exit
  write32_data (get_rdma_pd_config_addr Pdt.VIRTADDRLSB.address pd_num)
    ((rdma_buf.buffer &&& 0x00000000ffffffff#64).setWidth 32)
  write32_data (get_rdma_pd_config_addr Pdt.VIRTADDRMSB.address pd_num)
    (((rdma_buf.buffer >>> 32) &&& 0x00000000ffffffff#64).setWidth 32)
  write32_data (get_rdma_pd_config_addr Pdt.BUFBASEADDRLSB.address pd_num) dma_addr_lsb
  write32_data (get_rdma_pd_config_addr Pdt.BUFBASEADDRMSB.address pd_num) dma_addr_msb
  write32_data (get_rdma_pd_config_addr Pdt.BUFRKEY.address pd_num) r_key
  write32_data (get_rdma_pd_config_addr Pdt.WRRDBUFLEN.address pd_num) (buffer_size.setWidth 32)
  write32_data (get_rdma_pd_config_addr Pdt.ACCESSDESC.address pd_num)
    ((buffer_size_msb.setWidth 32 <<< 16) ||| rdma_pd.pd_access_type.setWidth 32)

def RdmaDev.config_last_rq_psn (rdma_dev : RdmaDev) (qpid last_rq_psn : BitVec 32) :
    Program Stop RdmaDev := do
  let rq_opcode := 0x0000000a#32
  let rq_conf := ((rq_opcode <<< 24) &&& 0xff000000#32) ||| (last_rq_psn &&& 0x00ffffff#32)
  write32_data (get_rdma_per_q_config_addr Qcsr.LSTRQREQi.address qpid) rq_conf
  let qp ← Program.of (rdma_dev.qp qpid)
  Program.of (rdma_dev.set_qp qpid { qp with last_rq_psn := some last_rq_psn })

def RdmaDev.config_sq_psn (rdma_dev : RdmaDev) (qpid sq_psn : BitVec 32) : Program Stop RdmaDev := do
  write32_data (get_rdma_per_q_config_addr Qcsr.SQPSNi.address qpid) sq_psn
  let qp ← Program.of (rdma_dev.qp qpid)
  Program.of (rdma_dev.set_qp qpid { qp with sq_psn := some sq_psn })

/-- The arguments of `allocate_rdma_qp`, with what the pointer `pd_entry` leads to. -/
structure QpRequest where
  qpid : BitVec 32
  dst_qpid : BitVec 32
  pd_entry : BitVec 64
  pd : RdmaPd
  cq_cidb_addr : BitVec 64
  rq_cidb_addr : BitVec 64
  qdepth : BitVec 32
  buf_location : BufLocation
  dst_mac : MacAddr
  dst_ip : BitVec 32
  partion_key : BitVec 32

/-- The size of a queue of `entry_size` bytes an entry, a `uint32_t`. -/
def RdmaDev.queue_size (rdma_dev : RdmaDev) (qdepth entry_size : BitVec 32) : BitVec 32 :=
  rdma_dev.num_qp * qdepth * entry_size

/-- `allocate_rdma_buffer` on the device below. When it gives no buffer, it has exited. -/
def RdmaDev.allocate_rdma_buffer (get_buffer_paddr : BitVec 64 → BitVec 64) (rdma_dev : RdmaDev)
    (size : BitVec 32) (buf_location : BufLocation) : Except Stop (RdmaBuff × RdmaDev) :=
  match rdma_buff.allocate_rdma_buffer get_buffer_paddr rdma_dev.rn_dev (size.setWidth 64)
      buf_location with
  | none => .error .exit
  | some (buff, rn_dev) => .ok (buff, { rdma_dev with rn_dev := rn_dev })

theorem allocate_rdma_buffer_ok {get_buffer_paddr : BitVec 64 → BitVec 64}
    {rdma_dev rdma_dev' : RdmaDev} {size : BitVec 32} {buf_location : BufLocation} {buff : RdmaBuff}
    (hcall : rdma_dev.allocate_rdma_buffer get_buffer_paddr size buf_location =
      .ok (buff, rdma_dev')) :
    ∃ rn_dev, rdma_buff.allocate_rdma_buffer get_buffer_paddr rdma_dev.rn_dev (size.setWidth 64)
        buf_location = some (buff, rn_dev) ∧ rdma_dev' = { rdma_dev with rn_dev := rn_dev } := by
  rw [RdmaDev.allocate_rdma_buffer] at hcall
  split at hcall
  case h_1 => cases hcall
  case h_2 buff rn_dev hbuff =>
    cases hcall
    exact ⟨rn_dev, hbuff, rfl⟩

/-- The first half of `allocate_rdma_qp`: the queue pair and its buffers. -/
def RdmaDev.create_qp (get_buffer_paddr : BitVec 64 → BitVec 64) (rdma_dev : RdmaDev)
    (request : QpRequest) : Except Stop (QueuePair × RdmaDev) := do
  let (sq, rdma_dev) ← rdma_dev.allocate_rdma_buffer get_buffer_paddr
    (rdma_dev.queue_size request.qdepth 64) request.buf_location
  let (cq, rdma_dev) ← rdma_dev.allocate_rdma_buffer get_buffer_paddr
    (rdma_dev.queue_size request.qdepth 4) request.buf_location
  let (rq, rdma_dev) ← rdma_dev.allocate_rdma_buffer get_buffer_paddr
    (rdma_dev.queue_size request.qdepth (BitVec.ofNat 32 RQE_SIZE)) request.buf_location
  let qp : QueuePair :=
    { qpid := request.qpid
      pd_entry := request.pd_entry
      sq := sq
      cq := cq
      rq := rq
      sq_psn := none
      last_rq_psn := none
      send := ⟨request.qdepth.toNat, 0, 0, 0⟩
      receive := ⟨rq.buffer.toNat, request.qdepth.toNat, 0, 0⟩ }
  let rdma_dev ← rdma_dev.set_qp request.qpid qp
  return (qp, rdma_dev)

/-- A call that returns has allocated three buffers and has stored the queue pair. -/
theorem create_qp_ok {get_buffer_paddr : BitVec 64 → BitVec 64} {rdma_dev rdma_dev' : RdmaDev}
    {request : QpRequest} {qp : QueuePair}
    (hcreate : rdma_dev.create_qp get_buffer_paddr request = .ok (qp, rdma_dev')) :
    ∃ sq_dev cq_dev rq_dev : RdmaDev,
      rdma_dev.allocate_rdma_buffer get_buffer_paddr (rdma_dev.queue_size request.qdepth 64)
        request.buf_location = .ok (qp.sq, sq_dev) ∧
      sq_dev.allocate_rdma_buffer get_buffer_paddr (sq_dev.queue_size request.qdepth 4)
        request.buf_location = .ok (qp.cq, cq_dev) ∧
      cq_dev.allocate_rdma_buffer get_buffer_paddr
        (cq_dev.queue_size request.qdepth (BitVec.ofNat 32 RQE_SIZE))
        request.buf_location = .ok (qp.rq, rq_dev) ∧
      qp.qpid = request.qpid ∧ qp.pd_entry = request.pd_entry ∧
      rq_dev.set_qp request.qpid qp = .ok rdma_dev' := by
  obtain ⟨⟨sq, sq_dev⟩, hsq, hcreate⟩ := bind_ok hcreate
  obtain ⟨⟨cq, cq_dev⟩, hcq, hcreate⟩ := bind_ok hcreate
  obtain ⟨⟨rq, rq_dev⟩, hrq, hcreate⟩ := bind_ok hcreate
  obtain ⟨stored, hset, hcreate⟩ := bind_ok hcreate
  cases hcreate
  exact ⟨sq_dev, cq_dev, rq_dev, hsq, hcq, hrq, rfl, rfl, hset⟩

/-- The second half of `allocate_rdma_qp`: the registers. -/
def RdmaDev.configure_qp (rdma_dev : RdmaDev) (qp : QueuePair) (request : QpRequest) :
    Program Stop Unit := do
  let qpid := request.qpid
  let (cq_cidb_addr_lsb, cq_cidb_addr_msb) := masked_baseaddr rdma_dev.winSize request.cq_cidb_addr
  let (rq_cidb_addr_lsb, rq_cidb_addr_msb) := masked_baseaddr rdma_dev.winSize request.rq_cidb_addr
  let (sq_addr_lsb, sq_addr_msb) := masked_baseaddr rdma_dev.winSize qp.sq.dma_addr
  let (cq_addr_lsb, cq_addr_msb) := masked_baseaddr rdma_dev.winSize qp.cq.dma_addr
  let (rq_addr_lsb, rq_addr_msb) := masked_baseaddr rdma_dev.winSize qp.rq.dma_addr
  let traffic_class := 0#32
  let time_to_live := 64#32
  let qp_adv_conf := ((request.partion_key <<< 16) &&& 0xffff0000#32) |||
    ((time_to_live <<< 8) &&& 0x0000ff00#32) ||| (traffic_class &&& 0x000000ff#32)
  write32_data (get_rdma_per_q_config_addr Qcsr.IPDESADDR1i.address qpid) request.dst_ip
  write32_data (get_rdma_per_q_config_addr Qcsr.MACDESADDLSBi.address qpid) request.dst_mac.mac_lsb
  write32_data (get_rdma_per_q_config_addr Qcsr.MACDESADDMSBi.address qpid) request.dst_mac.mac_msb
  write32_data (get_rdma_per_q_config_addr Qcsr.SQBAi.address qpid) sq_addr_lsb
  write32_data (get_rdma_per_q_config_addr Qcsr.SQBAMSBi.address qpid) sq_addr_msb
  write32_data (get_rdma_per_q_config_addr Qcsr.CQBAi.address qpid) cq_addr_lsb
  write32_data (get_rdma_per_q_config_addr Qcsr.CQBAMSBi.address qpid) cq_addr_msb
  write32_data (get_rdma_per_q_config_addr Qcsr.RQBAi.address qpid) rq_addr_lsb
  write32_data (get_rdma_per_q_config_addr Qcsr.RQBAMSBi.address qpid) rq_addr_msb
  write32_data (get_rdma_per_q_config_addr Qcsr.CQDBADDi.address qpid) cq_cidb_addr_lsb
  write32_data (get_rdma_per_q_config_addr Qcsr.CQDBADDMSBi.address qpid) cq_cidb_addr_msb
  write32_data (get_rdma_per_q_config_addr Qcsr.RQWPTRDBADDi.address qpid) rq_cidb_addr_lsb
  write32_data (get_rdma_per_q_config_addr Qcsr.RQWPTRDBADDMSBi.address qpid) rq_cidb_addr_msb
  write32_data (get_rdma_per_q_config_addr Qcsr.DESTQPCONFi.address qpid) request.dst_qpid
  write32_data (get_rdma_per_q_config_addr Qcsr.QDEPTHi.address qpid)
    (request.qdepth ||| (request.qdepth <<< 16))
  write32_data (get_rdma_per_q_config_addr Qcsr.QPCONFi.address qpid) qp_config
  write32_data (get_rdma_per_q_config_addr Qcsr.QPADVCONFi.address qpid) qp_adv_conf
  write32_data (get_rdma_per_q_config_addr Qcsr.PDi.address qpid) request.pd.pd_num

def RdmaDev.allocate_rdma_qp (get_buffer_paddr : BitVec 64 → BitVec 64) (rdma_dev : RdmaDev)
    (request : QpRequest) : Program Stop (QueuePair × RdmaDev) := do
  let (qp, rdma_dev) ← Program.of (rdma_dev.create_qp get_buffer_paddr request)
  if rdma_dev.axil_ctl = 0 then Program.stop .exit
  rdma_dev.configure_qp qp request
  return (qp, rdma_dev)

/-- What a call on a send queue does: it stops before the doorbell, or rings it and then
polls CQHEAD. -/
def RdmaDev.post (rdma_dev : RdmaDev) (qpid : BitVec 32) (qp : QueuePair) (effect : Effect) :
    Program Stop (Int × RdmaDev) := do
  match effect.doorbell with
  | none => Program.stop .exit
  | some sq_pidb =>
    write32_data (get_rdma_per_q_config_addr Qcsr.SQPIi.address qpid) (BitVec.ofInt 32 sq_pidb)
    match effect.returned with
    | none => Program.stop .polling
    | some (rc, send) =>
      let rdma_dev ← Program.of (rdma_dev.set_qp qpid { qp with send := send })
      return (rc, rdma_dev)

/-- `rdma_post_send`, given the values of CQHEAD that it reads. -/
def RdmaDev.rdma_post_send (rdma_dev : RdmaDev) (qpid : BitVec 32) (reads : List Nat) :
    Program Stop (Int × RdmaDev) := do
  let qp ← Program.of (rdma_dev.qp qpid)
  rdma_dev.post qpid qp (rdma_api.rdma_post_send qp.send reads)

def RdmaDev.rdma_post_batch_send (rdma_dev : RdmaDev) (qpid batch_size : BitVec 32)
    (reads : List Nat) : Program Stop (Int × RdmaDev) := do
  let qp ← Program.of (rdma_dev.qp qpid)
  rdma_dev.post qpid qp (rdma_api.rdma_post_batch_send qp.send batch_size.toNat reads)

/-- `poll_rq_pidb`, given the values of STATRQPIDB that it reads. -/
def RdmaDev.poll_rq_pidb (rdma_dev : RdmaDev) (qpid : BitVec 32) (reads : List Nat) :
    Program Stop (Nat × RdmaDev) := do
  let qp ← Program.of (rdma_dev.qp qpid)
  match rdma_api.poll_rq_pidb qp.receive.rq_pidb reads with
  | none => Program.stop .polling
  | some rq_pidb =>
    let receive := { qp.receive with rq_pidb := rq_pidb }
    let rdma_dev ← Program.of (rdma_dev.set_qp qpid { qp with receive := receive })
    return (rq_pidb, rdma_dev)

/-- `rdma_post_receive` finds the queue pair by its id. -/
def RdmaDev.rdma_post_receive (rdma_dev : RdmaDev) (qp : QueuePair) (reads : List Nat) :
    Program Stop (Nat × RdmaDev) := do
  let (rq_pidb, rdma_dev) ← rdma_dev.poll_rq_pidb qp.qpid reads
  if rq_pidb = 0xffffffff then Program.stop .exit
  return (rqe_address qp.receive rq_pidb, rdma_dev)

def QueuePair.rdma_release_rq_consumed (qp : QueuePair) : Program Stop (Nat × QueuePair) := do
  let rq_pidb ← read32_data (get_rdma_per_q_config_addr Qcsr.STATRQPIDBi.address qp.qpid)
  let (rc, receive, rqci) := rdma_api.rdma_release_rq_consumed qp.receive rq_pidb.toNat
  write32_data (get_rdma_per_q_config_addr Qcsr.RQCIi.address qp.qpid) (BitVec.ofNat 32 rqci)
  return (rc, { qp with receive := receive })

/-- The first loop of `rdma_qp_fatal_recovery`, for as many turns as are given. -/
def wait_empty (qpid : BitVec 32) : Nat → Program Stop Unit
  | 0 => .stop .polling
  | turns + 1 => do
    let rt_value ← read32_data (get_rdma_per_q_config_addr Qcsr.STATQPi.address qpid)
    if (rt_value >>> 9) &&& 0x3#32 ≠ 0 then return ()
    else wait_empty qpid turns

/-- Its second loop, which exits when the counter passes 100000. The two reads for the message
of that exit are left out. -/
def wait_drained (qpid : BitVec 32) : Nat → Program Stop Unit
  | 0 => .stop .exit
  | turns + 1 => do
    let cq_head ← read32_data (get_rdma_per_q_config_addr Qcsr.CQHEADi.address qpid)
    let sq_pi ← read32_data (get_rdma_per_q_config_addr Qcsr.SQPIi.address qpid)
    if cq_head = sq_pi then return ()
    else wait_drained qpid turns

def rdma_qp_fatal_recovery (turns : Nat) (qpid : BitVec 32) : Program Stop Unit := do
  wait_empty qpid turns
  wait_drained qpid 100001
  let rt_value ← read32_data (get_rdma_per_q_config_addr Qcsr.QPCONFi.address qpid)
  write32_data (get_rdma_per_q_config_addr Qcsr.QPCONFi.address qpid) (rt_value &&& ~~~1#32)
  let rt_value ← read32_data (get_rdma_per_q_config_addr Qcsr.QPCONFi.address qpid)
  write32_data (get_rdma_per_q_config_addr Qcsr.QPCONFi.address qpid) (rt_value ||| 0x40#32)
  let _ ← read32_data (get_rdma_per_q_config_addr Qcsr.QPCONFi.address qpid)

/-- The checks of `destroy_rdma_qp`, each of which may recover the queue pair. -/
def QueuePair.check_status (turns : Nat) (qp : QueuePair) : Program Stop Unit := do
  let qpid := qp.qpid
  let rt_value ← read32_data (get_rdma_per_q_config_addr Qcsr.STATQPi.address qpid)
  (if ¬(rt_value &&& 0x000000ff#32 = 0 ∧ (rt_value >>> 9) &&& 0x00000003#32 = 0x3#32) then
    rdma_qp_fatal_recovery turns qpid
  else pure ())
  let cq_head ← read32_data (get_rdma_per_q_config_addr Qcsr.CQHEADi.address qpid)
  let sq_pi ← read32_data (get_rdma_per_q_config_addr Qcsr.SQPIi.address qpid)
  if cq_head ≠ sq_pi then
    rdma_qp_fatal_recovery turns qpid

/-- The other registers of `destroy_rdma_qp`, under software override. -/
def QueuePair.reset_registers (qp : QueuePair) : Program Stop Unit := do
  let qpid := qp.qpid
  let rt_value ← read32_data Gcsr.XRNICADCONF.address
  write32_data Gcsr.XRNICADCONF.address (rt_value ||| 0x00000001#32)
  let rt_value ← read32_data (get_rdma_per_q_config_addr Qcsr.QPCONFi.address qpid)
  write32_data (get_rdma_per_q_config_addr Qcsr.QPCONFi.address qpid) (rt_value &&& 0xfffffffe#32)
  write32_data (get_rdma_per_q_config_addr Qcsr.RQWPTRDBADDi.address qpid) 0
  write32_data (get_rdma_per_q_config_addr Qcsr.SQPIi.address qpid) 0
  write32_data (get_rdma_per_q_config_addr Qcsr.CQHEADi.address qpid) 0
  write32_data (get_rdma_per_q_config_addr Qcsr.RQCIi.address qpid) 0
  write32_data (get_rdma_per_q_config_addr Qcsr.STATRQPIDBi.address qpid) 0
  write32_data (get_rdma_per_q_config_addr Qcsr.STATCURSQPTRi.address qpid) 0
  write32_data (get_rdma_per_q_config_addr Qcsr.SQPSNi.address qpid) 0
  write32_data (get_rdma_per_q_config_addr Qcsr.LSTRQREQi.address qpid) 0
  write32_data (get_rdma_per_q_config_addr Qcsr.STATMSNi.address qpid) 0
  let rt_value ← read32_data (get_rdma_per_q_config_addr Qcsr.QPCONFi.address qpid)
  let _ ← read32_data (get_rdma_per_q_config_addr Qcsr.CQHEADi.address qpid)
  write32_data (get_rdma_per_q_config_addr Qcsr.QPCONFi.address qpid) (rt_value ||| 0x00000040#32)
  let _ ← read32_data (get_rdma_per_q_config_addr Qcsr.CQHEADi.address qpid)
  let rt_value ← read32_data Gcsr.XRNICADCONF.address
  write32_data Gcsr.XRNICADCONF.address (rt_value &&& 0xfffffffe#32)
  let _ ← read32_data (get_rdma_per_q_config_addr Qcsr.CQHEADi.address qpid)

/-- `destroy_rdma_pd_entry`, given the protection domains that have been freed, to which it adds
this one. -/
def destroy_rdma_pd_entry (freed : List (BitVec 64)) (pd : BitVec 64) :
    Except Stop (List (BitVec 64)) :=
  if pd = 0 then .ok freed
  else if pd ∈ freed then .error .double_free
  else .ok (pd :: freed)

theorem destroy_rdma_pd_entry_error {freed : List (BitVec 64)} {pd : BitVec 64} {stop : Stop}
    (hfree : destroy_rdma_pd_entry freed pd = .error stop) : stop = .double_free := by
  rw [destroy_rdma_pd_entry] at hfree
  split at hfree
  · cases hfree
  · split at hfree
    · exact (Except.error.inj hfree).symm
    · cases hfree

/-- `destroy_rdma_qp`. The descriptors of the three queues, which it frees too, belong to this
queue pair alone. -/
def QueuePair.destroy_rdma_qp (turns : Nat) (freed : List (BitVec 64)) (qp : QueuePair) :
    Program Stop (List (BitVec 64)) := do
  qp.check_status turns
  qp.reset_registers
  Program.of (destroy_rdma_pd_entry freed qp.pd_entry)

/-- The loop of `destroy_rdma_dev` from entry `i` on. It gives the ids of the queue pairs that
it has destroyed. -/
def RdmaDev.destroy_loop (turns : Nat) (rdma_dev : RdmaDev) (freed : List (BitVec 64)) (i : Nat) :
    Nat → Program Stop (List (BitVec 32))
  | 0 => pure []
  | more + 1 =>
    match rdma_dev.qps_ptr[i]? with
    | none => Program.stop .out_of_bounds
    | some none => rdma_dev.destroy_loop turns freed (i + 1) more
    | some (some qp) => do
      let freed ← qp.destroy_rdma_qp turns freed
      let qpids ← rdma_dev.destroy_loop turns freed (i + 1) more
      return qp.qpid :: qpids

/-- `destroy_rdma_dev` before any queue pair has been destroyed. -/
def RdmaDev.destroy_rdma_dev (turns : Nat) (rdma_dev : RdmaDev) :
    Program Stop (List (BitVec 32)) := do
  let qpids ← rdma_dev.destroy_loop turns [] 0 rdma_dev.num_qp.toNat
  write32_data Gcsr.XRNICCONF.address 0
  return qpids

end reconic.rdma_api
