import RecoNIC.Rdma.Configuration

open mmio
open reconic.rdma_buff (RdmaBuff)

namespace reconic.rdma_api

/-- What a call is for: a queue pair, or a protection domain. -/
inductive Target where
  | qp (qpid : BitVec 32)
  | pd (pd_num : BitVec 32)
  deriving DecidableEq

def Target.Valid : Target → Prop
  | .qp qpid => 1 ≤ qpid.toNat ∧ qpid.toNat ≤ 254
  | .pd pd_num => pd_num.toNat < 512

/-- Where the 256 bytes of registers of a queue pair or a protection domain begin. -/
def Target.start : Target → Nat
  | .qp qpid => 0x60200 + 0x100 * (qpid.toNat - 1)
  | .pd pd_num => 0x40000 + 0x100 * pd_num.toNat

def Target.Covers (target : Target) (offset : BitVec 32) : Prop :=
  target.start ≤ offset.toNat ∧ offset.toNat < target.start + 0x100

instance (target : Target) : Decidable target.Valid :=
  match target with
  | .qp _ => inferInstanceAs (Decidable (_ ∧ _))
  | .pd _ => inferInstanceAs (Decidable (_ < _))

instance (target : Target) (offset : BitVec 32) : Decidable (target.Covers offset) :=
  inferInstanceAs (Decidable (_ ∧ _))

/-- The registers of a queue pair lie in its block. -/
theorem qcsr_covered {qpid : BitVec 32} (hvalid : (Target.qp qpid).Valid) (register : Qcsr) :
    (Target.qp qpid).Covers (get_rdma_per_q_config_addr register.address qpid) := by
  obtain ⟨hfirst, hlast⟩ := hvalid
  have hrange : 0x60200 ≤ register.address.toNat ∧ register.address.toNat < 0x60300 := by
    cases register <;> decide
  have hprevious : (qpid - 1#32).toNat = qpid.toNat - 1 := by
    rw [BitVec.toNat_sub, BitVec.toNat_ofNat]
    omega
  simp only [Target.Covers, Target.start, get_rdma_per_q_config_addr, BitVec.toNat_add,
    BitVec.toNat_mul, BitVec.toNat_ofNat, hprevious]
  omega

/-- The registers of a protection domain lie in its block. -/
theorem pdt_covered {pd_num : BitVec 32} (hvalid : (Target.pd pd_num).Valid) (register : Pdt) :
    (Target.pd pd_num).Covers (get_rdma_pd_config_addr register.address pd_num) := by
  have hrange : 0x40000 ≤ register.address.toNat ∧ register.address.toNat < 0x40100 := by
    cases register <;> decide
  simp only [Target.Valid] at hvalid
  simp only [Target.Covers, Target.start, get_rdma_pd_config_addr, BitVec.toNat_add,
    BitVec.toNat_mul, BitVec.toNat_ofNat]
  omega

/-- All blocks lie in the range of the RDMA engine. -/
theorem Target.Covers.in_range {target : Target} {offset : BitVec 32} (hvalid : target.Valid)
    (hcovers : target.Covers offset) : 0x40000 ≤ offset.toNat ∧ offset.toNat ≤ 0x6ffff := by
  cases target with
  | qp qpid =>
    simp only [Target.Valid, Target.Covers, Target.start] at hvalid hcovers
    omega
  | pd pd_num =>
    simp only [Target.Valid, Target.Covers, Target.start] at hvalid hcovers
    omega

/-- No two blocks meet. -/
theorem Target.Covers.unique {target other : Target} {offset : BitVec 32} (hvalid : target.Valid)
    (hother : other.Valid) (hcovers : target.Covers offset) (halso : other.Covers offset) :
    other = target := by
  cases target with
  | qp qpid =>
    cases other with
    | qp qpid' =>
      simp only [Target.Valid, Target.Covers, Target.start] at hvalid hother hcovers halso
      have hsame : qpid' = qpid := BitVec.eq_of_toNat_eq (by omega)
      rw [hsame]
    | pd pd_num =>
      simp only [Target.Valid, Target.Covers, Target.start] at hvalid hother hcovers halso
      omega
  | pd pd_num =>
    cases other with
    | qp qpid =>
      simp only [Target.Valid, Target.Covers, Target.start] at hvalid hother hcovers halso
      omega
    | pd pd_num' =>
      simp only [Target.Valid, Target.Covers, Target.start] at hvalid hother hcovers halso
      have hsame : pd_num' = pd_num := BitVec.eq_of_toNat_eq (by omega)
      rw [hsame]

/-- The global registers lie between the two tables, except for two names of registers
in the first block. -/
theorem gcsr_address (register : Gcsr) :
    register = .STATCURSQPTRi ∨ register = .STATMSN ∨
      0x60000 ≤ register.address.toNat ∧ register.address.toNat < 0x60200 := by
  cases register <;> decide

/-- The only global registers in a block are two in that of the first queue pair. -/
theorem Target.Covers.gcsr {target : Target} {register : Gcsr} (hvalid : target.Valid)
    (hcovers : target.Covers register.address) :
    target = .qp 1 ∧ (register = .STATCURSQPTRi ∨ register = .STATMSN) := by
  obtain hname | hname | hrange := gcsr_address register
  · subst hname
    exact ⟨Target.Covers.unique (by decide) hvalid (by decide) hcovers, .inl rfl⟩
  · subst hname
    exact ⟨Target.Covers.unique (by decide) hvalid (by decide) hcovers, .inr rfl⟩
  · cases target with
    | qp qpid =>
      simp only [Target.Valid, Target.Covers, Target.start] at hvalid hcovers
      omega
    | pd pd_num =>
      simp only [Target.Valid, Target.Covers, Target.start] at hvalid hcovers
      omega

section Writes

variable {rely guar : BitVec 32 → BitVec 32 → Prop} {qpid : BitVec 32}

/-- Waiting for empty queues writes nothing. -/
theorem wait_empty_meets (turns : Nat) : (wait_empty qpid turns).Meets rely guar Inside := by
  induction turns with
  | zero => exact inside_error polling_ne
  | succ turns ih =>
    simp only [wait_empty, meets_read]
    intro rt_value _
    split
    · exact inside_ok ()
    · exact ih

/-- Nor does waiting for completions. -/
theorem wait_drained_meets (turns : Nat) : (wait_drained qpid turns).Meets rely guar Inside := by
  induction turns with
  | zero => exact inside_error exit_ne
  | succ turns ih =>
    simp only [wait_drained, meets_read]
    intro cq_head _ sq_pi _
    split
    · exact inside_ok ()
    · exact ih

/-- `qps_ptr` is in memory: the accesses to it write no register. -/
theorem meets_of_end {α : Type} (outcome : Except Stop α) :
    (Program.of outcome).Meets rely guar fun _ => True :=
  (meets_of outcome).mono (fun _ _ hguar => hguar) fun _ _ => trivial

/-- A look-up before a call writes nothing. -/
theorem meets_of_then {α β : Type} (outcome : Except Stop α) {f : α → Program Stop β}
    (hresult : ∀ result, (f result).Meets rely guar fun _ => True) :
    (Program.of outcome >>= f).Meets rely guar fun _ => True :=
  (meets_of_end outcome).then hresult

section QueuePair

variable (hqcsr : ∀ (register : Qcsr) (value : BitVec 32),
  guar (get_rdma_per_q_config_addr register.address qpid) value)
include hqcsr

/-- `config_last_rq_psn` writes in the block of its queue pair. -/
theorem config_last_rq_psn_meets (rdma_dev : RdmaDev) (last_rq_psn : BitVec 32) :
    (rdma_dev.config_last_rq_psn qpid last_rq_psn).Meets rely guar fun _ => True := by
  simp only [RdmaDev.config_last_rq_psn, meets_write]
  exact ⟨hqcsr .., meets_of_then _ fun qp => meets_of_end _⟩

/-- So does `config_sq_psn`. -/
theorem config_sq_psn_meets (rdma_dev : RdmaDev) (sq_psn : BitVec 32) :
    (rdma_dev.config_sq_psn qpid sq_psn).Meets rely guar fun _ => True := by
  simp only [RdmaDev.config_sq_psn, meets_write]
  exact ⟨hqcsr .., meets_of_then _ fun qp => meets_of_end _⟩

/-- So does the configuration of a new queue pair. -/
theorem configure_qp_meets {post : Except Stop Unit → Prop} (hpost : post (.ok ()))
    (rdma_dev : RdmaDev) (qp : QueuePair) {request : QpRequest} (hqpid : request.qpid = qpid) :
    (rdma_dev.configure_qp qp request).Meets rely guar post := by
  simp only [RdmaDev.configure_qp, hqpid, meets_write, meets_last_write, hqcsr, hpost, and_self]

/-- So does `allocate_rdma_qp`. -/
theorem allocate_rdma_qp_meets (get_buffer_paddr : BitVec 64 → BitVec 64) (rdma_dev : RdmaDev)
    {request : QpRequest} (hqpid : request.qpid = qpid) :
    (rdma_dev.allocate_rdma_qp get_buffer_paddr request).Meets rely guar fun _ => True := by
  apply meets_of_then
  intro ⟨qp, rdma_dev⟩
  dsimp only
  split
  · trivial
  · exact (configure_qp_meets hqcsr trivial rdma_dev qp hqpid).then fun _ => trivial

/-- So does posting. -/
theorem post_meets (rdma_dev : RdmaDev) (qp : QueuePair) (effect : Effect) :
    (rdma_dev.post qpid qp effect).Meets rely guar fun _ => True := by
  simp only [RdmaDev.post]
  split
  · trivial
  · refine ⟨hqcsr .., ?_⟩
    split
    · trivial
    · exact meets_of_then _ fun _ => trivial

/-- So does `rdma_release_rq_consumed`. -/
theorem rdma_release_rq_consumed_meets {qp : QueuePair} (hqpid : qp.qpid = qpid) :
    qp.rdma_release_rq_consumed.Meets rely guar fun _ => True := by
  simp only [QueuePair.rdma_release_rq_consumed, hqpid, meets_read, meets_write]
  exact fun _ _ => ⟨hqcsr .., trivial⟩

/-- `rdma_qp_fatal_recovery` writes in the block of its queue pair. -/
theorem rdma_qp_fatal_recovery_meets (turns : Nat) :
    (rdma_qp_fatal_recovery turns qpid).Meets rely guar Inside := by
  refine (wait_empty_meets turns).bind (fun _ _ => ?_) fun _ hstop => hstop
  refine (wait_drained_meets 100001).bind (fun _ _ => ?_) fun _ hstop => hstop
  simp only [meets_read, meets_write, hqcsr, true_and]
  exact fun _ _ _ _ _ _ => inside_ok ()

/-- Checking the status writes nothing. -/
theorem check_status_meets (turns : Nat) {qp : QueuePair} (hqpid : qp.qpid = qpid) :
    (qp.check_status turns).Meets rely guar Inside := by
  have hrecovery : (rdma_qp_fatal_recovery turns qpid).Meets rely guar Inside :=
    rdma_qp_fatal_recovery_meets hqcsr turns
  simp only [QueuePair.check_status, hqpid, meets_read]
  intro rt_value _
  have hfirst : (if ¬(rt_value &&& 0x000000ff#32 = 0 ∧
      (rt_value >>> 9) &&& 0x00000003#32 = 0x3#32) then rdma_qp_fatal_recovery turns qpid
      else pure ()).Meets rely guar Inside := by
    split
    · exact hrecovery
    · exact inside_ok ()
  refine hfirst.bind (fun _ _ => ?_) fun _ hstop => hstop
  simp only [meets_read]
  intro cq_head _ sq_pi _
  split
  · exact hrecovery
  · exact inside_ok ()

/-- Besides the registers of the queue pair, XRNICADCONF is read and written twice. -/
theorem reset_registers_meets {qp : QueuePair} (hqpid : qp.qpid = qpid)
    (hset : ∀ value, rely Gcsr.XRNICADCONF.address value →
      guar Gcsr.XRNICADCONF.address (value ||| 0x00000001#32))
    (hclear : ∀ value, rely Gcsr.XRNICADCONF.address value →
      guar Gcsr.XRNICADCONF.address (value &&& 0xfffffffe#32)) :
    qp.reset_registers.Meets rely guar Inside := by
  simp only [QueuePair.reset_registers, hqpid, meets_read, meets_write, hqcsr, true_and]
  intro value hvalue
  refine ⟨hset value hvalue, fun _ _ _ _ _ _ _ _ value hvalue => ⟨hclear value hvalue, ?_⟩⟩
  exact fun _ _ => inside_ok ()

/-- A call that returns has freed the protection domain too. -/
theorem destroy_rdma_qp_meets (turns : Nat) (freed : List (BitVec 64)) {qp : QueuePair}
    (hqpid : qp.qpid = qpid)
    (hset : ∀ value, rely Gcsr.XRNICADCONF.address value →
      guar Gcsr.XRNICADCONF.address (value ||| 0x00000001#32))
    (hclear : ∀ value, rely Gcsr.XRNICADCONF.address value →
      guar Gcsr.XRNICADCONF.address (value &&& 0xfffffffe#32)) :
    (qp.destroy_rdma_qp turns freed).Meets rely guar
      (Ends fun freed' => destroy_rdma_pd_entry freed qp.pd_entry = .ok freed') := by
  refine (check_status_meets hqcsr turns hqpid).bind (fun _ _ => ?_)
    fun _ hstop houtside => hstop (congrArg Except.error houtside)
  have hreset : qp.reset_registers.Meets rely guar Inside :=
    reset_registers_meets hqcsr hqpid hset hclear
  refine hreset.bind (fun _ _ => ?_)
    fun _ hstop houtside => hstop (congrArg Except.error houtside)
  refine (meets_of _).mono (fun _ _ hguar => hguar) ?_
  rintro outcome rfl
  rcases hfree : destroy_rdma_pd_entry freed qp.pd_entry with stop | freed'
  · exact destroy_rdma_pd_entry_error hfree ▸ double_free_ne
  · exact rfl

end QueuePair

/-- The calls on a queue pair or a protection domain. `destroys` marks `destroy_rdma_qp`. -/
inductive ApiCall : {α : Type} → (target : Target) → (destroys : Bool) → Program Stop α → Prop
  | config_last_rq_psn (rdma_dev : RdmaDev) (qpid last_rq_psn : BitVec 32) :
    ApiCall (.qp qpid) false (rdma_dev.config_last_rq_psn qpid last_rq_psn)
  | config_sq_psn (rdma_dev : RdmaDev) (qpid sq_psn : BitVec 32) :
    ApiCall (.qp qpid) false (rdma_dev.config_sq_psn qpid sq_psn)
  | allocate_rdma_qp (get_buffer_paddr : BitVec 64 → BitVec 64) (rdma_dev : RdmaDev)
    (request : QpRequest) :
    ApiCall (.qp request.qpid) false (rdma_dev.allocate_rdma_qp get_buffer_paddr request)
  | rdma_post_send (rdma_dev : RdmaDev) (qpid : BitVec 32) (reads : List Nat) :
    ApiCall (.qp qpid) false (rdma_dev.rdma_post_send qpid reads)
  | rdma_post_batch_send (rdma_dev : RdmaDev) (qpid batch_size : BitVec 32) (reads : List Nat) :
    ApiCall (.qp qpid) false (rdma_dev.rdma_post_batch_send qpid batch_size reads)
  | rdma_release_rq_consumed (qp : QueuePair) :
    ApiCall (.qp qp.qpid) false qp.rdma_release_rq_consumed
  | rdma_qp_fatal_recovery (turns : Nat) (qpid : BitVec 32) :
    ApiCall (.qp qpid) false (rdma_qp_fatal_recovery turns qpid)
  | destroy_rdma_qp (turns : Nat) (freed : List (BitVec 64)) (qp : QueuePair) :
    ApiCall (.qp qp.qpid) true (qp.destroy_rdma_qp turns freed)
  | allocate_rdma_pd (pd_num : BitVec 32) : ApiCall (.pd pd_num) false (allocate_rdma_pd pd_num)
  | rdma_register_memory_region (rdma_dev : RdmaDev) (rdma_pd : RdmaPd) (r_key : BitVec 32)
    (rdma_buf : RdmaBuff) :
    ApiCall (.pd rdma_pd.pd_num) false (rdma_dev.rdma_register_memory_region rdma_pd r_key rdma_buf)

/-- Every call writes in the block of its target, and a destroying one also the bit of
`XRNICADCONF`. -/
theorem ApiCall.meets {α : Type} {target : Target} {destroys : Bool} {program : Program Stop α}
    (hcall : ApiCall target destroys program) (hvalid : target.Valid)
    (hblock : ∀ offset value, target.Covers offset → guar offset value)
    (hset : destroys = true → ∀ value, rely Gcsr.XRNICADCONF.address value →
      guar Gcsr.XRNICADCONF.address (value ||| 0x00000001#32))
    (hclear : destroys = true → ∀ value, rely Gcsr.XRNICADCONF.address value →
      guar Gcsr.XRNICADCONF.address (value &&& 0xfffffffe#32)) :
    program.Meets rely guar fun _ => True := by
  have hqcsr : ∀ qpid, target = .qp qpid → ∀ (register : Qcsr) value,
      guar (get_rdma_per_q_config_addr register.address qpid) value := by
    intro qpid htarget register value
    subst htarget
    exact hblock _ _ (qcsr_covered hvalid register)
  have hpdt : ∀ pd_num, target = .pd pd_num → ∀ (register : Pdt) value,
      guar (get_rdma_pd_config_addr register.address pd_num) value := by
    intro pd_num htarget register value
    subst htarget
    exact hblock _ _ (pdt_covered hvalid register)
  cases hcall with
  | config_last_rq_psn rdma_dev qpid last_rq_psn =>
    exact config_last_rq_psn_meets (hqcsr qpid rfl) rdma_dev last_rq_psn
  | config_sq_psn rdma_dev qpid sq_psn =>
    exact config_sq_psn_meets (hqcsr qpid rfl) rdma_dev sq_psn
  | allocate_rdma_qp get_buffer_paddr rdma_dev request =>
    exact allocate_rdma_qp_meets (hqcsr request.qpid rfl) get_buffer_paddr rdma_dev rfl
  | rdma_post_send rdma_dev qpid reads =>
    exact meets_of_then _ fun qp => post_meets (hqcsr qpid rfl) rdma_dev qp _
  | rdma_post_batch_send rdma_dev qpid batch_size reads =>
    exact meets_of_then _ fun qp => post_meets (hqcsr qpid rfl) rdma_dev qp _
  | rdma_release_rq_consumed qp => exact rdma_release_rq_consumed_meets (hqcsr qp.qpid rfl) rfl
  | rdma_qp_fatal_recovery turns qpid =>
    have hmeets : (rdma_api.rdma_qp_fatal_recovery turns qpid).Meets rely guar Inside :=
      rdma_qp_fatal_recovery_meets (hqcsr qpid rfl) turns
    exact hmeets.mono (fun _ _ hguar => hguar) fun _ _ => trivial
  | destroy_rdma_qp turns freed qp =>
    have hmeets := destroy_rdma_qp_meets (hqcsr qp.qpid rfl) turns freed rfl (hset rfl) (hclear rfl)
    exact hmeets.mono (fun _ _ hguar => hguar) fun _ _ => trivial
  | allocate_rdma_pd pd_num => exact ⟨hpdt pd_num rfl _ _, trivial⟩
  | rdma_register_memory_region rdma_dev rdma_pd r_key rdma_buf =>
    have hregisters := hpdt rdma_pd.pd_num rfl
    simp only [RdmaDev.rdma_register_memory_region]
    split
    · trivial
    · simp only [meets_write, meets_last_write, hregisters, and_self]

end Writes

/-- What a call may do. It writes in the block of its target, which meets no other block and
no global register. Of XRNICADCONF it may change the lowest bit. -/
structure Isolated {α : Type} (target : Target) (destroys : Bool) (program : Program Stop α) :
    Prop where
  writes : ∀ hardware time regs, ∀ w ∈ (program.run hardware time regs).writes,
    target.Covers w.1 ∨ destroys = true ∧ w.1 = Gcsr.XRNICADCONF.address
  advanced_conf : ∀ hardware : Nat → Regs → Regs,
    (∀ time regs, hardware time regs Gcsr.XRNICADCONF.address &&& 0xfffffffe#32 =
      regs Gcsr.XRNICADCONF.address &&& 0xfffffffe#32) →
    ∀ time regs, (program.run hardware time regs).regs Gcsr.XRNICADCONF.address &&& 0xfffffffe#32 =
      regs Gcsr.XRNICADCONF.address &&& 0xfffffffe#32
  others : ∀ (hardware : Nat → Regs → Regs) (offset : BitVec 32), ¬target.Covers offset →
    ¬(destroys = true ∧ offset = Gcsr.XRNICADCONF.address) →
    (∀ time regs, hardware time regs offset = regs offset) →
    ∀ time regs, (program.run hardware time regs).regs offset = regs offset
  range : ∀ offset, target.Covers offset → 0x40000 ≤ offset.toNat ∧ offset.toNat ≤ 0x6ffff
  disjoint : ∀ other : Target, other.Valid → other ≠ target →
    ∀ offset, target.Covers offset → ¬other.Covers offset
  global : ∀ register : Gcsr, target.Covers register.address →
    target = .qp 1 ∧ (register = .STATCURSQPTRi ∨ register = .STATMSN)

/-- Setting the bit keeps all others. -/
theorem set_bit_upper (value : BitVec 32) :
    (value ||| 0x00000001#32) &&& 0xfffffffe#32 = value &&& 0xfffffffe#32 := by
  rw [BitVec.and_or_distrib_right]
  exact BitVec.or_zero

/-- Clearing the bit keeps all others. -/
theorem clear_bit_upper (value : BitVec 32) :
    (value &&& 0xfffffffe#32) &&& 0xfffffffe#32 = value &&& 0xfffffffe#32 := by
  rw [BitVec.and_assoc, BitVec.and_self]

/-- In every run a call writes in the block of its target or, when it destroys, `XRNICADCONF`. -/
theorem ApiCall.written {α : Type} {target : Target} {destroys : Bool} {program : Program Stop α}
    (hcall : ApiCall target destroys program) (hvalid : target.Valid) (hardware : Nat → Regs → Regs)
    (time : Nat) (regs : Regs) : ∀ w ∈ (program.run hardware time regs).writes,
      target.Covers w.1 ∨ destroys = true ∧ w.1 = Gcsr.XRNICADCONF.address := by
  have hmeets : program.Meets (fun _ _ => True)
      (fun offset _ => target.Covers offset ∨
        destroys = true ∧ offset = Gcsr.XRNICADCONF.address) fun _ => True := by
    apply hcall.meets hvalid
    · exact fun offset value hcovers => .inl hcovers
    · exact fun hdestroys value _ => .inr ⟨hdestroys, rfl⟩
    · exact fun hdestroys value _ => .inr ⟨hdestroys, rfl⟩
  exact (hmeets.any_run hardware time regs).2

/-- After every run the other bits of `XRNICADCONF` are as before. -/
theorem ApiCall.advanced_conf {α : Type} {target : Target} {destroys : Bool} {program : Program Stop α}
    (hcall : ApiCall target destroys program) (hvalid : target.Valid) {hardware : Nat → Regs → Regs}
    (hhardware : ∀ time regs, hardware time regs Gcsr.XRNICADCONF.address &&& 0xfffffffe#32 =
      regs Gcsr.XRNICADCONF.address &&& 0xfffffffe#32) (time : Nat) (regs : Regs) :
    (program.run hardware time regs).regs Gcsr.XRNICADCONF.address &&& 0xfffffffe#32 =
      regs Gcsr.XRNICADCONF.address &&& 0xfffffffe#32 := by
  let kept (offset value : BitVec 32) : Prop := offset = Gcsr.XRNICADCONF.address →
    value &&& 0xfffffffe#32 = regs Gcsr.XRNICADCONF.address &&& 0xfffffffe#32
  have hmeets : program.Meets kept kept fun _ => True := by
    apply hcall.meets hvalid
    · intro offset value hcovers hsame
      subst hsame
      have hname := (hcovers.gcsr hvalid).2
      exact absurd hname (by decide)
    · exact fun _ value hvalue _ => (set_bit_upper value).trans (hvalue rfl)
    · exact fun _ value hvalue _ => (clear_bit_upper value).trans (hvalue rfl)
  have hkeeps : ∀ time regs, (∀ offset, kept offset (regs offset)) →
      ∀ offset, kept offset (hardware time regs offset) := by
    intro time regs hregs offset hsame
    subst hsame
    exact (hhardware time regs).trans (hregs _ rfl)
  have hinitial : ∀ offset, kept offset (regs offset) := by
    intro offset hsame
    rw [hsame]
  exact (hmeets.run hkeeps (fun _ _ hvalue => hvalue) hinitial).2.2 _ rfl

/-- Queue pairs and protection domains are isolated from each other. -/
theorem calls_isolated {α : Type} {target : Target} {destroys : Bool} {program : Program Stop α}
    (hcall : ApiCall target destroys program) (hvalid : target.Valid) :
    Isolated target destroys program where
  writes := hcall.written hvalid
  advanced_conf _ hhardware := hcall.advanced_conf hvalid hhardware
  others hardware offset hother hconf hhardware time regs := by
    apply Program.run_frame hhardware
    intro w hw hsame
    obtain hcovers | ⟨hdestroys, hadvanced⟩ := hcall.written hvalid hardware time regs w hw
    · exact hother (hsame ▸ hcovers)
    · exact hconf ⟨hdestroys, hsame.symm.trans hadvanced⟩
  range _ hcovers := hcovers.in_range hvalid
  disjoint other hother hne offset hcovers halso := hne (hcovers.unique hvalid hother halso)
  global _ hcovers := hcovers.gcsr hvalid

/-- A queue pair without buffers. -/
def bare_qp (qpid : BitVec 32) : QueuePair where
  qpid := qpid
  pd_entry := 0
  sq := ⟨0, 0, 0⟩
  cq := ⟨0, 0, 0⟩
  rq := ⟨0, 0, 0⟩
  sq_psn := none
  last_rq_psn := none
  send := ⟨0, 0, 0, 0⟩
  receive := ⟨0, 0, 0, 0⟩

/-- The last block, and a call that changes XRNICADCONF. -/
theorem destroy_last_qp_isolated : Isolated (.qp 254) true ((bare_qp 254).destroy_rdma_qp 5 []) :=
  calls_isolated (.destroy_rdma_qp 5 [] (bare_qp 254)) (by decide)

/-- Hardware on which all queue pairs have settled. -/
def settled_hardware (_time : Nat) (regs : Regs) : Regs :=
  Function.update regs 0x60288#32 0x600#32

/-- The block of the first queue pair holds two registers that the header names as global,
and `destroy_rdma_qp` writes them. -/
theorem first_block_global :
    (¬∀ target : Target, target.Valid → ∀ register : Gcsr, ¬target.Covers register.address) ∧
    ¬∀ (target : Target) (destroys : Bool) (program : Program Stop (List (BitVec 64))),
      ApiCall target destroys program → target.Valid → ∀ hardware time regs,
        ∀ w ∈ (program.run hardware time regs).writes, ∀ register : Gcsr, w.1 = register.address →
          destroys = true ∧ register = .XRNICADCONF := by
  constructor
  · intro hclaim
    exact hclaim (.qp 1) (by decide) .STATMSN (by decide)
  · intro hclaim
    have hwrites := hclaim (.qp 1) true _ (.destroy_rdma_qp 0 [] (bare_qp 1)) (by decide)
      settled_hardware 0 (fun _ => 0) (Gcsr.STATMSN.address, 0#32) (by decide) .STATMSN rfl
    exact absurd hwrites.2 (by decide)

end reconic.rdma_api
