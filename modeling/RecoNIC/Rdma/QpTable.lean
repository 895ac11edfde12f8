import RecoNIC.Rdma.Isolation
import RecoNIC.Rdma.WorkQueueEntry

open bits
open mmio
open reconic.memory_api (Answer)
open reconic.rdma_buff (RnDev)

namespace reconic.rdma_api

/-- The calls that index `qps_ptr`. -/
inductive QpCall where
  | allocate_rdma_qp (get_buffer_paddr : BitVec 64 → BitVec 64) (request : QpRequest)
  | config_sq_psn (qpid sq_psn : BitVec 32)
  | config_last_rq_psn (qpid last_rq_psn : BitVec 32)
  | create_a_wqe (heap : Memory) (block : BitVec 64) (answers : Nat → Answer)
    (qpid wqe_idx : BitVec 32) (r : WorkRequest) (s : Memories)
  | rdma_post_send (qpid : BitVec 32) (reads : List Nat)
  | rdma_post_batch_send (qpid batch_size : BitVec 32) (reads : List Nat)
  | poll_rq_pidb (qpid : BitVec 32) (reads : List Nat)
  | rdma_post_receive (qp : QueuePair) (reads : List Nat)

def QpCall.qpid : QpCall → BitVec 32
  | .allocate_rdma_qp _ request => request.qpid
  | .config_sq_psn qpid _ => qpid
  | .config_last_rq_psn qpid _ => qpid
  | .create_a_wqe _ _ _ qpid _ _ _ => qpid
  | .rdma_post_send qpid _ => qpid
  | .rdma_post_batch_send qpid _ _ => qpid
  | .poll_rq_pidb qpid _ => qpid
  | .rdma_post_receive qp _ => qp.qpid

/-- The device after a call. -/
def QpCall.program (rdma_dev : RdmaDev) : QpCall → Program Stop RdmaDev
  | .allocate_rdma_qp get_buffer_paddr request => do
    return (← rdma_dev.allocate_rdma_qp get_buffer_paddr request).2
  | .config_sq_psn qpid sq_psn => rdma_dev.config_sq_psn qpid sq_psn
  | .config_last_rq_psn qpid last_rq_psn => rdma_dev.config_last_rq_psn qpid last_rq_psn
  | .create_a_wqe heap block answers qpid wqe_idx r s => do
    Program.of (rdma_api.create_a_wqe rdma_dev heap block answers qpid wqe_idx r s).1
    return rdma_dev
  | .rdma_post_send qpid reads => do return (← rdma_dev.rdma_post_send qpid reads).2
  | .rdma_post_batch_send qpid batch_size reads => do
    return (← rdma_dev.rdma_post_batch_send qpid batch_size reads).2
  | .poll_rq_pidb qpid reads => do return (← rdma_dev.poll_rq_pidb qpid reads).2
  | .rdma_post_receive qp reads => do return (← rdma_dev.rdma_post_receive qp reads).2

def run_calls (rdma_dev : RdmaDev) : List QpCall → Program Stop RdmaDev
  | [] => pure rdma_dev
  | c :: calls => do
    let rdma_dev ← c.program rdma_dev
    run_calls rdma_dev calls

def QpCall.allocates : QpCall → List (BitVec 32)
  | .allocate_rdma_qp _ request => [request.qpid]
  | _ => []

/-- The protection domains that a call gives to a queue pair. -/
def QpCall.pd_entries : QpCall → List (BitVec 64)
  | .allocate_rdma_qp _ request => [request.pd_entry]
  | _ => []

/-- The call uses an id of `ids`, and a protection domain that `pds` has for it. -/
def QpCall.Uses (ids : Set (BitVec 32)) (pds : BitVec 32 → Set (BitVec 64)) (c : QpCall) : Prop :=
  c.qpid ∈ ids ∧ ∀ pd ∈ c.pd_entries, pd ∈ pds c.qpid

/-- A queue pair with this id, in a protection domain that the id may have. -/
def QueuePair.Belongs (pds : BitVec 32 → Set (BitVec 64)) (qpid : BitVec 32) (qp : QueuePair) :
    Prop :=
  qp.qpid = qpid ∧ qp.pd_entry ∈ pds qpid

/-- The table holds the queue pairs that are allocated, each at its id. -/
structure Table (pds : BitVec 32 → Set (BitVec 64)) (axil_ctl : BitVec 64) (num_qp : Nat)
    (allocated : List (BitVec 32)) (rdma_dev : RdmaDev) : Prop where
  control : rdma_dev.axil_ctl = axil_ctl
  mapped : ∀ qpid ∈ allocated, axil_ctl ≠ 0
  size : rdma_dev.num_qp.toNat = num_qp
  entries : rdma_dev.qps_ptr.length = num_qp
  at_id : ∀ i (qp : QueuePair), rdma_dev.qps_ptr[i]? = some (some qp) → qp.qpid.toNat = i
  owned : ∀ (i : Nat) (qp : QueuePair), rdma_dev.qps_ptr[i]? = some (some qp) → qp.pd_entry ∈ pds qp.qpid
  allocated : ∀ qpid, qpid ∈ allocated ↔ ∃ qp, rdma_dev.qps_ptr[qpid.toNat]? = some (some qp)

section Table

variable {pds : BitVec 32 → Set (BitVec 64)} {axil_ctl : BitVec 64} {num_qp : Nat}
  {allocated : List (BitVec 32)} {rdma_dev : RdmaDev}

/-- `create_rdma_dev` makes an empty table. -/
theorem create_rdma_dev_table (rn_dev : RnDev) (axil_ctl : BitVec 64) (num_qp : BitVec 8)
    (winSize : WinSize) :
    Table pds axil_ctl num_qp.toNat [] (create_rdma_dev rn_dev axil_ctl num_qp winSize) where
  control := rfl
  mapped := fun _ hmem => absurd hmem List.not_mem_nil
  size := by
    have hbound := num_qp.isLt
    simp only [create_rdma_dev, BitVec.toNat_setWidth]
    omega
  entries := List.length_replicate
  at_id := by
    intro i qp hentry
    simp [create_rdma_dev, List.getElem?_replicate] at hentry
  owned := by
    intro i qp hentry
    simp [create_rdma_dev, List.getElem?_replicate] at hentry
  allocated := by
    intro qpid
    simp [create_rdma_dev, List.getElem?_replicate]

/-- The memory of the device is not in the table. -/
theorem Table.other_memory (htable : Table pds axil_ctl num_qp allocated rdma_dev) (rn_dev : RnDev) :
    Table pds axil_ctl num_qp allocated { rdma_dev with rn_dev := rn_dev } :=
  ⟨htable.control, htable.mapped, htable.size, htable.entries, htable.at_id, htable.owned,
    htable.allocated⟩

/-- What has been allocated is a set. -/
theorem Table.mono {allocated' : List (BitVec 32)} (htable : Table pds axil_ctl num_qp allocated rdma_dev)
    (hsame : ∀ qpid, qpid ∈ allocated' ↔ qpid ∈ allocated) : Table pds axil_ctl num_qp allocated' rdma_dev :=
  ⟨htable.control, fun qpid hmem => htable.mapped qpid ((hsame qpid).mp hmem), htable.size,
    htable.entries, htable.at_id, htable.owned,
    fun qpid => (hsame qpid).trans (htable.allocated qpid)⟩

/-- A queue pair is entered at its id. -/
theorem Table.set_qp (htable : Table pds axil_ctl num_qp allocated rdma_dev)
    {qpid : BitVec 32} {qp : QueuePair}
    (hqp : qp.Belongs pds qpid) (hinside : qpid.toNat < num_qp) :
    ∃ rdma_dev', rdma_dev.set_qp qpid qp = .ok rdma_dev' ∧ rdma_dev'.axil_ctl = axil_ctl ∧
      (axil_ctl ≠ 0 → Table pds axil_ctl num_qp (qpid :: allocated) rdma_dev') := by
  have hlength : qpid.toNat < rdma_dev.qps_ptr.length := htable.entries.symm ▸ hinside
  refine ⟨_, if_pos hlength, htable.control, fun hmapped => ⟨htable.control, fun _ _ => hmapped, htable.size,
    (List.length_set ..).trans htable.entries, ?_, ?_, ?_⟩⟩
  · intro i qp' hentry
    rw [List.getElem?_set] at hentry
    split at hentry
    case isTrue hi =>
      cases hentry
      rw [hqp.1, hi]
    case isFalse hi => exact htable.at_id i qp' hentry
  · intro i qp' hentry
    rw [List.getElem?_set] at hentry
    split at hentry
    case isTrue hi =>
      cases hentry
      exact hqp.1.symm ▸ hqp.2
    case isFalse hi => exact htable.owned i qp' hentry
  · intro other
    rw [List.mem_cons, htable.allocated, List.getElem?_set]
    split
    case isTrue hi =>
      have hsame : other = qpid := BitVec.eq_of_toNat_eq hi.symm
      simp [hlength, hsame]
    case isFalse hi =>
      have hne : other ≠ qpid := fun hsame => hi (hsame ▸ rfl)
      simp [hne]

/-- An entry that is set is in the table. -/
theorem Table.of_set_qp (htable : Table pds axil_ctl num_qp allocated rdma_dev) {qpid : BitVec 32}
    {qp : QueuePair} {outcome : Except Stop RdmaDev} (hcall : rdma_dev.set_qp qpid qp = outcome)
    (hqp : qp.Belongs pds qpid) (hinside : qpid.toNat < num_qp) :
    ∃ rdma_dev', outcome = .ok rdma_dev' ∧ rdma_dev'.axil_ctl = axil_ctl ∧
      (axil_ctl ≠ 0 → Table pds axil_ctl num_qp (qpid :: allocated) rdma_dev') := by
  rw [← hcall]
  exact htable.set_qp hqp hinside

/-- The entries below `num_qp` are there: a pointer is found or it is NULL. -/
theorem Table.qp (htable : Table pds axil_ctl num_qp allocated rdma_dev) {qpid : BitVec 32}
    (hinside : qpid.toNat < num_qp) :
    rdma_dev.qp qpid = .error .null_pointer ∨
      ∃ qp, rdma_dev.qp qpid = .ok qp ∧ qp.Belongs pds qpid ∧ qpid ∈ allocated := by
  have hlength : qpid.toNat < rdma_dev.qps_ptr.length := htable.entries.symm ▸ hinside
  simp only [RdmaDev.qp, htable.allocated]
  rcases hentry : rdma_dev.qps_ptr[qpid.toNat]? with _ | _ | qp
  · rw [List.getElem?_eq_none_iff] at hentry
    omega
  · exact .inl rfl
  · have hsame : qp.qpid = qpid := BitVec.eq_of_toNat_eq (htable.at_id _ qp hentry)
    exact .inr ⟨qp, rfl, ⟨hsame, hsame ▸ htable.owned _ qp hentry⟩, qp, rfl⟩

/-- A queue pair that is in the table is stored again. -/
theorem Table.store (htable : Table pds axil_ctl num_qp allocated rdma_dev)
    {qpid : BitVec 32} {qp : QueuePair}
    (hqp : qp.Belongs pds qpid) (hinside : qpid.toNat < num_qp) (hmem : qpid ∈ allocated) :
    ∃ rdma_dev', rdma_dev.set_qp qpid qp = .ok rdma_dev' ∧ Table pds axil_ctl num_qp allocated rdma_dev' := by
  obtain ⟨rdma_dev', hset, -, htable'⟩ := htable.set_qp hqp hinside
  refine ⟨rdma_dev', hset, (htable' (htable.mapped qpid hmem)).mono fun other => ?_⟩
  rw [List.mem_cons]
  exact ⟨.inr, fun h => h.elim (fun hsame => hsame ▸ hmem) id⟩

section Calls

variable {rely guar : BitVec 32 → BitVec 32 → Prop} {qpid : BitVec 32} {α : Type}
  {post : Except Stop α → Prop}

/-- A look-up finds the queue pair of that number or a NULL pointer. -/
theorem Table.meets_qp (htable : Table pds axil_ctl num_qp allocated rdma_dev) (hinside : qpid.toNat < num_qp)
    (hnull : post (.error .null_pointer)) {f : QueuePair → Program Stop α}
    (hresult : ∀ qp, qp.Belongs pds qpid → qpid ∈ allocated → (f qp).Meets rely guar post) :
    (Program.of (rdma_dev.qp qpid) >>= f).Meets rely guar post := by
  obtain hfound | ⟨qp, hfound, hqp, hmem⟩ := htable.qp hinside
  · rw [hfound]
    exact hnull
  · rw [hfound]
    exact hresult qp hqp hmem

/-- A queue pair may be stored where it was. -/
theorem Table.meets_store (htable : Table pds axil_ctl num_qp allocated rdma_dev) {qp : QueuePair}
    (hqp : qp.Belongs pds qpid) (hinside : qpid.toNat < num_qp) (hmem : qpid ∈ allocated)
    {f : RdmaDev → Program Stop α}
    (hresult : ∀ rdma_dev', Table pds axil_ctl num_qp allocated rdma_dev' →
      (f rdma_dev').Meets rely guar post) :
    (Program.of (rdma_dev.set_qp qpid qp) >>= f).Meets rely guar post := by
  obtain ⟨rdma_dev', hset, htable'⟩ := htable.store hqp hinside hmem
  rw [hset]
  exact hresult rdma_dev' htable'

/-- So it may at the end of a call. -/
theorem Table.meets_last_store (htable : Table pds axil_ctl num_qp allocated rdma_dev) {qp : QueuePair}
    (hqp : qp.Belongs pds qpid) (hinside : qpid.toNat < num_qp) (hmem : qpid ∈ allocated) :
    (Program.of (rdma_dev.set_qp qpid qp)).Meets rely guar (Ends (Table pds axil_ctl num_qp allocated)) := by
  obtain ⟨rdma_dev', hset, htable'⟩ := htable.store hqp hinside hmem
  rw [hset]
  exact htable'

/-- The three buffers change the offsets of `rn_dev` alone. -/
theorem Table.allocate_rdma_buffer (htable : Table pds axil_ctl num_qp allocated rdma_dev)
    (get_buffer_paddr : BitVec 64 → BitVec 64) (size : BitVec 32) (location : rdma_buff.BufLocation) :
    rdma_dev.allocate_rdma_buffer get_buffer_paddr size location = .error .exit ∨
      ∃ buff rdma_dev', rdma_dev.allocate_rdma_buffer get_buffer_paddr size location =
        .ok (buff, rdma_dev') ∧ Table pds axil_ctl num_qp allocated rdma_dev' := by
  simp only [RdmaDev.allocate_rdma_buffer]
  split
  · exact .inl rfl
  · exact .inr ⟨_, _, rfl, htable.other_memory _⟩

/-- Creating a queue pair exits the program, or puts one of its number into the table. -/
theorem Table.create_qp (htable : Table pds axil_ctl num_qp allocated rdma_dev)
    (get_buffer_paddr : BitVec 64 → BitVec 64) (request : QpRequest)
    (hpd : request.pd_entry ∈ pds request.qpid) (hinside : request.qpid.toNat < num_qp) :
    rdma_dev.create_qp get_buffer_paddr request = .error .exit ∨
      ∃ qp rdma_dev', rdma_dev.create_qp get_buffer_paddr request = .ok (qp, rdma_dev') ∧
        rdma_dev'.axil_ctl = axil_ctl ∧
        (axil_ctl ≠ 0 → Table pds axil_ctl num_qp (request.qpid :: allocated) rdma_dev') := by
  simp only [RdmaDev.create_qp, bind, Except.bind, pure, Except.pure]
  obtain hsq | ⟨sq, dev, hsq, htable⟩ := htable.allocate_rdma_buffer get_buffer_paddr
    (rdma_dev.queue_size request.qdepth 64) request.buf_location
  · simp only [hsq]
    exact .inl trivial
  obtain hcq | ⟨cq, dev', hcq, htable⟩ := htable.allocate_rdma_buffer get_buffer_paddr
    (dev.queue_size request.qdepth 4) request.buf_location
  · simp only [hsq, hcq]
    exact .inl trivial
  obtain hrq | ⟨rq, dev'', hrq, htable⟩ := htable.allocate_rdma_buffer get_buffer_paddr
    (dev'.queue_size request.qdepth (BitVec.ofNat 32 RQE_SIZE)) request.buf_location
  · simp only [hsq, hcq, hrq]
    exact .inl trivial
  simp only [hsq, hcq, hrq]
  split
  case h_1 stop hset =>
    obtain ⟨_, hstored, _⟩ := htable.of_set_qp hset ⟨rfl, hpd⟩ hinside
    cases hstored
  case h_2 rdma_dev' hset =>
    obtain ⟨_, hstored, hcontrol, htable⟩ := htable.of_set_qp hset ⟨rfl, hpd⟩ hinside
    cases hstored
    exact .inr ⟨_, _, rfl, hcontrol, htable⟩

/-- The part of a result that is the device. -/
theorem meets_device {pds : BitVec 32 → Set (BitVec 64)} {num_qp : Nat}
    {allocated : List (BitVec 32)} {program : Program Stop (α × RdmaDev)}
    (hmeets : program.Meets rely guar (Ends fun result => Table pds axil_ctl num_qp allocated result.2)) :
    (do return (← program).2).Meets rely guar (Ends (Table pds axil_ctl num_qp allocated)) :=
  hmeets.bind (fun _ hresult => hresult) fun _ hstop => hstop

/-- Once the queue pair is made, over registers that are mapped, its allocation returns. -/
theorem allocate_rdma_qp_created {get_buffer_paddr : BitVec 64 → BitVec 64} {request : QpRequest}
    {qp : QueuePair} {rdma_dev' : RdmaDev}
    (hcreate : rdma_dev.create_qp get_buffer_paddr request = .ok (qp, rdma_dev'))
    (hmapped : rdma_dev'.axil_ctl ≠ 0) (hguar : ∀ offset value, guar offset value) :
    (rdma_dev.allocate_rdma_qp get_buffer_paddr request).Meets rely guar
      (· = .ok (qp, rdma_dev')) := by
  have hconfigure : (rdma_dev'.configure_qp qp request).Meets rely guar (· = .ok ()) := by
    apply configure_qp_meets (fun _ value => hguar _ value) _ rdma_dev' qp rfl
    exact rfl
  rw [RdmaDev.allocate_rdma_qp, hcreate]
  change (if rdma_dev'.axil_ctl = 0 then _ else _ : Program Stop (QueuePair × RdmaDev)).Meets _ _ _
  rw [if_neg hmapped]
  refine hconfigure.bind (fun _ _ => rfl) fun stop hstop => ?_
  cases hstop

/-- `allocate_rdma_qp` adds its queue pair to the table. -/
theorem Table.meets_allocate (htable : Table pds axil_ctl num_qp allocated rdma_dev)
    (get_buffer_paddr : BitVec 64 → BitVec 64) (request : QpRequest)
    (hpd : request.pd_entry ∈ pds request.qpid) (hinside : request.qpid.toNat < num_qp)
    (hguar : ∀ offset value, guar offset value) :
    (rdma_dev.allocate_rdma_qp get_buffer_paddr request).Meets rely guar
      (Ends fun result => Table pds axil_ctl num_qp (request.qpid :: allocated) result.2) := by
  obtain hexit | ⟨qp, rdma_dev', hcreate, hcontrol, htable'⟩ :=
    htable.create_qp get_buffer_paddr request hpd hinside
  · rw [RdmaDev.allocate_rdma_qp, hexit]
    exact exit_ne
  by_cases hmapped : rdma_dev'.axil_ctl = 0
  · rw [RdmaDev.allocate_rdma_qp, hcreate]
    change (if rdma_dev'.axil_ctl = 0 then _ else _ : Program Stop (QueuePair × RdmaDev)).Meets _ _ _
    rw [if_pos hmapped]
    exact exit_ne
  · refine (allocate_rdma_qp_created hcreate hmapped hguar).mono (fun _ _ h => h) ?_
    rintro outcome rfl
    exact htable' (hcontrol ▸ hmapped)

/-- Posting leaves the table as it is. -/
theorem Table.meets_post (htable : Table pds axil_ctl num_qp allocated rdma_dev) {qp : QueuePair}
    (hqp : qp.Belongs pds qpid) (hinside : qpid.toNat < num_qp) (hmem : qpid ∈ allocated)
    (effect : Effect) (hguar : ∀ offset value, guar offset value) :
    (rdma_dev.post qpid qp effect).Meets rely guar
      (Ends fun result => Table pds axil_ctl num_qp allocated result.2) := by
  rw [RdmaDev.post]
  rcases effect.doorbell with _ | sq_pidb
  · exact exit_ne
  · refine ⟨hguar .., ?_⟩
    rcases effect.returned with _ | ⟨rc, send⟩
    · exact polling_ne
    · apply htable.meets_store _ hinside hmem
      · exact fun _ htable' => htable'
      · exact hqp

/-- So does polling for what has been received. -/
theorem Table.meets_poll (htable : Table pds axil_ctl num_qp allocated rdma_dev)
    (hinside : qpid.toNat < num_qp) (reads : List Nat) :
    (rdma_dev.poll_rq_pidb qpid reads).Meets rely guar
      (Ends fun result => Table pds axil_ctl num_qp allocated result.2) := by
  refine htable.meets_qp hinside null_pointer_ne fun qp hqp hmem => ?_
  dsimp only
  rcases rdma_api.poll_rq_pidb qp.receive.rq_pidb reads with _ | rq_pidb
  · exact polling_ne
  · apply htable.meets_store _ hinside hmem
    · exact fun _ htable' => htable'
    · exact hqp

/-- `create_a_wqe` stays in the table. -/
theorem Table.create_a_wqe_inside (htable : Table pds axil_ctl num_qp allocated rdma_dev) (heap : Memory)
    (block : BitVec 64) (answers : Nat → Answer) (hinside : qpid.toNat < num_qp)
    (wqe_idx : BitVec 32) (r : WorkRequest) (s : Memories) :
    Inside (create_a_wqe rdma_dev heap block answers qpid wqe_idx r s).1 := by
  obtain hfound | ⟨qp, hfound, -, -⟩ := htable.qp hinside
  · simp only [create_a_wqe, hfound]
    exact inside_error null_pointer_ne
  · simp only [create_a_wqe, hfound]
    by_cases hdevice : rdma_buff.is_device_address qp.sq.dma_addr
    · rw [if_pos hdevice]
      rcases memory_api.write_from_buffer _ _ _ _ _ _ with ⟨_ | written, device⟩
      · exact inside_error exit_ne
      · exact inside_ok ()
    · rw [if_neg hdevice]
      exact inside_ok ()

end Calls

end Table

section Sessions

variable {pds : BitVec 32 → Set (BitVec 64)} {axil_ctl : BitVec 64} {num_qp : Nat}
  {allocated : List (BitVec 32)} {rdma_dev : RdmaDev}

/-- One call on an id below `num_qp`. -/
theorem QpCall.meets (htable : Table pds axil_ctl num_qp allocated rdma_dev) (c : QpCall)
    (hpds : ∀ pd ∈ c.pd_entries, pd ∈ pds c.qpid) (hinside : c.qpid.toNat < num_qp) :
    (c.program rdma_dev).Meets (fun _ _ => True) (fun _ _ => True)
      (Ends (Table pds axil_ctl num_qp (c.allocates ++ allocated))) := by
  cases c with
  | allocate_rdma_qp get_buffer_paddr request =>
    have hpd : request.pd_entry ∈ pds request.qpid := hpds _ List.mem_cons_self
    exact meets_device
      (htable.meets_allocate get_buffer_paddr request hpd hinside fun _ _ => trivial)
  | config_sq_psn qpid sq_psn =>
    refine ⟨trivial, htable.meets_qp hinside null_pointer_ne fun qp hqp hmem => ?_⟩
    exact htable.meets_last_store hqp hinside hmem
  | config_last_rq_psn qpid last_rq_psn =>
    refine ⟨trivial, htable.meets_qp hinside null_pointer_ne fun qp hqp hmem => ?_⟩
    exact htable.meets_last_store hqp hinside hmem
  | create_a_wqe heap block answers qpid wqe_idx r s =>
    have hnever := htable.create_a_wqe_inside heap block answers hinside wqe_idx r s
    refine (meets_of _).bind (fun _ _ => htable) fun stop hstop => ?_
    rintro rfl
    exact hnever hstop.symm
  | rdma_post_send qpid reads =>
    refine meets_device (htable.meets_qp hinside null_pointer_ne fun qp hqp hmem => ?_)
    exact htable.meets_post hqp hinside hmem _ fun _ _ => trivial
  | rdma_post_batch_send qpid batch_size reads =>
    refine meets_device (htable.meets_qp hinside null_pointer_ne fun qp hqp hmem => ?_)
    exact htable.meets_post hqp hinside hmem _ fun _ _ => trivial
  | poll_rq_pidb qpid reads => exact meets_device (htable.meets_poll hinside reads)
  | rdma_post_receive qp reads =>
    refine meets_device ((htable.meets_poll hinside reads).bind ?_ fun _ hstop => hstop)
    intro ⟨rq_pidb, rdma_dev'⟩ htable'
    dsimp only
    split
    · exact exit_ne
    · exact htable'

/-- Calls on ids below `num_qp`, one after the other. -/
theorem run_calls_meets (htable : Table pds axil_ctl num_qp allocated rdma_dev) (calls : List QpCall)
    (hinside : ∀ c ∈ calls, c.Uses (fun qpid => qpid.toNat < num_qp) pds) :
    (run_calls rdma_dev calls).Meets (fun _ _ => True) (fun _ _ => True)
      (Ends (Table pds axil_ctl num_qp (calls.flatMap QpCall.allocates ++ allocated))) := by
  induction calls generalizing rdma_dev allocated with
  | nil => exact htable
  | cons c calls ih =>
    rw [List.forall_mem_cons] at hinside
    refine (c.meets htable hinside.1.2 hinside.1.1).bind (fun rdma_dev' htable' => ?_) fun _ hstop => hstop
    have hrest := ih htable' hinside.2
    refine hrest.mono (fun _ _ hguar => hguar) fun outcome hends => ?_
    refine hends.mono fun last hlast => hlast.mono fun qpid => ?_
    simp only [List.flatMap_cons, List.mem_append]
    tauto

/-- The ids of the queue pairs in some entries. -/
def qpids (entries : List (Option QueuePair)) : List (BitVec 32) :=
  entries.filterMap (Option.map QueuePair.qpid)

/-- What is in the table has been allocated. -/
theorem Table.mem_allocated (htable : Table pds axil_ctl num_qp allocated rdma_dev) {i : Nat}
    {qp : QueuePair} (hentry : rdma_dev.qps_ptr[i]? = some (some qp)) : qp.qpid ∈ allocated :=
  (htable.allocated qp.qpid).mpr ⟨qp, (htable.at_id i qp hentry).symm ▸ hentry⟩

/-- What has been allocated is in the table. -/
theorem Table.mem_qpids (htable : Table pds axil_ctl num_qp allocated rdma_dev) (qpid : BitVec 32) :
    qpid ∈ qpids rdma_dev.qps_ptr ↔ qpid ∈ allocated := by
  rw [htable.allocated, qpids, List.mem_filterMap]
  constructor
  · rintro ⟨entry, hentry, hqpid⟩
    rw [Option.map_eq_some_iff] at hqpid
    obtain ⟨qp, rfl, rfl⟩ := hqpid
    obtain ⟨i, hi⟩ := List.mem_iff_getElem?.mp hentry
    exact ⟨qp, (htable.at_id i qp hi).symm ▸ hi⟩
  · rintro ⟨qp, hqp⟩
    have hsame : qp.qpid = qpid := BitVec.eq_of_toNat_eq (htable.at_id _ qp hqp)
    exact ⟨some qp, List.mem_of_getElem? hqp, by rw [Option.map_some, hsame]⟩

/-- Values are without duplicates when each is of one index. -/
theorem nodup_filterMap_iff {α β : Type} {f : α → Option β} {l : List α} :
    (l.filterMap f).Nodup ↔ ∀ (i j : Nat) (x y : α) (b : β), l[i]? = some x → l[j]? = some y →
      f x = some b → f y = some b → i = j := by
  rw [List.Nodup, List.pairwise_filterMap, List.pairwise_iff_getElem]
  constructor
  · intro hnodup i j x y b hx hy hfx hfy
    obtain ⟨hi, rfl⟩ := List.getElem?_eq_some_iff.mp hx
    obtain ⟨hj, rfl⟩ := List.getElem?_eq_some_iff.mp hy
    rcases Nat.lt_trichotomy i j with hlt | hsame | hlt
    · exact absurd rfl (hnodup i j hi hj hlt b hfx b hfy)
    · exact hsame
    · exact absurd rfl (hnodup j i hj hi hlt b hfy b hfx)
  · intro hindex i j hi hj hlt b hb b' hb' hsame
    subst hsame
    have heq := hindex i j _ _ b (List.getElem?_eq_getElem hi) (List.getElem?_eq_getElem hj) hb hb'
    exact Nat.ne_of_lt hlt heq

/-- No queue pair is twice in the table. -/
theorem Table.qpids_nodup (htable : Table pds axil_ctl num_qp allocated rdma_dev) :
    (qpids rdma_dev.qps_ptr).Nodup := by
  apply nodup_filterMap_iff.mpr
  intro i j entry entry' qpid hentry hentry' hqpid hqpid'
  rw [Option.map_eq_some_iff] at hqpid hqpid'
  obtain ⟨qp, rfl, rfl⟩ := hqpid
  obtain ⟨qp', rfl, hsame⟩ := hqpid'
  have hfirst := htable.at_id i qp hentry
  have hsecond := htable.at_id j qp' hentry'
  rw [← hfirst, ← hsecond, hsame]

/-- The protection domain that goes with an entry, when there is one. -/
def domain (entry : Option QueuePair) : Option (BitVec 64) :=
  entry.bind fun qp => if qp.pd_entry = 0 then none else some qp.pd_entry

/-- An entry has a protection domain when it is a queue pair with one. -/
theorem domain_eq_some {entry : Option QueuePair} {pd : BitVec 64} :
    domain entry = some pd ↔ ∃ qp, entry = some qp ∧ qp.pd_entry = pd ∧ pd ≠ 0 := by
  rw [domain, Option.bind_eq_some_iff]
  refine exists_congr fun qp => and_congr_right fun _ => ?_
  split
  case isTrue hnull =>
    constructor
    · intro hnone
      cases hnone
    · rintro ⟨hsame, hpd⟩
      exact absurd (hsame.symm.trans hnull) hpd
  case isFalse hpd =>
    rw [Option.some.injEq]
    exact ⟨fun hsame => ⟨hsame, hsame ▸ hpd⟩, And.left⟩

/-- The protection domains of some entries can be freed: each has one queue pair, and none has
been freed before. -/
def Unfreed (freed : List (BitVec 64)) (entries : List (Option QueuePair)) : Prop :=
  (entries.filterMap domain).Nodup ∧ ∀ pd ∈ entries.filterMap domain, pd ∉ freed

/-- This is what `destroy_rdma_pd_entry` needs, entry after entry. -/
theorem unfreed_cons {freed : List (BitVec 64)} {qp : QueuePair}
    {entries : List (Option QueuePair)} :
    Unfreed freed (some qp :: entries) ↔
      ∃ freed', destroy_rdma_pd_entry freed qp.pd_entry = .ok freed' ∧ Unfreed freed' entries := by
  rw [destroy_rdma_pd_entry]
  by_cases hnull : qp.pd_entry = 0
  · have hnone : domain (some qp) = none := if_pos hnull
    simp [Unfreed, hnull, hnone]
  · have hsome : domain (some qp) = some qp.pd_entry := if_neg hnull
    simp only [Unfreed, List.filterMap_cons, hsome, List.nodup_cons, List.forall_mem_cons, if_neg hnull]
    by_cases hfreed : qp.pd_entry ∈ freed
    · simp [hfreed]
    · simp only [hfreed, not_false_iff, true_and, if_false, Except.ok.injEq, exists_eq_left',
        List.mem_cons, not_or]
      constructor
      · rintro ⟨⟨hother, hnodup⟩, hrest⟩
        exact ⟨hnodup, fun pd hpd => ⟨fun hsame => hother (hsame ▸ hpd), hrest pd hpd⟩⟩
      · rintro ⟨hnodup, hrest⟩
        exact ⟨⟨fun hmem => (hrest _ hmem).1 rfl, hnodup⟩, fun pd hpd => (hrest pd hpd).2⟩

/-- The loop destroys the queue pairs of the entries that it visits, and frees their protection
domains once. -/
theorem destroy_loop_meets (turns : Nat) (rdma_dev : RdmaDev) (freed : List (BitVec 64))
    (i more : Nat) (hend : i + more ≤ rdma_dev.qps_ptr.length) :
    (rdma_dev.destroy_loop turns freed i more).Meets (fun _ _ => True) (fun _ _ => True)
      (Ends fun destroyed => destroyed = qpids ((rdma_dev.qps_ptr.drop i).take more) ∧
        Unfreed freed ((rdma_dev.qps_ptr.drop i).take more)) := by
  induction more generalizing freed i with
  | zero => exact ⟨rfl, by simp [Unfreed]⟩
  | succ more ih =>
    have hi : i < rdma_dev.qps_ptr.length := by omega
    have hrest := fun freed => ih freed (i + 1) (by omega)
    rw [List.drop_eq_getElem_cons hi, List.take_succ_cons, RdmaDev.destroy_loop,
      List.getElem?_eq_getElem hi]
    rcases hentry : rdma_dev.qps_ptr[i] with _ | qp
    · exact hrest freed
    · have hdestroy : (qp.destroy_rdma_qp turns freed).Meets (fun _ _ => True) (fun _ _ => True)
          (Ends fun freed' => destroy_rdma_pd_entry freed qp.pd_entry = .ok freed') :=
        destroy_rdma_qp_meets (fun _ _ => trivial) turns freed rfl (fun _ _ => trivial)
          fun _ _ => trivial
      refine hdestroy.bind (fun freed' hfreed' => ?_) fun _ hstop => hstop
      refine (hrest freed').bind (fun destroyed hdestroyed => ?_) fun _ hstop => hstop
      obtain ⟨hqpids, hunfreed⟩ := hdestroyed
      refine ⟨?_, unfreed_cons.mpr ⟨freed', hfreed', hunfreed⟩⟩
      rw [hqpids]
      rfl

/-- `destroy_rdma_dev` stays in the table and destroys what is in it. It returns only when no
protection domain has two queue pairs. -/
theorem Table.destroy_rdma_dev_meets (htable : Table pds axil_ctl num_qp allocated rdma_dev) (turns : Nat) :
    (rdma_dev.destroy_rdma_dev turns).Meets (fun _ _ => True) (fun _ _ => True)
      (Ends fun destroyed => destroyed = qpids rdma_dev.qps_ptr ∧ Unfreed [] rdma_dev.qps_ptr) := by
  have hlength : rdma_dev.qps_ptr.length = rdma_dev.num_qp.toNat :=
    htable.entries.trans htable.size.symm
  have hloop := destroy_loop_meets turns rdma_dev [] 0 rdma_dev.num_qp.toNat (by omega)
  rw [List.drop_zero, List.take_of_length_le hlength.le] at hloop
  exact hloop.bind (fun _ hdestroyed => ⟨trivial, hdestroyed⟩) fun _ hstop => hstop

end Sessions

section Return

/-- Registers that hold what was written last. -/
def quiet (_time : Nat) (regs : Regs) : Regs := regs

/-- A queue pair that `destroy_rdma_qp` need not recover. -/
structure Settled (regs : Regs) (qpid : BitVec 32) : Prop where
  idle : regs (get_rdma_per_q_config_addr Qcsr.STATQPi.address qpid) &&& 0x000000ff#32 = 0
  empty : (regs (get_rdma_per_q_config_addr Qcsr.STATQPi.address qpid) >>> 9) &&& 0x00000003#32 =
    0x3#32
  completed : regs (get_rdma_per_q_config_addr Qcsr.CQHEADi.address qpid) =
    regs (get_rdma_per_q_config_addr Qcsr.SQPIi.address qpid)

variable {regs : Regs}

/-- On quiet hardware `destroy_rdma_qp` returns when the protection domain has not been freed
before. -/
theorem destroy_rdma_qp_returns (turns : Nat) {freed freed' : List (BitVec 64)} {qp : QueuePair}
    (hsettled : Settled regs qp.qpid)
    (hfree : destroy_rdma_pd_entry freed qp.pd_entry = .ok freed') (time : Nat) :
    ((qp.destroy_rdma_qp turns freed).run quiet time regs).outcome = .ok freed' := by
  have hcheck : (qp.check_status turns).run quiet time regs = ⟨.ok (), regs, []⟩ := by
    simp only [QueuePair.check_status, read32_data, bind, Program.bind, Program.run, quiet, pure,
      hsettled.idle, hsettled.empty, hsettled.completed, and_self, not_true_eq_false, if_false,
      ne_eq]
  rw [QueuePair.destroy_rdma_qp, hfree]
  obtain ⟨later, hrun⟩ := Program.run_bind
    (f := fun _ => do
      qp.reset_registers
      Program.of (.ok freed'))
    (congrArg Run.outcome hcheck)
  exact hrun.trans rfl

/-- The other queue pairs keep their registers. -/
theorem Settled.destroy_other {qpid : BitVec 32} (hsettled : Settled regs qpid) (turns : Nat)
    (freed : List (BitVec 64)) {qp : QueuePair} (hqp : (Target.qp qp.qpid).Valid)
    (hqpid : (Target.qp qpid).Valid)
    (hne : qpid ≠ qp.qpid) (time : Nat) :
    Settled ((qp.destroy_rdma_qp turns freed).run quiet time regs).regs qpid := by
  have hkept : ∀ register : Qcsr, ((qp.destroy_rdma_qp turns freed).run quiet time regs).regs
      (get_rdma_per_q_config_addr register.address qpid) =
        regs (get_rdma_per_q_config_addr register.address qpid) := by
    intro register
    have hcovers := qcsr_covered hqpid register
    apply Program.run_frame fun _ _ => rfl
    intro w hw hsame
    obtain hwritten | ⟨-, hconf⟩ :=
      (ApiCall.destroy_rdma_qp turns freed qp).written hqp quiet time regs w hw
    · rw [hsame] at hwritten
      have htarget := hwritten.unique hqp hqpid hcovers
      exact hne (Target.qp.inj htarget)
    · rw [← hsame, hconf] at hcovers
      have hname := (hcovers.gcsr hqpid).2
      exact absurd hname (by decide)
  refine ⟨?_, ?_, ?_⟩
  · rw [hkept]
    exact hsettled.idle
  · rw [hkept]
    exact hsettled.empty
  · rw [hkept, hkept]
    exact hsettled.completed

/-- So does the loop over the entries. -/
theorem destroy_loop_returns (turns : Nat) (rdma_dev : RdmaDev) (freed : List (BitVec 64))
    (i more : Nat) (hend : i + more ≤ rdma_dev.qps_ptr.length)
    (hids : ∀ j (qp : QueuePair), rdma_dev.qps_ptr[j]? = some (some qp) →
      qp.qpid.toNat = j ∧ (Target.qp qp.qpid).Valid)
    (hsettled : ∀ j (qp : QueuePair), i ≤ j → rdma_dev.qps_ptr[j]? = some (some qp) →
      Settled regs qp.qpid)
    (hunfreed : Unfreed freed ((rdma_dev.qps_ptr.drop i).take more)) (time : Nat) :
    ∃ destroyed, ((rdma_dev.destroy_loop turns freed i more).run quiet time regs).outcome =
      .ok destroyed := by
  induction more generalizing freed i regs time with
  | zero => exact ⟨[], rfl⟩
  | succ more ih =>
    have hi : i < rdma_dev.qps_ptr.length := by omega
    rw [List.drop_eq_getElem_cons hi, List.take_succ_cons] at hunfreed
    rw [RdmaDev.destroy_loop]
    rcases hentry : rdma_dev.qps_ptr[i]? with _ | _ | qp
    · rw [List.getElem?_eq_none_iff] at hentry
      omega
    · rw [(List.getElem?_eq_some_iff.mp hentry).2] at hunfreed
      exact ih freed (i + 1) (by omega) (fun j qp hj => hsettled j qp (Nat.le_of_succ_le hj))
        hunfreed time
    · rw [(List.getElem?_eq_some_iff.mp hentry).2] at hunfreed
      obtain ⟨freed', hfree, hunfreed⟩ := unfreed_cons.mp hunfreed
      have hreturns := destroy_rdma_qp_returns turns (hsettled i qp le_rfl hentry) hfree time
      have hrest : ∀ j (qp' : QueuePair), i + 1 ≤ j → rdma_dev.qps_ptr[j]? = some (some qp') →
          Settled ((qp.destroy_rdma_qp turns freed).run quiet time regs).regs qp'.qpid := by
        intro j qp' hj hother
        have hsame := (hids i qp hentry).1
        have hdiffer := (hids j qp' hother).1
        refine (hsettled j qp' (by omega) hother).destroy_other turns freed (hids i qp hentry).2
          (hids j qp' hother).2 (fun heq => ?_) time
        have hindex := congrArg BitVec.toNat heq
        omega
      obtain ⟨later, hrun⟩ := Program.run_bind
        (f := fun freed' => do
          let destroyed ← rdma_dev.destroy_loop turns freed' (i + 1) more
          return qp.qpid :: destroyed) hreturns
      obtain ⟨destroyed, hdestroyed⟩ := ih freed' (i + 1) (by omega) hrest hunfreed later
      obtain ⟨last, hlast⟩ := Program.run_bind
        (f := fun destroyed => (pure (qp.qpid :: destroyed) : Program Stop _)) hdestroyed
      exact ⟨_, hrun.trans hlast⟩

/-- The protection domains of different ids are different ones. -/
def OwnDomains (ids : Set (BitVec 32)) (pds : BitVec 32 → Set (BitVec 64)) : Prop :=
  ∀ qpid ∈ ids, ∀ qpid' ∈ ids, ∀ pd ∈ pds qpid, pd ∈ pds qpid' → pd ≠ 0 → qpid = qpid'

variable {pds : BitVec 32 → Set (BitVec 64)} {axil_ctl : BitVec 64} {num_qp : Nat}
  {allocated : List (BitVec 32)} {rdma_dev : RdmaDev}

/-- Queue pairs with protection domains of their own free each of them once. -/
theorem Table.unfreed (htable : Table pds axil_ctl num_qp allocated rdma_dev)
    (hown : OwnDomains (· ∈ allocated) pds) : Unfreed [] rdma_dev.qps_ptr := by
  refine ⟨nodup_filterMap_iff.mpr ?_, fun _ _ => List.not_mem_nil⟩
  intro i j entry entry' pd hentry hentry' hpd hpd'
  obtain ⟨qp, rfl, rfl, hne⟩ := domain_eq_some.mp hpd
  obtain ⟨qp', rfl, hsame, -⟩ := domain_eq_some.mp hpd'
  have hids := hown qp.qpid (htable.mem_allocated hentry) qp'.qpid (htable.mem_allocated hentry') _
    (htable.owned i qp hentry) (hsame ▸ htable.owned j qp' hentry') hne
  rw [← htable.at_id i qp hentry, ← htable.at_id j qp' hentry', hids]

/-- `destroy_rdma_dev` destroys all queue pairs that have been allocated. -/
theorem destroy_rdma_dev_returns (htable : Table pds axil_ctl num_qp allocated rdma_dev) (turns : Nat)
    (hvalid : ∀ qpid ∈ allocated, (Target.qp qpid).Valid)
    (hown : OwnDomains (· ∈ allocated) pds) (hsettled : ∀ qpid ∈ allocated, Settled regs qpid) (time : Nat) :
    ∃ destroyed, ((rdma_dev.destroy_rdma_dev turns).run quiet time regs).outcome =
      .ok destroyed := by
  have hlength : rdma_dev.qps_ptr.length = rdma_dev.num_qp.toNat :=
    htable.entries.trans htable.size.symm
  have hunfreed : Unfreed [] ((rdma_dev.qps_ptr.drop 0).take rdma_dev.num_qp.toNat) := by
    rw [List.drop_zero, List.take_of_length_le hlength.le]
    exact htable.unfreed hown
  obtain ⟨destroyed, hloop⟩ := destroy_loop_returns turns rdma_dev [] 0 rdma_dev.num_qp.toNat
    (by omega)
    (fun j qp hentry => ⟨htable.at_id j qp hentry, hvalid _ (htable.mem_allocated hentry)⟩)
    (fun j qp _ hentry => hsettled _ (htable.mem_allocated hentry)) hunfreed time
  obtain ⟨later, hrun⟩ := Program.run_bind
    (f := fun destroyed => do
      write32_data Gcsr.XRNICCONF.address 0
      return destroyed) hloop
  exact ⟨destroyed, hrun⟩

end Return

/-- What the table has to do for some calls on a new device. No call uses an entry outside
of it. When the calls have returned, `destroy_rdma_dev` destroys the queue pairs that were
allocated, each once, and it returns when they have settled. -/
structure TableCovers (rdma_dev : RdmaDev) (calls : List QpCall) : Prop where
  calls_inside : ∀ hardware time regs,
    Inside ((run_calls rdma_dev calls).run hardware time regs).outcome
  destroys_allocated : ∀ hardware time regs rdma_dev',
    ((run_calls rdma_dev calls).run hardware time regs).outcome = .ok rdma_dev' →
    ∀ turns hardware' time' regs', let outcome :=
      ((rdma_dev'.destroy_rdma_dev turns).run hardware' time' regs').outcome
    Inside outcome ∧ ∀ destroyed, outcome = .ok destroyed →
      destroyed.Nodup ∧ ∀ qpid, qpid ∈ destroyed ↔ qpid ∈ calls.flatMap QpCall.allocates
  returns : ∀ hardware time regs rdma_dev',
    ((run_calls rdma_dev calls).run hardware time regs).outcome = .ok rdma_dev' →
    ∀ turns time' regs', (∀ qpid ∈ calls.flatMap QpCall.allocates, Settled regs' qpid) →
    ∃ destroyed, ((rdma_dev'.destroy_rdma_dev turns).run quiet time' regs').outcome = .ok destroyed

section Covers

variable {ids : Set (BitVec 32)} {pds : BitVec 32 → Set (BitVec 64)} {axil_ctl : BitVec 64}
  {num_qp : Nat} {rdma_dev : RdmaDev} {calls : List QpCall}

/-- A run of calls keeps the table. -/
theorem run_calls_kept (htable : Table pds axil_ctl num_qp [] rdma_dev)
    (hinside : ∀ c ∈ calls, c.Uses (fun qpid => qpid.toNat < num_qp) pds)
    (hardware : Nat → Regs → Regs) (time : Nat) (regs : Regs) :
    Ends (Table pds axil_ctl num_qp (calls.flatMap QpCall.allocates))
      ((run_calls rdma_dev calls).run hardware time regs).outcome := by
  have hmeets := run_calls_meets htable calls hinside
  rw [List.append_nil] at hmeets
  exact (hmeets.any_run hardware time regs).1

/-- So the device that it leaves has the table. -/
theorem run_calls_table (htable : Table pds axil_ctl num_qp [] rdma_dev)
    (hinside : ∀ c ∈ calls, c.Uses (fun qpid => qpid.toNat < num_qp) pds)
    {hardware : Nat → Regs → Regs} {time : Nat} {regs : Regs} {rdma_dev' : RdmaDev}
    (hreturned : ((run_calls rdma_dev calls).run hardware time regs).outcome = .ok rdma_dev') :
    Table pds axil_ctl num_qp (calls.flatMap QpCall.allocates) rdma_dev' := by
  have hkept := run_calls_kept htable hinside hardware time regs
  rw [hreturned] at hkept
  exact hkept

/-- A call allocates its own queue pair. -/
theorem allocates_qpid {c : QpCall} {qpid : BitVec 32} (hmem : qpid ∈ c.allocates) :
    qpid = c.qpid := by
  cases c with
  | allocate_rdma_qp get_buffer_paddr request => exact List.mem_singleton.mp hmem
  | _ => exact absurd hmem List.not_mem_nil

/-- What a run allocates is among the numbers that it uses. -/
theorem allocates_mem (hcalls : ∀ c ∈ calls, c.Uses ids pds) {qpid : BitVec 32}
    (hmem : qpid ∈ calls.flatMap QpCall.allocates) : qpid ∈ ids := by
  obtain ⟨c, hc, hallocates⟩ := List.mem_flatMap.mp hmem
  exact allocates_qpid hallocates ▸ (hcalls c hc).1

/-- Numbers inside the table are covered by it. -/
theorem table_covers (hnum_qp : num_qp ≤ 255) (htable : Table pds axil_ctl num_qp [] rdma_dev)
    (hids : ∀ qpid ∈ ids, 1 ≤ qpid.toNat ∧ qpid.toNat < num_qp)
    (hown : axil_ctl ≠ 0 → OwnDomains ids pds) (hcalls : ∀ c ∈ calls, c.Uses ids pds) :
    TableCovers rdma_dev calls := by
  have hinside : ∀ c ∈ calls, c.Uses (fun qpid => qpid.toNat < num_qp) pds :=
    fun c hc => ⟨(hids _ (hcalls c hc).1).2, (hcalls c hc).2⟩
  refine ⟨fun hardware time regs => (run_calls_kept htable hinside hardware time regs).inside,
    ?_, ?_⟩
  · intro hardware time regs rdma_dev' hreturned turns hardware' time' regs'
    have htable' := run_calls_table htable hinside hreturned
    have hdestroys := ((htable'.destroy_rdma_dev_meets turns).any_run hardware' time' regs').1
    refine ⟨hdestroys.inside, fun destroyed hdestroyed => ?_⟩
    rw [hdestroyed] at hdestroys
    obtain ⟨rfl, -⟩ := hdestroys
    exact ⟨htable'.qpids_nodup, htable'.mem_qpids⟩
  · intro hardware time regs rdma_dev' hreturned turns time' regs' hsettled
    have htable' := run_calls_table htable hinside hreturned
    refine destroy_rdma_dev_returns htable' turns ?_ ?_ hsettled time'
    · intro qpid hmem
      obtain ⟨hpositive, hless⟩ := hids qpid (allocates_mem hcalls hmem)
      exact ⟨hpositive, by omega⟩
    · intro qpid hmem qpid' hmem'
      exact hown (htable'.mapped qpid hmem) qpid (allocates_mem hcalls hmem) qpid'
        (allocates_mem hcalls hmem')

/-- The entry of an id from `num_qp` on is not there. -/
theorem config_sq_psn_outside {qpid : BitVec 32}
    (houtside : rdma_dev.qps_ptr.length ≤ qpid.toNat) :
    ¬TableCovers rdma_dev [.config_sq_psn qpid 0] := by
  intro hcovers
  have hinside := hcovers.calls_inside quiet 0 fun _ => 0
  have hmissing : rdma_dev.qp qpid = .error .out_of_bounds := by
    rw [RdmaDev.qp, List.getElem?_eq_none houtside]
  refine hinside ?_
  simp only [run_calls, QpCall.program, RdmaDev.config_sq_psn, hmissing]
  rfl

/-- A request for a queue pair in host memory, in a protection domain. -/
def host_request (qpid : BitVec 32) (pd_entry : BitVec 64) : QpRequest where
  qpid := qpid
  dst_qpid := qpid
  pd_entry := pd_entry
  pd := ⟨0, 2⟩
  cq_cidb_addr := 0x1000
  rq_cidb_addr := 0x1020
  qdepth := 64
  buf_location := .host_mem
  dst_mac := ⟨0, 0⟩
  dst_ip := 0
  partion_key := 0x1234

/-- An allocation in host memory does not exit. -/
theorem host_buffer_ne_exit (get_buffer_paddr : BitVec 64 → BitVec 64) (size : BitVec 32) :
    rdma_dev.allocate_rdma_buffer get_buffer_paddr size .host_mem ≠ .error .exit :=
  fun hexit => nomatch hexit

/-- So a queue pair in host memory is always created. -/
theorem host_create_ne_exit (get_buffer_paddr : BitVec 64 → BitVec 64) (qpid : BitVec 32)
    (pd_entry : BitVec 64) :
    rdma_dev.create_qp get_buffer_paddr (host_request qpid pd_entry) ≠ .error .exit := by
  intro hexit
  obtain hsq | ⟨⟨sq, sq_dev⟩, -, hexit⟩ := bind_error hexit
  · exact host_buffer_ne_exit _ _ hsq
  obtain hcq | ⟨⟨cq, cq_dev⟩, -, hexit⟩ := bind_error hexit
  · exact host_buffer_ne_exit _ _ hcq
  obtain hrq | ⟨⟨rq, rq_dev⟩, -, hexit⟩ := bind_error hexit
  · exact host_buffer_ne_exit _ _ hrq
  obtain hset | ⟨stored, -, hexit⟩ := bind_error hexit
  · rw [RdmaDev.set_qp] at hset
    split at hset
    · cases hset
    · cases hset
  · cases hexit

/-- In host memory a queue pair is always allocated. -/
theorem Table.host_allocate {allocated : List (BitVec 32)}
    (htable : Table pds axil_ctl num_qp allocated rdma_dev) (hmapped : axil_ctl ≠ 0)
    {qpid : BitVec 32} {pd_entry : BitVec 64} (hpd : pd_entry ∈ pds qpid)
    (hinside : qpid.toNat < num_qp) :
    ((QpCall.allocate_rdma_qp id (host_request qpid pd_entry)).program rdma_dev).Meets
      (fun _ _ => True) (fun _ _ => True) fun outcome => ∃ rdma_dev', outcome = .ok rdma_dev' ∧
        Table pds axil_ctl num_qp (qpid :: allocated) rdma_dev' := by
  obtain hexit | ⟨qp, rdma_dev', hcreate, hcontrol, htable'⟩ :=
    htable.create_qp id (host_request qpid pd_entry) hpd hinside
  · exact absurd hexit (host_create_ne_exit id qpid pd_entry)
  have hallocate : (rdma_dev.allocate_rdma_qp id (host_request qpid pd_entry)).Meets
      (fun _ _ => True) (fun _ _ => True) (· = .ok (qp, rdma_dev')) :=
    allocate_rdma_qp_created hcreate (hcontrol ▸ hmapped) fun _ _ => trivial
  refine hallocate.bind ?_ fun stop hstop => ?_
  · intro result hresult
    cases hresult
    exact ⟨rdma_dev', rfl, htable' hmapped⟩
  · cases hstop

/-- Two queue pairs of one protection domain: the second one frees it once more. -/
theorem shared_domain_outside {pd : BitVec 64}
    (htable : Table (fun _ => {pd}) axil_ctl num_qp [] rdma_dev) (hmapped : axil_ctl ≠ 0)
    (hpd : pd ≠ 0) {qpid qpid' : BitVec 32}
    (hne : qpid ≠ qpid') (hinside : qpid.toNat < num_qp) (hinside' : qpid'.toNat < num_qp) :
    ¬TableCovers rdma_dev [.allocate_rdma_qp id (host_request qpid pd),
      .allocate_rdma_qp id (host_request qpid' pd)] := by
  intro hcovers
  have hcalls : (run_calls rdma_dev [.allocate_rdma_qp id (host_request qpid pd),
      .allocate_rdma_qp id (host_request qpid' pd)]).Meets (fun _ _ => True) (fun _ _ => True)
      fun outcome => ∃ rdma_dev', outcome = .ok rdma_dev' ∧
        Table (fun _ => {pd}) axil_ctl num_qp [qpid', qpid] rdma_dev' := by
    refine (htable.host_allocate hmapped rfl hinside).bind ?_ fun _ hstop => by simp at hstop
    rintro rdma_dev₁ ⟨_, hsame, htable₁⟩
    cases hsame
    refine (htable₁.host_allocate hmapped rfl hinside').bind ?_ fun _ hstop => by simp at hstop
    rintro rdma_dev₂ ⟨_, hsame, htable₂⟩
    cases hsame
    exact ⟨rdma_dev₂, rfl, htable₂⟩
  obtain ⟨rdma_dev', hreturned, htable'⟩ := (hcalls.any_run quiet 0 fun _ => 0).1
  -- every register reads as idle, with both queues empty
  obtain ⟨destroyed, hdestroyed⟩ := hcovers.returns quiet 0 (fun _ => 0) rdma_dev' hreturned 0 0
    (fun _ => 0x600) fun _ _ => ⟨by decide, by decide, rfl⟩
  have hdestroys := ((htable'.destroy_rdma_dev_meets 0).any_run quiet 0 fun _ => 0x600).1
  rw [hdestroyed] at hdestroys
  have hnodup := nodup_filterMap_iff.mp hdestroys.2.1
  obtain ⟨qp, hentry⟩ := (htable'.allocated qpid).mp (by simp)
  obtain ⟨qp', hentry'⟩ := (htable'.allocated qpid').mp (by simp)
  have hindex := hnodup qpid.toNat qpid'.toNat (some qp) (some qp') pd hentry hentry'
    (domain_eq_some.mpr ⟨qp, rfl, htable'.owned _ qp hentry, hpd⟩)
    (domain_eq_some.mpr ⟨qp', rfl, htable'.owned _ qp' hentry', hpd⟩)
  exact hne (BitVec.eq_of_toNat_eq hindex)

end Covers

/-- The table covers some ids, with the protection domains that they may have, exactly when
the ids are all less than `num_qp` and have no protection domain in common. It does not cover
the last queue pair that the hardware enables. -/
theorem qp_table_covers_iff (rn_dev : RnDev) (axil_ctl : BitVec 64) (num_qp : BitVec 8)
    (winSize : WinSize) (ids : Set (BitVec 32)) (pds : BitVec 32 → Set (BitVec 64))
    (hids : ∀ qpid ∈ ids, 1 ≤ qpid.toNat ∧ qpid.toNat ≤ num_qp.toNat) :
    (∀ calls : List QpCall, (∀ c ∈ calls, c.Uses ids pds) →
      TableCovers (create_rdma_dev rn_dev axil_ctl num_qp winSize) calls) ↔
    (∀ qpid ∈ ids, qpid.toNat < num_qp.toNat) ∧ (axil_ctl ≠ 0 → OwnDomains ids pds) := by
  constructor
  · intro hcovers
    have hless : ∀ qpid ∈ ids, qpid.toNat < num_qp.toNat := by
      intro qpid hqpid
      by_contra houtside
      refine config_sq_psn_outside ?_ (hcovers [.config_sq_psn qpid 0] ?_)
      · have htable : Table pds axil_ctl num_qp.toNat []
            (create_rdma_dev rn_dev axil_ctl num_qp winSize) :=
          create_rdma_dev_table rn_dev axil_ctl num_qp winSize
        rw [htable.entries]
        omega
      · intro c hc
        rw [List.mem_singleton.mp hc]
        exact ⟨hqpid, fun _ hpd => absurd hpd List.not_mem_nil⟩
    refine ⟨hless, fun hmapped qpid hqpid qpid' hqpid' pd hpd hpd' hpointer => ?_⟩
    by_contra hne
    refine shared_domain_outside (create_rdma_dev_table rn_dev axil_ctl num_qp winSize) hmapped
      hpointer hne (hless qpid hqpid) (hless qpid' hqpid') (hcovers _ ?_)
    simp only [List.forall_mem_cons, List.not_mem_nil, false_imp_iff, implies_true, and_true]
    refine ⟨⟨hqpid, ?_⟩, hqpid', ?_⟩
    · exact fun _ hmem => List.mem_singleton.mp hmem ▸ hpd
    · exact fun _ hmem => List.mem_singleton.mp hmem ▸ hpd'
  · rintro ⟨hless, hown⟩ calls hcalls
    have hbound := num_qp.isLt
    exact table_covers (by omega) (create_rdma_dev_table rn_dev axil_ctl num_qp winSize)
      (fun qpid hqpid => ⟨(hids qpid hqpid).1, hless qpid hqpid⟩) hown hcalls

/-- Eight queue pairs are enabled. Two of the first seven are used, each in a protection domain
of its own. -/
theorem seventh_qp_covered : TableCovers (create_rdma_dev ⟨0, 0, 0⟩ 1 8 win_size)
    [.allocate_rdma_qp id (host_request 7 0x7000), .config_sq_psn 7 0x10,
      .allocate_rdma_qp id (host_request 3 0x3000)] := by
  have hcovers := (qp_table_covers_iff ⟨0, 0, 0⟩ 1 8 win_size {3, 7}
    (fun qpid => {if qpid = 7 then 0x7000 else 0x3000}) (by simp)).mpr (by
      simp [OwnDomains])
  apply hcovers
  simp [QpCall.Uses, QpCall.qpid, QpCall.pd_entries, host_request]

/-- `allocate_rdma_qp` for the last one of eight queue pairs. -/
theorem last_qp_outside : ¬∀ (rn_dev : RnDev) (axil_ctl : BitVec 64) (num_qp : BitVec 8)
    (winSize : WinSize) (calls : List QpCall),
    (∀ c ∈ calls, 1 ≤ c.qpid.toNat ∧ c.qpid.toNat ≤ num_qp.toNat) →
      TableCovers (create_rdma_dev rn_dev axil_ctl num_qp winSize) calls := by
  intro hclaim
  have hcovers := hclaim ⟨0, 0, 0⟩ 1 8 win_size [.allocate_rdma_qp id (host_request 8 0x8000)]
    (by simp [QpCall.qpid, host_request])
  exact hcovers.calls_inside quiet 0 (fun _ => 0) (by decide)

end reconic.rdma_api
