import RecoNIC.Lifetimes.Log
import RecoNIC.Rdma.QpTable

open lifetimes
open reconic.rdma_buff (BufLocation)

namespace reconic.rdma_api

/-- What the library allocates: single objects, and those of each protection domain and of
each queue pair, in the order of the calls. -/
inductive Object where
  | base_buf
  | rdma_dev
  | glb_csr
  | qps_ptr
  | pd (number : Nat)
  | qp (number : Nat)
  | sq (qp : Nat)
  | cq (qp : Nat)
  | rq (qp : Nat)
  deriving DecidableEq

/-- The pointer in an `rdma_qp_t`. Those to its queues are the objects of its own number. -/
structure QpObject where
  qpid : BitVec 32
  pd_entry : Nat
  deriving DecidableEq

/-- The objects and the pointers to them. A pointer to a queue pair is its number. -/
structure RdmaHeap where
  pds : Nat
  qps : List QpObject
  qps_ptr : List (Option Nat)
  log : Log Object
  deriving DecidableEq

/-- `create_rn_dev` and `create_rdma_dev`. -/
def RdmaHeap.create_rdma_dev (num_qp : BitVec 8) : RdmaHeap where
  pds := 0
  qps := []
  qps_ptr := List.replicate num_qp.toNat none
  log := [.malloc .base_buf, .use .base_buf, .malloc .rdma_dev, .malloc .glb_csr, .use .rdma_dev,
    .malloc .qps_ptr, .use .rdma_dev, .use .qps_ptr]

def RdmaHeap.allocate_rdma_pd (heap : RdmaHeap) : RdmaHeap :=
  { heap with
    pds := heap.pds + 1
    log := heap.log ++ [.malloc (.pd heap.pds), .use (.pd heap.pds), .use .rdma_dev] }

/-- `allocate_rdma_buffer`, which returns a new descriptor. -/
def allocate_buffer_log (buf_location : BufLocation) (buff : Object) : Log Object :=
  .malloc buff :: if buf_location = .host_mem then [.use .base_buf, .use buff] else [.use buff]

/-- `allocate_rdma_qp`, when it does not exit. -/
def RdmaHeap.allocate_rdma_qp (heap : RdmaHeap) (qpid : BitVec 32) (pd_entry : Nat)
    (buf_location : BufLocation) : Except Stop RdmaHeap :=
  let qp := heap.qps.length
  if heap.qps_ptr.length ≤ qpid.toNat then .error .out_of_bounds
  else if heap.pds ≤ pd_entry then .error .null_pointer
  else .ok
    { heap with
      qps := heap.qps ++ [⟨qpid, pd_entry⟩]
      qps_ptr := heap.qps_ptr.set qpid.toNat (some qp)
      log := heap.log ++ [.use .rdma_dev, .malloc (.qp qp), .use (.qp qp), .use .rdma_dev] ++
        allocate_buffer_log buf_location (.sq qp) ++ allocate_buffer_log buf_location (.cq qp) ++
        allocate_buffer_log buf_location (.rq qp) ++ [.use (.qp qp), .use .rdma_dev, .use .qps_ptr,
          .use (.sq qp), .use (.cq qp), .use (.rq qp), .use (.pd pd_entry)] }

/-- `destroy_rdma_qp`. There is no queue pair behind a NULL pointer. -/
def RdmaHeap.destroy_log (heap : RdmaHeap) (qp : Nat) : Log Object :=
  match heap.qps[qp]? with
  | none => []
  | some object =>
    [.use (.qp qp), .use .rdma_dev, .free (.sq qp), .use (.qp qp), .free (.rq qp), .use (.qp qp),
      .free (.cq qp), .use (.qp qp), .free (.pd object.pd_entry)]

def RdmaHeap.destroy_rdma_qp (heap : RdmaHeap) (qp : Nat) : RdmaHeap :=
  { heap with log := heap.log ++ heap.destroy_log qp }

def RdmaHeap.destroy_rdma_dev (heap : RdmaHeap) : RdmaHeap :=
  { heap with
    log := heap.log ++ [.use .rdma_dev, .free .glb_csr] ++
      (heap.qps_ptr.flatMap fun entry =>
        [.use .rdma_dev, .use .qps_ptr] ++ entry.elim [] heap.destroy_log) ++ [.use .rdma_dev] }

def RdmaHeap.destroy_rn_dev (heap : RdmaHeap) : RdmaHeap :=
  RdmaHeap.destroy_rdma_dev { heap with log := heap.log ++ [.free .base_buf] }

/-- The calls that allocate. -/
inductive AllocCall where
  | allocate_rdma_pd
  | allocate_rdma_qp (request : QpRequest) (pd_entry : Nat)

def AllocCall.step (heap : RdmaHeap) : AllocCall → Except Stop RdmaHeap
  | .allocate_rdma_pd => .ok heap.allocate_rdma_pd
  | .allocate_rdma_qp request pd_entry =>
    heap.allocate_rdma_qp request.qpid pd_entry request.buf_location

def allocations (num_qp : BitVec 8) (calls : List AllocCall) : Except Stop RdmaHeap :=
  calls.foldlM AllocCall.step (RdmaHeap.create_rdma_dev num_qp)

/-- The caller destroys some queue pairs, and then the device. -/
def RdmaHeap.teardown (heap : RdmaHeap) (destroys : List Nat) : RdmaHeap :=
  (destroys.foldl RdmaHeap.destroy_rdma_qp heap).destroy_rn_dev

/-- What holds after allocations: an entry of the table points to a queue pair of that id,
and nothing has been freed. -/
structure RdmaHeap.Allocated (heap : RdmaHeap) : Prop where
  entries : ∀ i qp : Nat, heap.qps_ptr[i]? = some (some qp) →
    ∃ object : QpObject, heap.qps[qp]? = some object ∧ object.qpid.toNat = i
  unfreed : ∀ o, .free o ∉ heap.log
  device : .malloc .rdma_dev ∈ heap.log

section Allocations

variable {heap heap' : RdmaHeap}

/-- A new device has an empty table, and nothing has been freed. -/
theorem create_rdma_dev_allocated (num_qp : BitVec 8) :
    (RdmaHeap.create_rdma_dev num_qp).Allocated where
  entries := by
    intro i qp hentry
    simp [RdmaHeap.create_rdma_dev, List.getElem?_replicate] at hentry
  unfreed := by simp [RdmaHeap.create_rdma_dev]
  device := by simp [RdmaHeap.create_rdma_dev]

/-- Allocating a buffer frees nothing. -/
theorem free_notMem_allocate_buffer (buf_location : BufLocation) (buff o : Object) :
    .free o ∉ allocate_buffer_log buf_location buff := by
  simp only [allocate_buffer_log]
  split <;> simp

/-- A call that allocates keeps the table right and frees nothing. -/
theorem RdmaHeap.Allocated.step (hallocated : heap.Allocated) {c : AllocCall}
    (hstep : c.step heap = .ok heap') : heap'.Allocated := by
  cases c with
  | allocate_rdma_pd =>
    cases hstep
    refine ⟨hallocated.entries, fun o => ?_, List.mem_append_left _ hallocated.device⟩
    simp [RdmaHeap.allocate_rdma_pd, hallocated.unfreed o]
  | allocate_rdma_qp request pd_entry =>
    simp only [AllocCall.step, RdmaHeap.allocate_rdma_qp] at hstep
    split at hstep
    · cases hstep
    split at hstep
    · cases hstep
    cases hstep
    refine ⟨fun i qp hentry => ?_, fun o => ?_, ?_⟩
    · rw [List.getElem?_set] at hentry
      split at hentry
      case isTrue hi =>
        split at hentry
        · cases hentry
          exact ⟨_, List.getElem?_concat_length, hi⟩
        · cases hentry
      case isFalse hi =>
        obtain ⟨object, hobject, hqpid⟩ := hallocated.entries i qp hentry
        refine ⟨object, ?_, hqpid⟩
        rw [List.getElem?_append_left (List.getElem?_eq_some_iff.mp hobject).1, hobject]
    · simp [hallocated.unfreed o, free_notMem_allocate_buffer]
    · simp [hallocated.device]

/-- A run that returns has returned from its first call. -/
theorem foldlM_cons_ok {State Call : Type} {step : State → Call → Except Stop State} {c : Call}
    {calls : List Call} {start last : State}
    (hreturned : (c :: calls).foldlM step start = .ok last) :
    ∃ next, step start c = .ok next ∧ calls.foldlM step next = .ok last := by
  rw [List.foldlM_cons] at hreturned
  exact bind_ok hreturned

/-- So does a run of such calls. -/
theorem RdmaHeap.Allocated.run (hallocated : heap.Allocated) {calls : List AllocCall}
    (hreturned : calls.foldlM AllocCall.step heap = .ok heap') : heap'.Allocated := by
  induction calls generalizing heap with
  | nil =>
    cases hreturned
    exact hallocated
  | cons c calls ih =>
    obtain ⟨next, hstep, hrest⟩ := foldlM_cons_ok hreturned
    exact ih (hallocated.step hstep) hrest

/-- After any allocations the table is right and nothing has been freed. -/
theorem allocations_allocated {num_qp : BitVec 8} {calls : List AllocCall}
    (hreturned : allocations num_qp calls = .ok heap) : heap.Allocated :=
  (create_rdma_dev_allocated num_qp).run hreturned

end Allocations

section Devices

variable {heap heap' : RdmaHeap} {rdma_dev rdma_dev' : RdmaDev}

def RdmaHeap.entry_qpid (heap : RdmaHeap) (entry : Option Nat) : Option (BitVec 32) :=
  entry.bind fun qp => heap.qps[qp]?.map QpObject.qpid

/-- The pointers lead to the queue pairs of the device. -/
def RdmaHeap.Follows (heap : RdmaHeap) (rdma_dev : RdmaDev) : Prop :=
  heap.qps_ptr.map heap.entry_qpid = rdma_dev.qps_ptr.map (Option.map QueuePair.qpid)

/-- The device that is created is the one on the heap. -/
theorem create_rdma_dev_follows (rn_dev : rdma_buff.RnDev) (axil_ctl : BitVec 64)
    (num_qp : BitVec 8) (winSize : WinSize) : (RdmaHeap.create_rdma_dev num_qp).Follows
      (create_rdma_dev rn_dev axil_ctl num_qp winSize) := by
  rw [RdmaHeap.Follows, RdmaHeap.create_rdma_dev, create_rdma_dev, List.map_replicate,
    List.map_replicate]
  rfl

/-- A queue pair that is created is stored under its number. -/
theorem create_qp_stores {get_buffer_paddr : BitVec 64 → BitVec 64} {request : QpRequest}
    {qp : QueuePair} (hcreate : rdma_dev.create_qp get_buffer_paddr request = .ok (qp, rdma_dev')) :
    qp.qpid = request.qpid ∧ request.qpid.toNat < rdma_dev.qps_ptr.length ∧
      rdma_dev'.qps_ptr = rdma_dev.qps_ptr.set request.qpid.toNat (some qp) := by
  obtain ⟨sq_dev, cq_dev, rq_dev, hsq, hcq, hrq, hqpid, -, hset⟩ := create_qp_ok hcreate
  obtain ⟨_, -, rfl⟩ := allocate_rdma_buffer_ok hsq
  obtain ⟨_, -, rfl⟩ := allocate_rdma_buffer_ok hcq
  obtain ⟨_, -, rfl⟩ := allocate_rdma_buffer_ok hrq
  obtain ⟨hinside, rfl⟩ := set_qp_ok hset
  exact ⟨hqpid, hinside, rfl⟩

/-- `allocate_rdma_qp` stores a pointer where the device has the queue pair. -/
theorem RdmaHeap.Follows.allocate_rdma_qp (hfollows : heap.Follows rdma_dev)
    (hallocated : heap.Allocated) {get_buffer_paddr : BitVec 64 → BitVec 64} {request : QpRequest}
    {qp : QueuePair} (hcreate : rdma_dev.create_qp get_buffer_paddr request = .ok (qp, rdma_dev'))
    {pd_entry : Nat} (hpd : pd_entry < heap.pds) :
    ∃ heap', heap.allocate_rdma_qp request.qpid pd_entry request.buf_location = .ok heap' ∧
      heap'.Follows rdma_dev' := by
  obtain ⟨hqpid, hinside, hstored⟩ := create_qp_stores hcreate
  have hlength : heap.qps_ptr.length = rdma_dev.qps_ptr.length := by
    have hlengths := congrArg List.length hfollows
    rwa [List.length_map, List.length_map] at hlengths
  refine ⟨_, by rw [RdmaHeap.allocate_rdma_qp, if_neg (by omega), if_neg (by omega)], ?_⟩
  rw [RdmaHeap.Follows, hstored, List.map_set, List.map_set]
  have hnew : ∀ log : Log Object, RdmaHeap.entry_qpid
      ⟨heap.pds, heap.qps ++ [⟨request.qpid, pd_entry⟩],
        heap.qps_ptr.set request.qpid.toNat (some heap.qps.length), log⟩
      (some heap.qps.length) = Option.map QueuePair.qpid (some qp) := by
    intro log
    simp [RdmaHeap.entry_qpid, hqpid]
  have hold : ∀ log : Log Object, heap.qps_ptr.map (RdmaHeap.entry_qpid
      ⟨heap.pds, heap.qps ++ [⟨request.qpid, pd_entry⟩],
        heap.qps_ptr.set request.qpid.toNat (some heap.qps.length), log⟩) =
      rdma_dev.qps_ptr.map (Option.map QueuePair.qpid) := by
    intro log
    rw [← hfollows]
    refine List.map_congr_left fun entry hentry => ?_
    cases entry with
    | none => rfl
    | some old =>
      obtain ⟨i, hi⟩ := List.mem_iff_getElem?.mp hentry
      obtain ⟨object, hobject, -⟩ := hallocated.entries i old hi
      have hlt := (List.getElem?_eq_some_iff.mp hobject).1
      simp [RdmaHeap.entry_qpid, List.getElem?_append_left hlt]
  rw [hnew, hold]

/-- The same call on the device. -/
def AllocCall.device_step (get_buffer_paddr : BitVec 64 → BitVec 64) (rdma_dev : RdmaDev) :
    AllocCall → Except Stop RdmaDev
  | .allocate_rdma_pd => .ok rdma_dev
  | .allocate_rdma_qp request _ => (rdma_dev.create_qp get_buffer_paddr request).map Prod.snd

/-- The heap follows the device from call to call. -/
theorem RdmaHeap.Follows.step (hfollows : heap.Follows rdma_dev) (hallocated : heap.Allocated)
    {get_buffer_paddr : BitVec 64 → BitVec 64} {c : AllocCall} (hstep : c.step heap = .ok heap')
    (hdevice : c.device_step get_buffer_paddr rdma_dev = .ok rdma_dev') :
    heap'.Follows rdma_dev' := by
  cases c with
  | allocate_rdma_pd =>
    cases hstep
    cases hdevice
    exact hfollows
  | allocate_rdma_qp request pd_entry =>
    have hpd : pd_entry < heap.pds := by
      by_contra hmissing
      simp only [AllocCall.step, RdmaHeap.allocate_rdma_qp, if_pos (Nat.not_lt.mp hmissing)] at hstep
      split at hstep <;> cases hstep
    rcases hcreate : rdma_dev.create_qp get_buffer_paddr request with stop | ⟨qp, created⟩
    · rw [AllocCall.device_step, hcreate] at hdevice
      cases hdevice
    · rw [AllocCall.device_step, hcreate] at hdevice
      cases hdevice
      obtain ⟨next, hnext, hagrees⟩ := hfollows.allocate_rdma_qp hallocated hcreate hpd
      rw [AllocCall.step, hnext] at hstep
      cases hstep
      exact hagrees

/-- After the same calls, the pointers lead to the queue pairs of the device. -/
theorem allocations_follow {get_buffer_paddr : BitVec 64 → BitVec 64} (calls : List AllocCall)
    (hfollows : heap.Follows rdma_dev) (hallocated : heap.Allocated)
    (hreturned : calls.foldlM AllocCall.step heap = .ok heap')
    (hdevice : calls.foldlM (AllocCall.device_step get_buffer_paddr) rdma_dev = .ok rdma_dev') :
    heap'.Follows rdma_dev' := by
  induction calls generalizing heap rdma_dev with
  | nil =>
    cases hreturned
    cases hdevice
    exact hfollows
  | cons c calls ih =>
    obtain ⟨next, hstep, hrest⟩ := foldlM_cons_ok hreturned
    obtain ⟨next_dev, hdevice_step, hdevice_rest⟩ := foldlM_cons_ok hdevice
    exact ih (hfollows.step hallocated hstep hdevice_step) (hallocated.step hstep) hrest
      hdevice_rest

/-- The queue pairs of the device are those on the heap. -/
theorem RdmaHeap.Follows.qpids (hfollows : heap.Follows rdma_dev) :
    qpids rdma_dev.qps_ptr =
      heap.qps_ptr.reduceOption.filterMap fun qp => heap.qps[qp]?.map QpObject.qpid := by
  have hboth := congrArg List.reduceOption hfollows
  simp only [List.reduceOption, List.filterMap_map, List.filterMap_filterMap, id] at hboth ⊢
  exact hboth.symm

/-- After the same calls, `destroy_rdma_dev` destroys the queue pairs that its pointers lead to:
the ids of the device are those of the objects, in one order. -/
theorem allocations_qpids {get_buffer_paddr : BitVec 64 → BitVec 64} {num_qp : BitVec 8}
    {calls : List AllocCall} {rn_dev : rdma_buff.RnDev} {axil_ctl : BitVec 64} {winSize : WinSize}
    (hreturned : allocations num_qp calls = .ok heap)
    (hdevice : calls.foldlM (AllocCall.device_step get_buffer_paddr)
      (create_rdma_dev rn_dev axil_ctl num_qp winSize) = .ok rdma_dev) :
    qpids rdma_dev.qps_ptr =
      heap.qps_ptr.reduceOption.filterMap fun qp => heap.qps[qp]?.map QpObject.qpid :=
  (allocations_follow calls (create_rdma_dev_follows rn_dev axil_ctl num_qp winSize)
    (create_rdma_dev_allocated num_qp) hreturned hdevice).qpids

end Devices

section Frees

variable {heap : RdmaHeap}

/-- The queue pairs that are destroyed, by the caller and then from the table. -/
def RdmaHeap.destroyed (heap : RdmaHeap) (destroys : List Nat) : List Nat :=
  destroys ++ heap.qps_ptr.reduceOption

/-- Destroying queue pairs only adds to the log. -/
theorem destroy_qps_log (heap : RdmaHeap) (destroys : List Nat) :
    destroys.foldl RdmaHeap.destroy_rdma_qp heap =
      { heap with log := heap.log ++ destroys.flatMap heap.destroy_log } := by
  induction destroys generalizing heap with
  | nil => simp
  | cons qp destroys ih =>
    have hsame : (heap.destroy_rdma_qp qp).destroy_log = heap.destroy_log := rfl
    rw [List.foldl_cons, ih, hsame, List.flatMap_cons]
    simp only [RdmaHeap.destroy_rdma_qp, List.append_assoc]

/-- What is done to the objects after the allocations. -/
def RdmaHeap.teardown_log (heap : RdmaHeap) (destroys : List Nat) : Log Object :=
  destroys.flatMap heap.destroy_log ++ [.free .base_buf, .use .rdma_dev, .free .glb_csr] ++
    (heap.qps_ptr.flatMap fun entry =>
      [.use .rdma_dev, .use .qps_ptr] ++ entry.elim [] heap.destroy_log) ++ [.use .rdma_dev]

/-- So does the whole teardown. -/
theorem teardown_eq (heap : RdmaHeap) (destroys : List Nat) :
    (heap.teardown destroys).log = heap.log ++ heap.teardown_log destroys := by
  have hsame : ∀ log, RdmaHeap.destroy_log { heap with log := log } = heap.destroy_log :=
    fun _ => rfl
  simp only [RdmaHeap.teardown, destroy_qps_log, RdmaHeap.destroy_rn_dev,
    RdmaHeap.destroy_rdma_dev, RdmaHeap.teardown_log, hsame, List.append_assoc, List.cons_append,
    List.nil_append]

/-- Apart from two objects of the device, only destroying queue pairs frees. -/
theorem frees_teardown (hallocated : heap.Allocated) (destroys : List Nat) (o : Object) :
    frees (heap.teardown destroys).log o =
      frees ((heap.destroyed destroys).flatMap heap.destroy_log) o +
        frees [.free .base_buf, .free .glb_csr] o := by
  have hvisit : Event.free o ∉ [Event.use Object.rdma_dev, Event.use Object.qps_ptr] := by simp
  have htable := frees_flatMap_reduceOption heap.qps_ptr heap.destroy_log hvisit
  have hdevice : frees [.free .base_buf, .use .rdma_dev, .free .glb_csr] o =
      frees [.free .base_buf, .free .glb_csr] o := by
    simp [frees, List.count_cons]
  have hlast : frees [.use .rdma_dev] o = 0 := frees_eq_zero (by simp)
  rw [teardown_eq, frees_append, frees_eq_zero (hallocated.unfreed o), RdmaHeap.teardown_log,
    frees_append, frees_append, frees_append, htable, hdevice, hlast, RdmaHeap.destroyed,
    List.flatMap_append, frees_append]
  omega

/-- The queues of a queue pair are freed when it is destroyed. -/
theorem frees_queue (heap : RdmaHeap) {qp : Nat} (hqp : qp < heap.qps.length) {o : Object}
    (ho : o = .sq qp ∨ o = .cq qp ∨ o = .rq qp) (other : Nat) :
    frees (heap.destroy_log other) o = if other == qp then 1 else 0 := by
  simp only [RdmaHeap.destroy_log]
  split
  case h_1 hnone =>
    have hne : other ≠ qp := by
      rintro rfl
      rw [List.getElem?_eq_none_iff] at hnone
      omega
    simp [frees, hne]
  case h_2 object _ => obtain rfl | rfl | rfl := ho <;> simp [frees, List.count_cons]

/-- So is its protection domain. -/
theorem frees_pd (heap : RdmaHeap) (pd qp : Nat) :
    frees (heap.destroy_log qp) (.pd pd) =
      if (heap.qps[qp]?.map QpObject.pd_entry) == some pd then 1 else 0 := by
  simp only [RdmaHeap.destroy_log]
  split
  case h_1 hnone => simp [frees, hnone]
  case h_2 object hsome => simp [frees, List.count_cons, hsome]

/-- The objects that no call frees. -/
def Object.Kept : Object → Prop
  | .rdma_dev | .qps_ptr | .qp _ => True
  | _ => False

/-- Only what is kept is used when a queue pair is destroyed. -/
theorem use_mem_destroy_log {qp : Nat} {o : Object} (huse : .use o ∈ heap.destroy_log qp) :
    o.Kept := by
  simp only [RdmaHeap.destroy_log] at huse
  split at huse
  · cases huse
  · simp only [List.mem_cons, Event.use.injEq, reduceCtorEq, List.not_mem_nil, false_or,
      or_false] at huse
    obtain rfl | rfl | rfl | rfl | rfl := huse <;> trivial

/-- What is kept is not freed then. -/
theorem free_mem_destroy_log {qp : Nat} {o : Object} (hfree : .free o ∈ heap.destroy_log qp) :
    ¬o.Kept ∧ o ≠ .glb_csr := by
  simp only [RdmaHeap.destroy_log] at hfree
  split at hfree
  · cases hfree
  · simp only [List.mem_cons, Event.free.injEq, reduceCtorEq, List.not_mem_nil, false_or,
      or_false] at hfree
    obtain rfl | rfl | rfl | rfl := hfree <;> exact ⟨id, nofun⟩

/-- An event of the teardown is one of a destroyed queue pair, or one of the device. -/
theorem mem_teardown_log {destroys : List Nat} {event : Event Object}
    (hevent : event ∈ heap.teardown_log destroys) :
    (∃ qp, event ∈ heap.destroy_log qp) ∨
      event ∈ [Event.free Object.base_buf, .free .glb_csr, .use .rdma_dev, .use .qps_ptr] := by
  simp only [RdmaHeap.teardown_log, List.mem_append, List.mem_flatMap] at hevent
  obtain ((⟨qp, -, hqp⟩ | hdevice) | ⟨entry, -, hvisit | hentry⟩) | hlast := hevent
  · exact .inl ⟨qp, hqp⟩
  · right
    simp only [List.mem_cons, List.not_mem_nil, or_false] at hdevice ⊢
    tauto
  · right
    simp only [List.mem_cons, List.not_mem_nil, or_false] at hvisit ⊢
    tauto
  · cases entry with
    | none => cases hentry
    | some qp => exact .inl ⟨qp, hentry⟩
  · right
    rw [List.mem_singleton.mp hlast]
    exact .tail _ (.tail _ (.head _))

/-- So nothing is used that is freed. -/
theorem teardown_apart (heap : RdmaHeap) (destroys : List Nat) (o : Object)
    (hfree : .free o ∈ heap.teardown_log destroys) : .use o ∉ heap.teardown_log destroys := by
  intro huse
  have hkept : o.Kept := by
    obtain ⟨qp, hqp⟩ | hdevice := mem_teardown_log huse
    · exact use_mem_destroy_log hqp
    · simp only [List.mem_cons, Event.use.injEq, reduceCtorEq, List.not_mem_nil, false_or,
        or_false] at hdevice
      obtain rfl | rfl := hdevice <;> trivial
  obtain ⟨qp, hqp⟩ | hdevice := mem_teardown_log hfree
  · exact (free_mem_destroy_log hqp).1 hkept
  · simp only [List.mem_cons, Event.free.injEq, reduceCtorEq, List.not_mem_nil, or_false] at hdevice
    obtain rfl | rfl := hdevice <;> exact hkept

/-- Destroying queue pairs frees none of these objects. -/
theorem frees_destroyed (destroys : List Nat) {o : Object} (ho : o.Kept ∨ o = .glb_csr) :
    frees ((heap.destroyed destroys).flatMap heap.destroy_log) o = 0 := by
  apply frees_eq_zero
  rw [List.mem_flatMap]
  rintro ⟨qp, -, hfree⟩
  obtain ⟨hkept, hne⟩ := free_mem_destroy_log hfree
  exact ho.elim hkept hne

/-- The table holds a queue pair at most once, at its id. -/
theorem RdmaHeap.Allocated.count_table (hallocated : heap.Allocated) {qp : Nat} {object : QpObject}
    (hobject : heap.qps[qp]? = some object) :
    heap.qps_ptr.reduceOption.count qp =
      if heap.qps_ptr[object.qpid.toNat]? = some (some qp) then 1 else 0 := by
  have hplace : ∀ i qp' (object' : QpObject), heap.qps_ptr[i]? = some (some qp') →
      heap.qps[qp']? = some object' → i = object'.qpid.toNat := by
    intro i qp' object' hentry hobject'
    obtain ⟨found, hfound, hqpid⟩ := hallocated.entries i qp' hentry
    rw [hobject'] at hfound
    cases hfound
    exact hqpid.symm
  have hnodup : heap.qps_ptr.reduceOption.Nodup := by
    apply nodup_filterMap_iff.mpr
    rintro i j _ _ found hentry hentry' rfl rfl
    obtain ⟨object', hobject', -⟩ := hallocated.entries i found hentry
    have hfirst := hplace i found object' hentry hobject'
    have hsecond := hplace j found object' hentry' hobject'
    exact hfirst.trans hsecond.symm
  have hmem : qp ∈ heap.qps_ptr.reduceOption ↔
      heap.qps_ptr[object.qpid.toNat]? = some (some qp) := by
    rw [List.reduceOption_mem_iff, List.mem_iff_getElem?]
    constructor
    · rintro ⟨i, hentry⟩
      exact hplace i qp object hentry hobject ▸ hentry
    · exact fun hentry => ⟨_, hentry⟩
  rw [hnodup.count]
  exact if_congr hmem rfl rfl

end Frees

/-- How often the objects are freed, in every session whose calls return. The device, its
table and the queue pairs are not freed. The descriptors of a queue pair are freed by each call
of the caller, and once more when the queue pair is still in the table. A protection domain is
freed as often as all of its queue pairs are. -/
theorem free_counts {num_qp : BitVec 8} {calls : List AllocCall} {heap : RdmaHeap}
    (hreturned : allocations num_qp calls = .ok heap) (destroys : List Nat) :
    let log := (heap.teardown destroys).log
    (∀ o : Object, o.Kept → frees log o = 0) ∧ frees log .glb_csr = 1 ∧
    (∀ qp object, heap.qps[qp]? = some object → ∀ o ∈ [Object.sq qp, .cq qp, .rq qp],
      frees log o = destroys.count qp +
        if heap.qps_ptr[object.qpid.toNat]? = some (some qp) then 1 else 0) ∧
    ∀ pd, frees log (.pd pd) = (heap.destroyed destroys).countP
      fun qp => heap.qps[qp]?.map QpObject.pd_entry == some pd := by
  intro log
  have hallocated := allocations_allocated hreturned
  have htimes : ∀ o, frees log o = _ := frees_teardown hallocated destroys
  refine ⟨fun o ho => ?_, ?_, fun qp object hobject o ho => ?_, fun pd => ?_⟩
  · rw [htimes, frees_destroyed destroys (.inl ho)]
    cases o <;> first | exact ho.elim | rfl
  · rw [htimes, frees_destroyed destroys (.inr rfl)]
    rfl
  · have hqp := (List.getElem?_eq_some_iff.mp hobject).1
    simp only [List.mem_cons, List.not_mem_nil, or_false] at ho
    have hdevice : frees [.free .base_buf, .free .glb_csr] o = 0 := by
      obtain rfl | rfl | rfl := ho <;> rfl
    have hcount : frees ((heap.destroyed destroys).flatMap heap.destroy_log) o =
        (heap.destroyed destroys).count qp :=
      frees_flatMap fun other _ => frees_queue heap hqp ho other
    rw [htimes, hdevice, hcount, Nat.add_zero, RdmaHeap.destroyed, List.count_append,
      hallocated.count_table hobject]
  · rw [htimes, frees_flatMap fun qp _ => frees_pd heap pd qp]
    rfl

/-- Nothing is used after it was freed. -/
theorem teardown_unused {num_qp : BitVec 8} {calls : List AllocCall} {heap : RdmaHeap}
    (hreturned : allocations num_qp calls = .ok heap) (destroys : List Nat) :
    NeverUsedAfterFree (heap.teardown destroys).log := by
  rw [teardown_eq]
  exact neverUsedAfterFree_append (allocations_allocated hreturned).unfreed
    (teardown_apart heap destroys)

/-- In no session are all objects freed exactly once: the device is never freed. -/
theorem never_released_once {num_qp : BitVec 8} {calls : List AllocCall} {heap : RdmaHeap}
    (hreturned : allocations num_qp calls = .ok heap) (destroys : List Nat) :
    ¬ReleasedOnce (· ≠ Object.base_buf) (heap.teardown destroys).log := by
  intro hreleased
  have hmalloc : .malloc .rdma_dev ∈ (heap.teardown destroys).log := by
    rw [teardown_eq]
    exact List.mem_append_left _ (allocations_allocated hreturned).device
  have honce := hreleased.once .rdma_dev nofun hmalloc
  have hnever := (free_counts hreturned destroys).1 .rdma_dev trivial
  rw [hnever] at honce
  cases honce

/-- Two queue pairs of one protection domain. -/
def shared_pd_calls : List AllocCall :=
  [.allocate_rdma_pd, .allocate_rdma_qp (host_request 1 0x5000) 0,
    .allocate_rdma_qp (host_request 2 0x5000) 0]

def shared_pd_heap : RdmaHeap :=
  ((((RdmaHeap.create_rdma_dev 8).allocate_rdma_pd.allocate_rdma_qp 1 0 .host_mem).bind
    fun heap => heap.allocate_rdma_qp 2 0 .host_mem).toOption).getD ⟨0, [], [], []⟩

/-- The caller destroys the first queue pair. -/
theorem shared_pd_never_released :
    ¬ReleasedOnce (· ≠ Object.base_buf) (shared_pd_heap.teardown [0]).log :=
  never_released_once (show allocations 8 shared_pd_calls = .ok shared_pd_heap from rfl) [0]

/-- Its descriptors are freed twice, and the protection domain three times. -/
theorem shared_pd_freed_thrice : ¬∀ (num_qp : BitVec 8) (calls : List AllocCall) (heap : RdmaHeap)
    (destroys : List Nat), allocations num_qp calls = .ok heap →
      ReleasedOnce (· ≠ Object.base_buf) (heap.teardown destroys).log := by
  intro hclaim
  have hreleased := hclaim 8 shared_pd_calls shared_pd_heap [0] rfl
  have honce := hreleased.once (.pd 0) nofun (by decide)
  have hthrice : frees (shared_pd_heap.teardown [0]).log (.pd 0) = 3 := by decide
  rw [hthrice] at honce
  cases honce

end reconic.rdma_api
