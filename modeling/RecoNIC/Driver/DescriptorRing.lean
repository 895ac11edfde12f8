import RecoNIC.Driver.UserPages

open reconic.onic_cdev (SwSg PAGE_SIZE)

namespace reconic.libqdma

def S_H2C_DESC_F_SOP : Nat := 1

def S_H2C_DESC_F_EOP : Nat := 2

def S_H2C_DESC_F_ZERO_CDH : Nat := 13

def EINVAL : Int := 22

def ENXIO : Int := 6

/-- A `qdma_request`. Its `fp_done` is not NULL, and it has `sgcnt` segments. -/
structure qdma_request where
  uld_data : Nat
  count : Nat
  ep_addr : Nat
  sgl : List SwSg
  deriving DecidableEq

/-- A `qdma_sgt_req_cb` with the request it is part of. -/
structure qdma_sgt_req_cb where
  req : qdma_request
  desc_nr : Nat
  offset : Nat
  deriving DecidableEq

structure qdma_h2c_desc where
  cdh_flags : Nat
  pld_len : Nat
  len : Nat
  flags : Nat
  src_addr : Nat
  deriving DecidableEq

/-- A call of a request's `fp_done`, with the bytes done and the error. -/
structure Done where
  req : qdma_request
  bytes_done : Nat
  err : Int
  deriving DecidableEq

/-- A stream queue of the host-to-card direction, without descriptor bypass functions. It is
`online` or only enabled. The index that has been written to the device last is `pidx_info`. Kept
besides is what the device does: the index `desc_cmpl_status->cidx` that it writes back, and the
descriptors it has fetched. -/
structure qdma_descq where
  rngsz : Nat
  desc_bypass : Bool
  polled : Bool
  online : Bool
  q_stop_wait : Bool
  proc_req_running : Bool
  work_list : List qdma_sgt_req_cb
  pend_list : List qdma_sgt_req_cb
  avail : Nat
  pidx : Nat
  cidx : Nat
  credit : Nat
  pidx_info : Nat
  desc : List qdma_h2c_desc
  desc_cmpl_status_cidx : Nat
  fetched : List qdma_h2c_desc
  done : List Done
  deriving DecidableEq

/-- The loop of `qdma_sgl_find_offset` from the segment `i` on, after segments of `len` bytes. -/
def find_offset_from (offset : Nat) : Nat → Nat → List SwSg → Option (Nat × Nat)
  | _, _, [] => none
  | i, len, sg :: sgl =>
    let len := (len + sg.len) % 2 ^ 32
    if len = offset then (if sgl = [] then none else some (i + 1, 0))
    else if len > offset then some (i, (sg.len + 2 ^ 32 - (len - offset)) % 2 ^ 32)
    else find_offset_from offset (i + 1) len sgl

/-- The segment to go on with and the offset in it, if there is one. -/
def qdma_sgl_find_offset (cb : qdma_sgt_req_cb) : Option (Nat × Nat) :=
  if cb.req.count = 0 then some (0, 0) else find_offset_from cb.offset 0 0 cb.req.sgl

/-- The descriptors written for a request are counted. A request with all of its data written
moves from the work list, where it is the first, to the pending list. -/
def qdma_update_request (num_desc data_cnt : Nat) (descq : qdma_descq) : qdma_descq :=
  match descq.work_list with
  | [] => descq
  | cb :: rest =>
    let cb := { cb with
      desc_nr := (cb.desc_nr + num_desc) % 2 ^ 32, offset := (cb.offset + data_cnt) % 2 ^ 32 }
    if cb.offset ≥ cb.req.count then
      { descq with work_list := rest, pend_list := descq.pend_list ++ [cb] }
    else { descq with work_list := cb :: rest }

/-- What is called when a request is done. The error is set when not all of its bytes are. -/
def qdma_sgt_req_done (cb : qdma_sgt_req_cb) : Done :=
  ⟨cb.req, cb.offset, if cb.offset ≠ cb.req.count then -EINVAL else 0⟩

/-- The loop that completes requests of the pending list with the credit. -/
def complete_requests : Nat → List qdma_sgt_req_cb → Nat × List qdma_sgt_req_cb × List Done
  | cr, [] => (cr, [], [])
  | cr, cb :: pend_list =>
    if cr ≥ cb.desc_nr then
      if cr - cb.desc_nr = 0 then (0, pend_list, [qdma_sgt_req_done cb])
      else
        let (cr, pend_list, done) := complete_requests (cr - cb.desc_nr) pend_list
        (cr, pend_list, qdma_sgt_req_done cb :: done)
    else (0, { cb with desc_nr := cb.desc_nr - cr } :: pend_list, [])

/-- The completion status is read. At its end the index is written to the device once more. -/
def descq_mm_n_h2c_cmpl_status (descq : qdma_descq) : qdma_descq :=
  let cidx := descq.cidx
  let cidx_hw := descq.desc_cmpl_status_cidx
  if descq.pidx = cidx then descq
  else if cidx_hw = cidx then descq
  else
    let cr := if cidx_hw < cidx then descq.rngsz - cidx + cidx_hw else cidx_hw - cidx
    let (credit, pend_list, done) := complete_requests (descq.credit + cr) descq.pend_list
    { descq with
      cidx := cidx_hw, avail := descq.avail + cr, credit, pend_list, done := descq.done ++ done }

/-- How many descriptors the device has been given and not fetched. -/
def posted (descq : qdma_descq) : Nat :=
  (descq.pidx_info + descq.rngsz - descq.desc_cmpl_status_cidx) % descq.rngsz

def blank : qdma_h2c_desc := ⟨0, 0, 0, 0, 0⟩

/-- The device fetches descriptors, at most those it has been given, and writes its index
back. -/
def fetch : Nat → qdma_descq → qdma_descq
  | 0, descq => descq
  | n + 1, descq =>
    if posted descq = 0 then descq
    else fetch n { descq with
      fetched := descq.fetched ++ [descq.desc.getD descq.desc_cmpl_status_cidx blank]
      desc_cmpl_status_cidx := (descq.desc_cmpl_status_cidx + 1) % descq.rngsz }

/-- The completion status is polled. The device may have fetched descriptors until then. -/
def descq_poll_mm_n_h2c_cmpl_status (polls : List Nat) (descq : qdma_descq) :
    List Nat × qdma_descq :=
  if descq.polled then
    (polls.tail, descq_mm_n_h2c_cmpl_status (fetch (polls.headD 0) { descq with proc_req_running := true }))
  else (polls, descq)

/-- The ring while descriptors are written to it, and the bytes they have. -/
structure Filling where
  desc : List qdma_h2c_desc
  pidx : Nat
  data_cnt : Nat
  deriving DecidableEq

/-- `desc->flags = 0` and `desc->cdh_flags = 0`. -/
def clear_flags (pidx : Nat) (desc : List qdma_h2c_desc) : List qdma_h2c_desc :=
  desc.set pidx { desc.getD pidx blank with flags := 0, cdh_flags := 0 }

/-- A descriptor is written, and the flags of the next one are cleared unless that is the first
of the ring. -/
def write_desc (rngsz : Nat) (flags : Nat) (src_addr len : Nat) (f : Filling) : Filling :=
  let old := f.desc.getD f.pidx blank
  let desc := f.desc.set f.pidx
    { src_addr, len := len % 2 ^ 16, pld_len := len % 2 ^ 16
      cdh_flags := old.cdh_flags ||| S_H2C_DESC_F_ZERO_CDH, flags := old.flags ||| flags }
  if f.pidx + 1 = rngsz then ⟨desc, 0, f.data_cnt + len⟩
  else ⟨clear_flags (f.pidx + 1) desc, f.pidx + 1, f.data_cnt + len⟩

/-- The loop over a segment: as long as there is room, descriptors of at most `pktsz` bytes. A
segment without bytes has one descriptor. -/
def fill_sg (rngsz pktsz flags : Nat) : Nat → Nat → Nat → Filling → Nat × Filling
  | 0, _, _, f => (0, f)
  | room + 1, tlen, src_addr, f =>
    let len := min tlen pktsz
    let f := write_desc rngsz flags src_addr len f
    if tlen - len = 0 then (room, f) else fill_sg rngsz pktsz flags room (tlen - len) (src_addr + len) f

/-- The flags of the descriptors of a segment, which are set when descriptors are bypassed. -/
def bypass_flags (desc_bypass : Bool) (i sg_max : Nat) : Nat :=
  if desc_bypass then
    (if i = 0 then S_H2C_DESC_F_SOP else 0) ||| (if i = sg_max - 1 then S_H2C_DESC_F_EOP else 0)
  else 0

/-- The loop over the segments from `i` on. -/
def fill (rngsz pktsz : Nat) (desc_bypass : Bool) (sg_max : Nat) :
    Nat → Nat → Nat → List SwSg → Filling → Nat × Filling
  | room, _, _, [], f => (room, f)
  | room, i, sg_offset, sg :: sgl, f =>
    if room = 0 then (room, f)
    else
      let (room, f) := fill_sg rngsz pktsz (bypass_flags desc_bypass i sg_max) room
        (sg.len - sg_offset) (sg.dma_addr + sg_offset) f
      fill rngsz pktsz desc_bypass sg_max room (i + 1) 0 sgl f

def pktsz (req : qdma_request) : Nat :=
  if req.ep_addr ≠ 0 then min (req.ep_addr % 2 ^ 32) PAGE_SIZE else PAGE_SIZE

/-- The loop over the work list, and the number of descriptors written. It need not end: a
request that has no more segments and still bytes to transfer stays the first one. -/
def proc_requests : Nat → List Nat → qdma_descq → Option (List Nat × Nat × qdma_descq)
  | 0, _, _ => none
  | fuel + 1, polls, descq =>
    match descq.work_list with
    | [] => some (polls, 0, descq)
    | cb :: _ =>
      let (polls, descq) :=
        if descq.avail = 0 then descq_poll_mm_n_h2c_cmpl_status polls descq else (polls, descq)
      if descq.avail = 0 then some (polls, 0, descq)
      else
        match qdma_sgl_find_offset cb with
        | none => proc_requests fuel polls (qdma_update_request 0 0 descq)
        | some (i, sg_offset) =>
          let (room, f) := fill descq.rngsz (pktsz cb.req) descq.desc_bypass cb.req.sgl.length
            descq.avail i sg_offset (cb.req.sgl.drop i)
            ⟨clear_flags descq.pidx descq.desc, descq.pidx, 0⟩
          let desc_cnt := descq.avail - room
          let descq := { qdma_update_request desc_cnt f.data_cnt { descq with desc := f.desc } with
            pidx := f.pidx, avail := descq.avail - desc_cnt }
          if desc_cnt = 0 then some (polls, 0, descq)
          else
            (proc_requests fuel polls descq).map fun r => (r.1, r.2.1 + desc_cnt, r.2.2)

/-- More iterations than a loop needs that goes on with a request at each one. -/
def iterations (descq : qdma_descq) : Nat :=
  (descq.work_list.map fun cb => (cb.req.sgl.map fun sg => sg.len + 1).sum + 1).sum + 1

/-- The requests of the work list are processed, and the index is written to the device. It does
not return when the loop over the work list does not end. -/
def descq_proc_st_h2c_request (polls : List Nat) (descq : qdma_descq) : Option qdma_descq :=
  if descq.q_stop_wait then some (descq_mm_n_h2c_cmpl_status descq)
  else if ¬ descq.online then some descq
  else if descq.proc_req_running then some descq
  else
    let (polls, descq) := descq_poll_mm_n_h2c_cmpl_status polls descq
    (proc_requests (iterations descq) polls descq).map fun r =>
      let descq := r.2.2
      let descq :=
        if r.2.1 ≠ 0 then
          (descq_poll_mm_n_h2c_cmpl_status r.1 { descq with pidx_info := descq.pidx }).2
        else descq
      { descq with proc_req_running := false }

/-- `qdma_work_queue_add` of a request. -/
def qdma_work_queue_add (req : qdma_request) (descq : qdma_descq) : qdma_descq :=
  { descq with work_list := descq.work_list ++ [⟨req, 0, 0⟩] }

/-- The ring, its indices and the context in the device as `qdma_descq_config_complete`,
`qdma_descq_alloc_resource` and `qdma_descq_prog_hw` leave them. -/
def reset_ring (descq : qdma_descq) : qdma_descq :=
  { descq with
    avail := descq.rngsz - 1
    pidx := 0
    cidx := 0
    credit := 0
    pidx_info := 0
    desc := List.replicate descq.rngsz blank
    desc_cmpl_status_cidx := 0 }

/-- `qdma_queue_start` of a queue for which everything can be allocated. -/
def qdma_queue_start (descq : qdma_descq) : qdma_descq :=
  if descq.online then descq else { reset_ring descq with online := true }

/-- The first half of `qdma_queue_stop`, after which it waits for the pending requests. -/
def stop_wait (descq : qdma_descq) : qdma_descq :=
  if descq.online then { descq with q_stop_wait := true } else descq

/-- Its second half, with or without a time-out of the wait: the requests that are left come to
an end with an error, and the ring is freed. -/
def stop_requests (descq : qdma_descq) : qdma_descq :=
  { descq with
    online := false
    q_stop_wait := false
    pend_list := []
    work_list := []
    desc := []
    done := descq.done ++
      (descq.pend_list ++ descq.work_list).map fun cb => ⟨cb.req, 0, - ENXIO⟩ }

/-- What happens to a queue up to the second half of `qdma_queue_stop`: it is started, a request
is added, the requests are processed, with the device as far at each poll as given, the
completion status is read, the device fetches descriptors, and the queue begins to stop. -/
inductive Event where
  | qdma_queue_start
  | qdma_work_queue_add (req : qdma_request)
  | descq_proc_st_h2c_request (polls : List Nat)
  | descq_mm_n_h2c_cmpl_status
  | fetch (n : Nat)
  | stop_wait
  deriving DecidableEq

/-- The calls come one after the other, also those of `qdma_work_queue_add`, which does not take
the lock of the queue. -/
def step (descq : qdma_descq) : Event → Option qdma_descq
  | .qdma_queue_start => some (libqdma.qdma_queue_start descq)
  | .qdma_work_queue_add req => some (libqdma.qdma_work_queue_add req descq)
  | .descq_proc_st_h2c_request polls => libqdma.descq_proc_st_h2c_request polls descq
  | .descq_mm_n_h2c_cmpl_status => some (libqdma.descq_mm_n_h2c_cmpl_status descq)
  | .fetch n => some (libqdma.fetch n descq)
  | .stop_wait => some (libqdma.stop_wait descq)

/-- The queue after events, unless one of them does not come to an end. -/
def run (descq : qdma_descq) (events : List Event) : Option qdma_descq :=
  events.foldlM step descq

/-- A queue that has been added and is not started yet. Its ring and indices, which nothing looks
at before, are as for a queue that is started. -/
def init (rngsz : Nat) (desc_bypass polled : Bool) : qdma_descq :=
  ⟨rngsz, desc_bypass, polled, false, false, false, [], [], rngsz - 1, 0, 0, 0, 0,
    List.replicate rngsz blank, 0, [], []⟩

/-- The requests that events add. -/
def added (events : List Event) : List qdma_request :=
  events.filterMap fun
    | .qdma_work_queue_add req => some req
    | _ => none

end reconic.libqdma
