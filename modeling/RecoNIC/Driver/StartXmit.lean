import RecoNIC.Driver.UserPages

open reconic.onic_cdev

namespace reconic.onic_main

def QDMA_NET_QUEUE : Nat := 64

def NETDEV_TX_OK : Int := 0

def NETDEV_TX_BUSY : Int := 16

/-- The address that a DMA mapping returns when it fails. -/
def DMA_MAPPING_ERROR : Nat := 2 ^ 64 - 1

/-- What the driver reads of an `sk_buff`. The fragments are given by their sizes. -/
structure SkBuff where
  headlen : Nat
  frags : List Nat
  queue_mapping : Nat
  gso : Bool
  deriving DecidableEq

def SkBuff.len (skb : SkBuff) : Nat := skb.headlen + skb.frags.sum

/-- What the driver reads of a `net_device`, and whether `netdev_priv` is not NULL. -/
structure NetDevice where
  priv : Bool
  carrier_ok : Bool
  real_num_tx_queues : Nat
  deriving DecidableEq

/-- A `qdma_request` of the transmit path. Its `uld_data` is NULL or points to the
`onic_dma_request` that the request is part of, and its `fp_done` to `onic_tx_done`. -/
structure QdmaRequest where
  uld_data : Bool
  fp_done : Bool
  count : Nat
  dma_mapped : Bool
  check_qstate_disabled : Bool
  sgcnt : Nat
  sgl : List SwSg
  deriving DecidableEq

structure OnicDmaRequest where
  skb : Option SkBuff
  netdev : Option NetDevice
  qdma : QdmaRequest
  deriving DecidableEq

/-- The statistics of a queue, of `rtnl_link_stats64`. -/
structure TxStats where
  tx_packets : Nat
  tx_bytes : Nat
  tx_dropped : Nat
  deriving DecidableEq

/-- What the kernel and QDMA answer: the padded buffer, unless padding fails, whether a
request can be allocated, the address of each mapping, and the result of the write. -/
structure Answers where
  skb_put_padto : Option SkBuff
  kmem_cache_zalloc : Bool
  dma_addr : Nat → Nat
  qdma_queue_packet_write : Int

/-- What is done to the buffer, its mappings and the request. A write behind `sgl` is an
`overrun`: another object lies there, and what the two then hold is not known. -/
inductive Action where
  | overrun
  | free_skb
  | map (dma_addr len : Nat)
  | unmap (dma_addr len : Nat)
  | alloc_request
  | free_request
  deriving DecidableEq

def dma_mapping_error (dma_addr : Nat) : Bool := dma_addr == DMA_MAPPING_ERROR

/-- The loop of `onic_unmap_free_pkt_data`, from a segment of the scatter list on. -/
def unmap_frags (sgl : List SwSg) : Option Nat → List Nat → List Action
  | some i, size :: frags =>
    match sgl[i]? with
    | none => []
    | some sg => .unmap sg.dma_addr size :: unmap_frags sgl sg.next frags
  | _, _ => []

def onic_unmap_free_pkt_data (req : OnicDmaRequest) : Int × List Action :=
  if !req.qdma.uld_data then (-EINVAL, [])
  else
    match req.netdev with
    | none => (-EINVAL, [])
    | some netdev =>
      if !netdev.priv then (-EINVAL, [])
      else
        match req.skb with
        | none => (-EINVAL, [])
        | some skb =>
          let head := req.qdma.sgl.getD 0 ⟨none, 0, 0, 0, 0⟩
          (0, .unmap head.dma_addr skb.headlen ::
            (unmap_frags req.qdma.sgl head.next skb.frags ++ [.free_skb, .free_request]))

def onic_tx_done (req : OnicDmaRequest) : Int × List Action := (0, (onic_unmap_free_pkt_data req).2)

/-- The next segment of the scatter list: the last one so far is linked to it. -/
def QdmaRequest.next_segment (req : QdmaRequest) (size dma_addr : Nat) : QdmaRequest :=
  { req with
    sgl := req.sgl.modify (req.sgl.length - 1) (fun sg => { sg with next := some req.sgl.length }) ++
      [⟨none, 0, 0, size, dma_addr⟩]
    count := (req.count + size) % 2 ^ 32 }

/-- Element `i` of an `onic_dma_request`'s `sgl[MAX_SKB_FRAGS]` is written. -/
def write_element (MAX_SKB_FRAGS i : Nat) : List Action :=
  if i < MAX_SKB_FRAGS then [] else [.overrun]

/-- The loop over the fragments, from `frag_index` on: whether all are mapped. -/
def map_frags (MAX_SKB_FRAGS : Nat) (answers : Answers) :
    Nat → List Nat → QdmaRequest → Bool × QdmaRequest × List Action
  | _, [], req => (true, req, [])
  | frag_index, size :: frags, req =>
    let dma_addr := answers.dma_addr (frag_index + 1)
    let actions := write_element MAX_SKB_FRAGS req.sgl.length ++ [.map dma_addr size]
    let req := req.next_segment size dma_addr
    if dma_mapping_error dma_addr then (false, req, actions)
    else
      let rest := map_frags MAX_SKB_FRAGS answers (frag_index + 1) frags
        { req with sgcnt := req.sgcnt + 1 }
      (rest.1, rest.2.1, actions ++ rest.2.2)

/-- `onic_start_xmit` from the allocated request to the end of the loop. -/
def map_skb (MAX_SKB_FRAGS : Nat) (skb : SkBuff) (answers : Answers) :
    Bool × QdmaRequest × List Action :=
  let dma_addr := answers.dma_addr 0
  let actions := write_element MAX_SKB_FRAGS 0 ++ [.map dma_addr skb.headlen]
  let req : QdmaRequest :=
    { uld_data := false
      fp_done := false
      count := skb.headlen
      dma_mapped := false
      check_qstate_disabled := false
      sgcnt := 0
      sgl := [⟨none, 0, 0, skb.headlen, dma_addr⟩] }
  if dma_mapping_error dma_addr then (false, req, actions)
  else
    let rest := map_frags MAX_SKB_FRAGS answers 0 skb.frags { req with sgcnt := req.sgcnt + 1 }
    (rest.1, rest.2.1, actions ++ rest.2.2)

/-- The exit `free_packet_data`. -/
def free_packet_data (req : OnicDmaRequest) : List Action :=
  let freed := onic_unmap_free_pkt_data req
  if freed.1 ≠ 0 then freed.2 ++ [.free_request] else freed.2

/-- A call of `onic_start_xmit`: its result, the statistics, what it has done, and the
request that QDMA has accepted. -/
structure Xmit where
  ret : Int
  tx_qstats : List TxStats
  actions : List Action
  handed : Option OnicDmaRequest
  deriving DecidableEq

/-- `onic_start_xmit` for a padded buffer, from the allocated request on. -/
def xmit_request (MAX_SKB_FRAGS : Nat) (skb : SkBuff) (netdev : NetDevice)
    (tx_qstats : List TxStats) (answers : Answers) : Xmit :=
  let q_id := skb.queue_mapping
  let mapping := map_skb MAX_SKB_FRAGS skb answers
  let onic_req : OnicDmaRequest := ⟨some skb, some netdev, mapping.2.1⟩
  let dropped := tx_qstats.modify q_id fun stats => { stats with tx_dropped := stats.tx_dropped + 1 }
  if !mapping.1 then
    ⟨-EFAULT, dropped, .alloc_request :: (mapping.2.2 ++ free_packet_data onic_req), none⟩
  else
    let onic_req : OnicDmaRequest :=
      { onic_req with
        qdma := { onic_req.qdma with
          dma_mapped := true
          check_qstate_disabled := true
          fp_done := true
          uld_data := true } }
    let count := answers.qdma_queue_packet_write
    if count < 0 then
      ⟨count, dropped, .alloc_request :: (mapping.2.2 ++ free_packet_data onic_req), none⟩
    else
      ⟨NETDEV_TX_OK,
        tx_qstats.modify q_id fun stats =>
          { stats with tx_packets := stats.tx_packets + 1, tx_bytes := stats.tx_bytes + skb.len },
        .alloc_request :: mapping.2.2, some onic_req⟩

def onic_start_xmit (MAX_SKB_FRAGS : Nat) (skb : SkBuff) (netdev : NetDevice)
    (tx_qstats : List TxStats) (answers : Answers) : Xmit :=
  if !netdev.priv then ⟨-EINVAL, tx_qstats, [], none⟩
  else if !netdev.carrier_ok then ⟨-EINVAL, tx_qstats, [.free_skb], none⟩
  else if skb.gso then ⟨-EINVAL, tx_qstats, [], none⟩
  else
    match answers.skb_put_padto with
    | none =>
      -- the kernel has freed the buffer, and the driver frees it again
      ⟨-EINVAL, tx_qstats, [.free_skb, .free_skb], none⟩
    | some skb =>
      if netdev.real_num_tx_queues ≤ skb.queue_mapping then ⟨-EINVAL, tx_qstats, [.free_skb], none⟩
      else if QDMA_NET_QUEUE ≤ skb.queue_mapping then ⟨0, tx_qstats, [], none⟩
      else if !answers.kmem_cache_zalloc then ⟨-ENOMEM, tx_qstats, [], none⟩
      else xmit_request MAX_SKB_FRAGS skb netdev tx_qstats answers

/-- What is done in the end: QDMA calls `onic_tx_done` once for a request that it has
accepted. -/
def Xmit.transmission (x : Xmit) : List Action :=
  x.actions ++
    match x.handed with
    | none => []
    | some req => (onic_tx_done req).2

/-- The mappings that have succeeded. -/
def mapped (actions : List Action) : List (Nat × Nat) :=
  actions.filterMap fun
    | .map dma_addr len => if dma_mapping_error dma_addr then none else some (dma_addr, len)
    | _ => none

def unmapped (actions : List Action) : List (Nat × Nat) :=
  actions.filterMap fun
    | .unmap dma_addr len => some (dma_addr, len)
    | _ => none

/-- The buffer is freed once, the successful mappings and no others are unmapped, each
once, and so is a request that has been allocated freed. That is known only without a write
behind the scatter list. -/
structure Accounted (actions : List Action) : Prop where
  inside : .overrun ∉ actions
  skb : actions.count .free_skb = 1
  mappings : (unmapped actions).Perm (mapped actions)
  failed : ∀ len, .unmap DMA_MAPPING_ERROR len ∉ actions
  request : actions.count .free_request = actions.count .alloc_request

/-- The calls that leave `onic_start_xmit` by an exit that accounts for everything. -/
def CleanExit (MAX_SKB_FRAGS : Nat) (skb : SkBuff) (netdev : NetDevice) (answers : Answers) : Prop :=
  netdev.priv = true ∧ (netdev.carrier_ok = false ∨
    skb.gso = false ∧ ∃ padded, answers.skb_put_padto = some padded ∧
      (netdev.real_num_tx_queues ≤ padded.queue_mapping ∨
        padded.queue_mapping < QDMA_NET_QUEUE ∧ answers.kmem_cache_zalloc = true ∧
          padded.frags.length < MAX_SKB_FRAGS ∧
          ∀ k ≤ padded.frags.length, dma_mapping_error (answers.dma_addr k) = false))

/-- The unmapping of a mapping. -/
def Action.undo : Action → Action
  | .map dma_addr len => .unmap dma_addr len
  | action => action

/-- The unmapping of all of them, and the release of the buffer and the request. -/
def undoing (maps : List Action) : List Action :=
  maps.map Action.undo ++ [Action.free_skb, Action.free_request]

/-- A successful mapping. -/
def Action.Maps (action : Action) : Prop :=
  ∃ dma_addr len, action = .map dma_addr len ∧ dma_mapping_error dma_addr = false

section Transmission

variable {MAX_SKB_FRAGS : Nat}

/-- The request is sent or an error is returned. -/
theorem xmit_request_ret_le (skb : SkBuff) (netdev : NetDevice) (tx_qstats : List TxStats)
    (answers : Answers) : (xmit_request MAX_SKB_FRAGS skb netdev tx_qstats answers).ret ≤ 0 := by
  cases hmapped : (map_skb MAX_SKB_FRAGS skb answers).1 with
  | false => simp [xmit_request, hmapped, EFAULT]
  | true =>
    by_cases hwrite : answers.qdma_queue_packet_write < 0
    · simp only [xmit_request, hmapped, Bool.not_true, Bool.false_eq_true, if_false, hwrite, if_true]
      exact Int.le_of_lt hwrite
    · simp [xmit_request, hmapped, hwrite, NETDEV_TX_OK]

/-- The stack never gets the buffer back to send it again. -/
theorem onic_start_xmit_not_busy (skb : SkBuff) (netdev : NetDevice) (tx_qstats : List TxStats)
    (answers : Answers) :
    (onic_start_xmit MAX_SKB_FRAGS skb netdev tx_qstats answers).ret ≠ NETDEV_TX_BUSY := by
  suffices hle : (onic_start_xmit MAX_SKB_FRAGS skb netdev tx_qstats answers).ret ≤ 0 by
    intro hbusy
    rw [hbusy] at hle
    exact absurd hle (by decide)
  have hrequest : ∀ padded, (xmit_request MAX_SKB_FRAGS padded netdev tx_qstats answers).ret ≤ 0 :=
    fun padded => xmit_request_ret_le padded netdev tx_qstats answers
  simp only [onic_start_xmit, EINVAL, ENOMEM]
  repeat' split
  all_goals first | exact hrequest _ | simp

/-- A segment is appended. -/
theorem next_segment_length (req : QdmaRequest) (size dma_addr : Nat) :
    (req.next_segment size dma_addr).sgl.length = req.sgl.length + 1 := by
  simp [QdmaRequest.next_segment]

/-- It ends the list. -/
theorem next_segment_new (req : QdmaRequest) (size dma_addr : Nat) :
    (req.next_segment size dma_addr).sgl[req.sgl.length]? = some ⟨none, 0, 0, size, dma_addr⟩ := by
  simp [QdmaRequest.next_segment]

/-- The element before points to it. -/
theorem next_segment_last {req : QdmaRequest} {size dma_addr i : Nat} {sg : SwSg}
    (hlength : req.sgl.length = i + 1) (hlast : req.sgl[i]? = some sg) :
    (req.next_segment size dma_addr).sgl[i]? = some { sg with next := some (i + 1) } := by
  simp only [QdmaRequest.next_segment, hlength]
  rw [List.getElem?_append_left (by simp [hlength]), Nat.add_sub_cancel, List.getElem?_modify_eq, hlast]
  rfl

/-- The elements before that one stay as they are. -/
theorem next_segment_before {req : QdmaRequest} {size dma_addr i j : Nat}
    (hlength : req.sgl.length = i + 1) (hj : j < i) :
    (req.next_segment size dma_addr).sgl[j]? = req.sgl[j]? := by
  have hother : i ≠ j := by omega
  have hin : j < i + 1 := by omega
  simp only [QdmaRequest.next_segment, hlength]
  rw [List.getElem?_append_left (by simp [hlength, hin]), Nat.add_sub_cancel,
    List.getElem?_modify_ne _ _ hother]

/-- The loop maps all fragments when none of their mappings fails. -/
theorem map_frags_mapped_iff (answers : Answers) (frag_index : Nat) (frags : List Nat)
    (req : QdmaRequest) :
    (map_frags MAX_SKB_FRAGS answers frag_index frags req).1 = true ↔
      ∀ k, frag_index < k → k ≤ frag_index + frags.length →
        dma_mapping_error (answers.dma_addr k) = false := by
  induction frags generalizing frag_index req with
  | nil =>
    refine iff_of_true rfl fun k hlt hle => ?_
    simp only [List.length_nil] at hle
    omega
  | cons size frags ih =>
    cases herror : dma_mapping_error (answers.dma_addr (frag_index + 1)) with
    | true =>
      simp only [map_frags, herror, if_true]
      refine iff_of_false (by simp) fun hall => ?_
      have hnone := hall (frag_index + 1) (by omega) (by simp only [List.length_cons]; omega)
      simp [herror] at hnone
    | false =>
      simp only [map_frags, herror, Bool.false_eq_true, if_false, ih, List.length_cons]
      constructor
      · intro hall k hlt hle
        by_cases hfirst : k = frag_index + 1
        · rw [hfirst, herror]
        · exact hall k (by omega) (by omega)
      · intro hall k hlt hle
        exact hall k (by omega) (by omega)

/-- To list a segment is to write its element and to map it. -/
def Action.Lists (action : Action) : Prop :=
  action = .overrun ∨ ∃ dma_addr len, action = .map dma_addr len

/-- An element of the array may be written. -/
theorem write_element_inside {i : Nat} (hinside : i < MAX_SKB_FRAGS) :
    write_element MAX_SKB_FRAGS i = [] := if_pos hinside

/-- An element is written before its segment is mapped. -/
theorem write_element_lists (i dma_addr len : Nat) :
    ∀ action ∈ write_element MAX_SKB_FRAGS i ++ [.map dma_addr len], action.Lists := by
  intro action haction
  rcases List.mem_append.mp haction with hwrite | hmap
  · rw [write_element] at hwrite
    split at hwrite
    · cases hwrite
    · exact .inl (List.mem_singleton.mp hwrite)
  · exact .inr ⟨dma_addr, len, List.mem_singleton.mp hmap⟩

/-- What the loop does is to list segments. -/
theorem map_frags_actions (answers : Answers) (frag_index : Nat) (frags : List Nat)
    (req : QdmaRequest) :
    ∀ action ∈ (map_frags MAX_SKB_FRAGS answers frag_index frags req).2.2, action.Lists := by
  induction frags generalizing frag_index req with
  | nil => simp [map_frags]
  | cons size frags ih =>
    intro action haction
    cases herror : dma_mapping_error (answers.dma_addr (frag_index + 1)) with
    | true =>
      simp only [map_frags, herror, if_true] at haction
      exact write_element_lists _ _ _ action haction
    | false =>
      simp only [map_frags, herror, Bool.false_eq_true, if_false] at haction
      rcases List.mem_append.mp haction with hfirst | hrest
      · exact write_element_lists _ _ _ action hfirst
      · exact ih _ _ _ hrest

/-- A loop that lists more segments than there are elements writes behind these. -/
theorem map_frags_overrun {answers : Answers} {frag_index : Nat} {frags : List Nat}
    {req : QdmaRequest} (hinside : req.sgl.length ≤ MAX_SKB_FRAGS)
    (hmore : MAX_SKB_FRAGS < req.sgl.length + frags.length)
    (hmapped : (map_frags MAX_SKB_FRAGS answers frag_index frags req).1 = true) :
    .overrun ∈ (map_frags MAX_SKB_FRAGS answers frag_index frags req).2.2 := by
  induction frags generalizing frag_index req with
  | nil =>
    rw [List.length_nil] at hmore
    omega
  | cons size frags ih =>
    rw [List.length_cons] at hmore
    cases herror : dma_mapping_error (answers.dma_addr (frag_index + 1)) with
    | true => simp [map_frags, herror] at hmapped
    | false =>
      simp only [map_frags, herror, Bool.false_eq_true, if_false] at hmapped ⊢
      by_cases hlast : req.sgl.length = MAX_SKB_FRAGS
      · simp [write_element, hlast]
      · have hlength := next_segment_length req size (answers.dma_addr (frag_index + 1))
        refine List.mem_append_right _ (ih ?_ ?_ hmapped)
        · dsimp only
          omega
        · dsimp only
          omega

/-- When it maps all fragments, each of its mappings has succeeded, and the scatter list
that it leaves leads the loop of `onic_unmap_free_pkt_data` to exactly these mappings. -/
theorem map_frags_chain {answers : Answers} {i : Nat} {frags : List Nat} {req : QdmaRequest} {sg : SwSg}
    (hlength : req.sgl.length = i + 1) (hlast : req.sgl[i]? = some sg) (hend : sg.next = none)
    (hinside : i + frags.length < MAX_SKB_FRAGS)
    (hmapped : (map_frags MAX_SKB_FRAGS answers i frags req).1 = true) :
    (∀ j < i, (map_frags MAX_SKB_FRAGS answers i frags req).2.1.sgl[j]? = req.sgl[j]?) ∧
      (∀ action ∈ (map_frags MAX_SKB_FRAGS answers i frags req).2.2, action.Maps) ∧
      ∃ next, (map_frags MAX_SKB_FRAGS answers i frags req).2.1.sgl[i]? = some { sg with next := next } ∧
        unmap_frags (map_frags MAX_SKB_FRAGS answers i frags req).2.1.sgl next frags =
          (map_frags MAX_SKB_FRAGS answers i frags req).2.2.map Action.undo := by
  induction frags generalizing i req sg with
  | nil =>
    refine ⟨fun j hj => rfl, by simp [map_frags], none, ?_, rfl⟩
    rw [← hend]
    exact hlast
  | cons size frags ih =>
    rw [List.length_cons] at hinside
    cases herror : dma_mapping_error (answers.dma_addr (i + 1)) with
    | true => simp [map_frags, herror] at hmapped
    | false =>
      have helement : write_element MAX_SKB_FRAGS req.sgl.length = [] :=
        write_element_inside (by omega)
      simp only [map_frags, herror, Bool.false_eq_true, if_false, helement, List.nil_append,
        List.singleton_append] at hmapped ⊢
      have hnew := next_segment_new req size (answers.dma_addr (i + 1))
      have hlength' := next_segment_length req size (answers.dma_addr (i + 1))
      rw [hlength] at hnew hlength'
      obtain ⟨hbefore, hmaps, next, hsegment, hunmap⟩ :=
        @ih _ { req.next_segment size (answers.dma_addr (i + 1)) with
          sgcnt := (req.next_segment size (answers.dma_addr (i + 1))).sgcnt + 1 } _ hlength' hnew rfl
          (by omega) hmapped
      refine ⟨fun j hj => ?_, ?_, some (i + 1), ?_, ?_⟩
      · rw [hbefore j (by omega)]
        exact next_segment_before hlength hj
      · intro action haction
        obtain rfl | hrest := List.mem_cons.mp haction
        · exact ⟨_, _, rfl, herror⟩
        · exact hmaps action hrest
      · rw [hbefore i (by omega)]
        exact next_segment_last hlength hlast
      · simp only [unmap_frags, hsegment, hunmap, List.map_cons, Action.undo]

/-- The loop does not fill in `uld_data`. -/
theorem map_frags_uld_data (answers : Answers) (frag_index : Nat) (frags : List Nat)
    (req : QdmaRequest) :
    (map_frags MAX_SKB_FRAGS answers frag_index frags req).2.1.uld_data = req.uld_data := by
  induction frags generalizing frag_index req with
  | nil => rfl
  | cons size frags ih =>
    simp only [map_frags]
    split
    · rfl
    · exact ih _ _

/-- So it is NULL when a mapping fails. -/
theorem map_skb_uld_data (skb : SkBuff) (answers : Answers) :
    (map_skb MAX_SKB_FRAGS skb answers).2.1.uld_data = false := by
  simp only [map_skb]
  split
  · rfl
  · exact map_frags_uld_data ..

/-- All is mapped when no mapping fails. -/
theorem map_skb_mapped_iff (skb : SkBuff) (answers : Answers) :
    (map_skb MAX_SKB_FRAGS skb answers).1 = true ↔
      ∀ k ≤ skb.frags.length, dma_mapping_error (answers.dma_addr k) = false := by
  cases herror : dma_mapping_error (answers.dma_addr 0) with
  | true =>
    simp only [map_skb, herror, if_true]
    refine iff_of_false (by simp) fun hall => ?_
    have hnone := hall 0 (Nat.zero_le _)
    simp [herror] at hnone
  | false =>
    simp only [map_skb, herror, Bool.false_eq_true, if_false, map_frags_mapped_iff, Nat.zero_add]
    constructor
    · intro hall k hle
      by_cases hfirst : k = 0
      · rw [hfirst, herror]
      · exact hall k (by omega) hle
    · exact fun hall k _ hle => hall k hle

/-- Up to the end of the loop nothing is done but to list segments. -/
theorem map_skb_actions (skb : SkBuff) (answers : Answers) :
    ∀ action ∈ (map_skb MAX_SKB_FRAGS skb answers).2.2, action.Lists := by
  intro action haction
  simp only [map_skb] at haction
  split at haction
  · exact write_element_lists _ _ _ action haction
  · rcases List.mem_append.mp haction with hfirst | hrest
    · exact write_element_lists _ _ _ action hfirst
    · exact map_frags_actions _ _ _ _ _ hrest

/-- To list segments is to do nothing else. -/
theorem map_skb_count (skb : SkBuff) (answers : Answers) {action : Action}
    (hother : ¬action.Lists) : (map_skb MAX_SKB_FRAGS skb answers).2.2.count action = 0 :=
  List.count_eq_zero.mpr fun hmem => hother (map_skb_actions skb answers action hmem)

/-- The request does not point back to the `onic_dma_request` yet, so it alone is freed. -/
theorem free_packet_data_mapped (skb : SkBuff) (netdev : NetDevice) (answers : Answers) :
    free_packet_data ⟨some skb, some netdev, (map_skb MAX_SKB_FRAGS skb answers).2.1⟩ =
      [.free_request] := by
  simp [free_packet_data, onic_unmap_free_pkt_data, map_skb_uld_data, EINVAL]

/-- A buffer with too many fragments is written behind the scatter list. -/
theorem map_skb_overrun {skb : SkBuff} {answers : Answers}
    (hmore : MAX_SKB_FRAGS ≤ skb.frags.length)
    (hmapped : (map_skb MAX_SKB_FRAGS skb answers).1 = true) :
    .overrun ∈ (map_skb MAX_SKB_FRAGS skb answers).2.2 := by
  cases herror : dma_mapping_error (answers.dma_addr 0) with
  | true => simp [map_skb, herror] at hmapped
  | false =>
    simp only [map_skb, herror, Bool.false_eq_true, if_false] at hmapped ⊢
    by_cases hnone : MAX_SKB_FRAGS = 0
    · simp [write_element, hnone]
    · refine List.mem_append_right _ (map_frags_overrun ?_ ?_ hmapped)
      · simp only [List.length_singleton]
        omega
      · simp only [List.length_singleton]
        omega

/-- A buffer that has been mapped whole, inside the scatter list, is unmapped whole, once its
request points back to the `onic_dma_request`. -/
theorem map_skb_undone {skb : SkBuff} {answers : Answers} (netdev : NetDevice) (req : QdmaRequest)
    (hpriv : netdev.priv = true) (hinside : skb.frags.length < MAX_SKB_FRAGS)
    (hmapped : (map_skb MAX_SKB_FRAGS skb answers).1 = true)
    (hsgl : req.sgl = (map_skb MAX_SKB_FRAGS skb answers).2.1.sgl) (huld : req.uld_data = true) :
    (∀ action ∈ (map_skb MAX_SKB_FRAGS skb answers).2.2, action.Maps) ∧
      onic_unmap_free_pkt_data ⟨some skb, some netdev, req⟩ =
        (0, undoing (map_skb MAX_SKB_FRAGS skb answers).2.2) := by
  have helement : write_element MAX_SKB_FRAGS 0 = [] := write_element_inside (by omega)
  cases herror : dma_mapping_error (answers.dma_addr 0) with
  | true => simp [map_skb, herror] at hmapped
  | false =>
    simp only [map_skb, herror, Bool.false_eq_true, if_false, helement, List.nil_append,
      List.singleton_append] at hmapped hsgl ⊢
    obtain ⟨-, hmaps, next, hhead, hunmap⟩ :=
      map_frags_chain (i := 0) rfl rfl rfl (by rwa [Nat.zero_add]) hmapped
    refine ⟨fun action haction => ?_, ?_⟩
    · obtain rfl | hrest := List.mem_cons.mp haction
      · exact ⟨_, _, rfl, herror⟩
      · exact hmaps action hrest
    · simp only [onic_unmap_free_pkt_data, huld, hpriv, Bool.not_true, Bool.false_eq_true, if_false,
        List.getD_eq_getElem?_getD, hsgl, hhead, Option.getD_some, hunmap, undoing, List.map_cons,
        Action.undo, List.cons_append]

/-- A buffer that is not mapped whole is forgotten: only its request is freed. -/
theorem xmit_request_unmapped {skb : SkBuff} (netdev : NetDevice) (tx_qstats : List TxStats)
    {answers : Answers} (hmapped : (map_skb MAX_SKB_FRAGS skb answers).1 = false) :
    (xmit_request MAX_SKB_FRAGS skb netdev tx_qstats answers).transmission.count .free_skb = 0 := by
  have hmaps : (map_skb MAX_SKB_FRAGS skb answers).2.2.count .free_skb = 0 :=
    map_skb_count skb answers (by simp [Action.Lists])
  simp [xmit_request, Xmit.transmission, hmapped, free_packet_data_mapped, hmaps]

/-- A buffer that is mapped whole, inside the scatter list, is unmapped and freed with its
request: by QDMA's call of `onic_tx_done`, or at once when QDMA does not accept the request. -/
theorem xmit_request_mapped {skb : SkBuff} {netdev : NetDevice} (tx_qstats : List TxStats)
    {answers : Answers} (hpriv : netdev.priv = true) (hinside : skb.frags.length < MAX_SKB_FRAGS)
    (hmapped : (map_skb MAX_SKB_FRAGS skb answers).1 = true) :
    ∃ maps : List Action, (∀ action ∈ maps, action.Maps) ∧
      (xmit_request MAX_SKB_FRAGS skb netdev tx_qstats answers).transmission =
        .alloc_request :: (maps ++ undoing maps) := by
  obtain ⟨hmaps, hundone⟩ := map_skb_undone netdev
    { (map_skb MAX_SKB_FRAGS skb answers).2.1 with
      dma_mapped := true, check_qstate_disabled := true, fp_done := true, uld_data := true }
    hpriv hinside hmapped rfl rfl
  refine ⟨_, hmaps, ?_⟩
  by_cases hwrite : answers.qdma_queue_packet_write < 0
  · simp [xmit_request, Xmit.transmission, hmapped, hwrite, free_packet_data, hundone]
  · simp [xmit_request, Xmit.transmission, hmapped, hwrite, onic_tx_done, hundone]

/-- The elements that a mapped buffer needs are written before QDMA sees the request. -/
theorem xmit_request_overrun {skb : SkBuff} {netdev : NetDevice} (tx_qstats : List TxStats)
    {answers : Answers} (hmore : MAX_SKB_FRAGS ≤ skb.frags.length)
    (hmapped : (map_skb MAX_SKB_FRAGS skb answers).1 = true) :
    .overrun ∈ (xmit_request MAX_SKB_FRAGS skb netdev tx_qstats answers).transmission := by
  have hoverrun := map_skb_overrun hmore hmapped
  by_cases hwrite : answers.qdma_queue_packet_write < 0
  · simp [xmit_request, Xmit.transmission, hmapped, hwrite, hoverrun]
  · simp [xmit_request, Xmit.transmission, hmapped, hwrite, hoverrun]

/-- The exits of `onic_start_xmit`: those that forget the buffer, free it twice or write behind the
scatter list, those that free it before anything is allocated, and those after which everything is
undone. -/
theorem transmission_cases (MAX_SKB_FRAGS : Nat) (skb : SkBuff) (netdev : NetDevice)
    (tx_qstats : List TxStats) (answers : Answers) :
    let actions := (onic_start_xmit MAX_SKB_FRAGS skb netdev tx_qstats answers).transmission
    (¬CleanExit MAX_SKB_FRAGS skb netdev answers ∧
      (actions.count .free_skb ≠ 1 ∨ .overrun ∈ actions)) ∨
    (CleanExit MAX_SKB_FRAGS skb netdev answers ∧ actions = [.free_skb]) ∨
    (CleanExit MAX_SKB_FRAGS skb netdev answers ∧
      ∃ maps : List Action, (∀ action ∈ maps, action.Maps) ∧
        actions = .alloc_request :: (maps ++ undoing maps)) := by
  dsimp only
  cases hpriv : netdev.priv with
  | false =>
    refine .inl ⟨by simp [CleanExit, hpriv], .inl ?_⟩
    simp [onic_start_xmit, Xmit.transmission, hpriv]
  | true =>
  cases hcarrier : netdev.carrier_ok with
  | false =>
    refine .inr (.inl ⟨by simp [CleanExit, hpriv, hcarrier], ?_⟩)
    simp [onic_start_xmit, Xmit.transmission, hpriv, hcarrier]
  | true =>
  cases hgso : skb.gso with
  | true =>
    refine .inl ⟨by simp [CleanExit, hcarrier, hgso], .inl ?_⟩
    simp [onic_start_xmit, Xmit.transmission, hpriv, hcarrier, hgso]
  | false =>
  cases hpadto : answers.skb_put_padto with
  | none =>
    refine .inl ⟨by simp [CleanExit, hcarrier, hpadto], .inl ?_⟩
    simp [onic_start_xmit, Xmit.transmission, hpriv, hcarrier, hgso, hpadto]
  | some padded =>
  have hclean : CleanExit MAX_SKB_FRAGS skb netdev answers ↔
      netdev.real_num_tx_queues ≤ padded.queue_mapping ∨
        padded.queue_mapping < QDMA_NET_QUEUE ∧ answers.kmem_cache_zalloc = true ∧
          padded.frags.length < MAX_SKB_FRAGS ∧
            (map_skb MAX_SKB_FRAGS padded answers).1 = true := by
    simp [CleanExit, hpriv, hcarrier, hgso, hpadto, map_skb_mapped_iff]
  have hpadded : onic_start_xmit MAX_SKB_FRAGS skb netdev tx_qstats answers =
      if netdev.real_num_tx_queues ≤ padded.queue_mapping then ⟨-EINVAL, tx_qstats, [.free_skb], none⟩
      else if QDMA_NET_QUEUE ≤ padded.queue_mapping then ⟨0, tx_qstats, [], none⟩
      else if !answers.kmem_cache_zalloc then ⟨-ENOMEM, tx_qstats, [], none⟩
      else xmit_request MAX_SKB_FRAGS padded netdev tx_qstats answers := by
    simp [onic_start_xmit, hpriv, hcarrier, hgso, hpadto]
  rw [hclean, hpadded]
  by_cases hqueue : netdev.real_num_tx_queues ≤ padded.queue_mapping
  · rw [if_pos hqueue]
    exact .inr (.inl ⟨.inl hqueue, rfl⟩)
  rw [if_neg hqueue]
  by_cases hnet : QDMA_NET_QUEUE ≤ padded.queue_mapping
  · rw [if_pos hnet]
    exact .inl ⟨by simp [hqueue, hnet], .inl (by simp [Xmit.transmission])⟩
  rw [if_neg hnet]
  cases halloc : answers.kmem_cache_zalloc with
  | false => exact .inl ⟨by simp [hqueue], .inl (by simp [Xmit.transmission])⟩
  | true =>
  cases hmapped : (map_skb MAX_SKB_FRAGS padded answers).1 with
  | false =>
    have hnever := xmit_request_unmapped netdev tx_qstats hmapped
    exact .inl ⟨by simp [hqueue], .inl (by simp [hnever])⟩
  | true =>
  by_cases hinside : padded.frags.length < MAX_SKB_FRAGS
  · obtain ⟨maps, hmaps, hundone⟩ := xmit_request_mapped tx_qstats hpriv hinside hmapped
    exact .inr (.inr ⟨.inr ⟨Nat.lt_of_not_le hnet, rfl, hinside, rfl⟩, maps, hmaps,
      by simpa using hundone⟩)
  · have hoverrun : .overrun ∈
        (xmit_request MAX_SKB_FRAGS padded netdev tx_qstats answers).transmission :=
      xmit_request_overrun tx_qstats (Nat.le_of_not_lt hinside) hmapped
    exact .inl ⟨by simp [hqueue, hinside], .inr (by simpa using hoverrun)⟩

/-- A buffer that is freed before anything is allocated is accounted for. -/
theorem accounted_of_freed : Accounted [.free_skb] :=
  ⟨by simp, rfl, List.Perm.refl _, by simp, rfl⟩

/-- Undoing successful mappings unmaps exactly what they have mapped. -/
theorem unmapped_undo {maps : List Action} (hmaps : ∀ action ∈ maps, action.Maps) :
    mapped maps = unmapped (maps.map Action.undo) ∧ unmapped maps = [] ∧
      mapped (maps.map Action.undo) = [] := by
  induction maps with
  | nil => exact ⟨rfl, rfl, rfl⟩
  | cons action maps ih =>
    obtain ⟨dma_addr, len, rfl, hok⟩ := hmaps action (List.mem_cons_self ..)
    obtain ⟨hsame, hnone, hnone'⟩ := ih fun action haction => hmaps action (List.mem_cons_of_mem _ haction)
    simp only [mapped, unmapped] at hsame hnone hnone' ⊢
    simp [Action.undo, hok, hsame, hnone, hnone']

/-- Mapping and undoing it do nothing else. -/
theorem count_maps {maps : List Action} (action : Action) (hmaps : ∀ action ∈ maps, action.Maps)
    (hother : ∀ dma_addr len, action ≠ .map dma_addr len ∧ action ≠ .unmap dma_addr len) :
    maps.count action = 0 ∧ (maps.map Action.undo).count action = 0 := by
  rw [List.count_eq_zero, List.count_eq_zero]
  refine ⟨fun hmem => ?_, fun hmem => ?_⟩
  · obtain ⟨dma_addr, len, heq, -⟩ := hmaps action hmem
    exact (hother dma_addr len).1 heq
  · obtain ⟨undone, hundone, rfl⟩ := List.mem_map.mp hmem
    obtain ⟨dma_addr, len, rfl, -⟩ := hmaps undone hundone
    exact (hother dma_addr len).2 rfl

/-- A transmission whose mappings all succeed is accounted for. -/
theorem accounted_of_undone {maps : List Action} (hmaps : ∀ action ∈ maps, action.Maps) :
    Accounted (.alloc_request :: (maps ++ undoing maps)) := by
  obtain ⟨hskb, hskb'⟩ := count_maps .free_skb hmaps (by simp)
  obtain ⟨hfree, hfree'⟩ := count_maps .free_request hmaps (by simp)
  obtain ⟨halloc, halloc'⟩ := count_maps .alloc_request hmaps (by simp)
  obtain ⟨hsame, hnone, hnone'⟩ := unmapped_undo hmaps
  simp only [mapped, unmapped] at hsame hnone hnone'
  obtain ⟨hoverrun, hoverrun'⟩ := count_maps .overrun hmaps (by simp)
  refine ⟨?_, ?_, ?_, fun len hfailed => ?_, ?_⟩
  · rw [← List.count_eq_zero]
    simp [undoing, hoverrun, hoverrun']
  · simp [undoing, hskb, hskb']
  · simp [undoing, mapped, unmapped, hsame, hnone, hnone']
  · simp only [undoing, List.mem_cons, List.mem_append, List.mem_map, reduceCtorEq, false_or, or_false,
      List.not_mem_nil] at hfailed
    obtain hmem | ⟨action, hmem, hundo⟩ := hfailed
    · obtain ⟨_, _, heq, -⟩ := hmaps _ hmem
      cases heq
    · obtain ⟨dma_addr, _, rfl, hok⟩ := hmaps _ hmem
      obtain ⟨rfl, -⟩ := Action.unmap.inj hundo
      simp [dma_mapping_error] at hok
  · simp [undoing, hfree, hfree', halloc, halloc']

/-- `onic_start_xmit` accounts for the buffer, its mappings and the request exactly at its
clean exits: for every buffer and device, and whatever the kernel and QDMA answer. -/
theorem xmit_accounted_iff (MAX_SKB_FRAGS : Nat) (skb : SkBuff) (netdev : NetDevice)
    (tx_qstats : List TxStats) (answers : Answers) :
    Accounted (onic_start_xmit MAX_SKB_FRAGS skb netdev tx_qstats answers).transmission ↔
      CleanExit MAX_SKB_FRAGS skb netdev answers := by
  obtain ⟨hbad, hcount | hoverrun⟩ | ⟨hclean, hfreed⟩ | ⟨hclean, maps, hmaps, hundone⟩ :=
    transmission_cases MAX_SKB_FRAGS skb netdev tx_qstats answers
  · exact iff_of_false (fun haccounted => hcount haccounted.skb) hbad
  · exact iff_of_false (fun haccounted => haccounted.inside hoverrun) hbad
  · rw [hfreed]
    exact iff_of_true accounted_of_freed hclean
  · rw [hundone]
    exact iff_of_true (accounted_of_undone hmaps) hclean

/-- The second of two fragments cannot be mapped. -/
def second_fragment_fails : Answers where
  skb_put_padto := some ⟨66, [1000, 500], 0, false⟩
  kmem_cache_zalloc := true
  dma_addr := fun k => if k = 2 then DMA_MAPPING_ERROR else 4096 * k
  qdma_queue_packet_write := 0

/-- Then the buffer and two mappings leak. -/
theorem xmit_leaks :
    (onic_start_xmit 17 ⟨66, [1000, 500], 0, false⟩ ⟨true, true, 4⟩ [] second_fragment_fails).ret = -EFAULT ∧
      ¬Accounted (onic_start_xmit 17 ⟨66, [1000, 500], 0, false⟩ ⟨true, true, 4⟩ []
        second_fragment_fails).transmission := by
  refine ⟨by decide, fun haccounted => ?_⟩
  have hnever : (onic_start_xmit 17 ⟨66, [1000, 500], 0, false⟩ ⟨true, true, 4⟩ []
      second_fragment_fails).transmission.count .free_skb = 0 := by decide
  rw [haccounted.skb] at hnever
  omega

end Transmission

end reconic.onic_main
