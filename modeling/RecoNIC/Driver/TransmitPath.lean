import RecoNIC.Driver.TransmitList
import RecoNIC.Driver.DescriptorDelivery

open ranges
open reconic.onic_cdev
open reconic.libqdma (qdma_request qdma_descq Done Wellformed spans payload added finished Marks Settled
  run_settled run_grows finished_append ENXIO)

namespace reconic.onic_main

/-- The request with which `onic_start_xmit` calls `qdma_queue_packet_write`, and the
`onic_dma_request` that it is part of. -/
def packet_write_call (MAX_SKB_FRAGS : Nat) (skb : SkBuff) (netdev : NetDevice)
    (answers : Answers) : Option OnicDmaRequest :=
  (onic_start_xmit MAX_SKB_FRAGS skb netdev [] { answers with qdma_queue_packet_write := 0 }).handed

/-- The request in the queue. Its `uld_data` points to the `i`-th `onic_dma_request`, and its
`ep_addr` is zero as allocated. -/
def OnicDmaRequest.queued (req : OnicDmaRequest) (i : Nat) : qdma_request :=
  ⟨i, req.qdma.count, 0, req.qdma.sgl⟩

/-- `qdma_queue_packet_write` returns the count as an `int`. -/
def packet_write_ret (req : OnicDmaRequest) : Int := Int.bmod req.qdma.count (2 ^ 32)

/-- A network device with one of its transmit queues: the requests that the queue has been given,
and what has been done to buffers, mappings and requests. -/
structure Transmitter where
  tx_qstats : List TxStats
  requests : List OnicDmaRequest
  actions : List Action
  descq : qdma_descq

/-- The queue has done requests, and calls their `fp_done`. -/
def fp_done (requests : List OnicDmaRequest) (done : List Done) : List Action :=
  done.flatMap fun d =>
    match requests[d.req.uld_data]? with
    | none => []
    | some req => (onic_tx_done req).2

/-- The transmitter after the queue has become another one. -/
def Transmitter.follow (t : Transmitter) (descq : qdma_descq) : Transmitter :=
  { t with
    descq
    actions := t.actions ++ fp_done t.requests (descq.done.drop t.descq.done.length) }

/-- An event of the queue by which no request is added. -/
structure QueueEvent where
  event : libqdma.Event
  adds_nothing : added [event] = []

/-- The stack transmits a buffer, with what is answered and how far the device is at each poll,
or something happens to the queue. -/
inductive Event where
  | onic_start_xmit (skb : SkBuff) (answers : Answers) (polls : List Nat)
  | queue (event : QueueEvent)

/-- The queue begins to stop. -/
def Event.stops : Event → Bool
  | .onic_start_xmit .. => false
  | .queue event => event.event = .stop_wait

def Transmitter.queue (events : List libqdma.Event) (t : Transmitter) : Option Transmitter :=
  (libqdma.run t.descq events).map t.follow

/-- The end of `qdma_queue_stop`. -/
def Transmitter.stop (t : Transmitter) : Transmitter := t.follow (libqdma.stop_requests t.descq)

/-- The stack calls `onic_start_xmit` when no other call on the queue is under way. -/
def step (MAX_SKB_FRAGS : Nat) (netdev : NetDevice) (t : Transmitter) : Event → Option Transmitter
  | .onic_start_xmit skb answers polls =>
    match packet_write_call MAX_SKB_FRAGS skb netdev answers with
    | none =>
      let x := onic_main.onic_start_xmit MAX_SKB_FRAGS skb netdev t.tx_qstats answers
      some { t with tx_qstats := x.tx_qstats, actions := t.actions ++ x.actions }
    | some req =>
      let x := onic_main.onic_start_xmit MAX_SKB_FRAGS skb netdev t.tx_qstats
        { answers with qdma_queue_packet_write := packet_write_ret req }
      Transmitter.queue
        [.qdma_work_queue_add (req.queued t.requests.length), .descq_proc_st_h2c_request polls]
        { t with
          tx_qstats := x.tx_qstats
          requests := t.requests ++ [req]
          actions := t.actions ++ x.actions }
  | .queue event => t.queue [event.event]

def run (MAX_SKB_FRAGS : Nat) (netdev : NetDevice) (t : Transmitter) (events : List Event) :
    Option Transmitter :=
  events.foldlM (step MAX_SKB_FRAGS netdev) t

def init (rngsz : Nat) (desc_bypass polled : Bool) (tx_qstats : List TxStats) : Transmitter :=
  ⟨tx_qstats, [], [], libqdma.init rngsz desc_bypass polled⟩

/-- The buffers that are transmitted, padded. -/
def transmitted (events : List Event) : List SkBuff :=
  events.filterMap fun
    | .onic_start_xmit _ answers _ => answers.skb_put_padto
    | .queue _ => none

/-- A buffer that fits: with a head, without empty fragments, with an element of the scatter list
for each of these, and with a length that is a positive `int`. -/
structure SkBuff.Sendable (MAX_SKB_FRAGS : Nat) (skb : SkBuff) : Prop where
  elements : skb.frags.length < MAX_SKB_FRAGS
  head : 0 < skb.headlen
  frags : ∀ size ∈ skb.frags, 0 < size
  len : skb.len < 2 ^ 31

section TransmitPath

variable {MAX_SKB_FRAGS : Nat}

/-- The bytes that are no longer mapped for the device. -/
def released (actions : List Action) : List Span :=
  (unmapped actions).map fun m => ⟨m.1, m.2⟩

/-- What is released adds up. -/
theorem released_append (actions more : List Action) :
    released (actions ++ more) = released actions ++ released more := by
  simp [released, unmapped]

/-- Mapping releases nothing. -/
theorem released_of_maps {actions : List Action}
    (h : ∀ action ∈ actions, ∀ dma_addr len, action ≠ .unmap dma_addr len) : released actions = [] := by
  rw [released, unmapped, List.map_eq_nil_iff, List.filterMap_eq_nil_iff]
  intro action haction
  cases action with
  | unmap dma_addr len => exact absurd rfl (h _ haction dma_addr len)
  | _ => rfl

/-- Writing an element releases nothing. -/
theorem write_element_released (i : Nat) :
    released ((write_element MAX_SKB_FRAGS i).map Action.undo) = [] := by
  rw [write_element]
  split <;> rfl

/-- Linking the segments leaves them where they are. -/
theorem spans_modify_next (sgl : List SwSg) (k : Nat) (next : Option Nat) :
    spans (sgl.modify k fun sg => { sg with next := next }) = spans sgl := by
  induction sgl generalizing k with
  | nil => cases k <;> rfl
  | cons sg sgl ih => cases k <;> simp_all [spans, libqdma.span]

/-- A segment is appended to those in the list. -/
theorem next_segment_spans (req : QdmaRequest) (size dma_addr : Nat) :
    spans (req.next_segment size dma_addr).sgl = spans req.sgl ++ [⟨dma_addr, size⟩] := by
  rw [QdmaRequest.next_segment, spans, List.map_append, ← spans, spans_modify_next]
  rfl

/-- The mappings of the loop over the fragments are those in the list. -/
theorem map_frags_released {answers : Answers} {i : Nat} {frags : List Nat} {req : QdmaRequest}
    (hmapped : (map_frags MAX_SKB_FRAGS answers i frags req).1 = true) :
    spans (map_frags MAX_SKB_FRAGS answers i frags req).2.1.sgl =
      spans req.sgl ++ released ((map_frags MAX_SKB_FRAGS answers i frags req).2.2.map Action.undo) := by
  induction frags generalizing i req with
  | nil => simp [map_frags, released, unmapped]
  | cons size frags ih =>
    cases herror : dma_mapping_error (answers.dma_addr (i + 1)) with
    | true => simp [map_frags, herror] at hmapped
    | false =>
      simp only [map_frags, herror, Bool.false_eq_true, if_false] at hmapped ⊢
      rw [ih hmapped, next_segment_spans, List.append_assoc, List.map_append, List.map_append,
        released_append, released_append, write_element_released]
      rfl

/-- What is true of every request that has been given to the queue. -/
structure OnicDmaRequest.Handed (req : OnicDmaRequest) : Prop where
  wellformed : ∀ i, Wellformed (req.queued i)
  released : released (onic_tx_done req).2 = spans req.qdma.sgl
  freed : (onic_tx_done req).2.count .free_request = 1
  alloc : (onic_tx_done req).2.count .alloc_request = 0

/-- The request of a buffer that is mapped whole. -/
def written (MAX_SKB_FRAGS : Nat) (padded : SkBuff) (netdev : NetDevice) (answers : Answers) :
    OnicDmaRequest :=
  ⟨some padded, some netdev, { (map_skb MAX_SKB_FRAGS padded answers).2.1 with
    dma_mapped := true, check_qstate_disabled := true, fp_done := true, uld_data := true }⟩

/-- The mappings of a buffer whose mapping fails are forgotten, the request is freed. -/
theorem xmit_request_unwritten {skb : SkBuff} (netdev : NetDevice) (tx_qstats : List TxStats)
    {answers : Answers} (hmapped : (map_skb MAX_SKB_FRAGS skb answers).1 = false) :
    let x := xmit_request MAX_SKB_FRAGS skb netdev tx_qstats answers
    x.handed = none ∧ x.actions.count .alloc_request = x.actions.count .free_request ∧
      released x.actions = [] := by
  have halloc : (map_skb MAX_SKB_FRAGS skb answers).2.2.count .alloc_request = 0 :=
    map_skb_count skb answers (by simp [Action.Lists])
  have hfree : (map_skb MAX_SKB_FRAGS skb answers).2.2.count .free_request = 0 :=
    map_skb_count skb answers (by simp [Action.Lists])
  have hnone : released (map_skb MAX_SKB_FRAGS skb answers).2.2 = [] := by
    refine released_of_maps fun action hmem dma_addr len hunmap => ?_
    obtain hover | ⟨_, _, heq⟩ := map_skb_actions skb answers action hmem
    · rw [hover] at hunmap
      cases hunmap
    · rw [heq] at hunmap
      cases hunmap
  have hcons : released (.alloc_request :: ((map_skb MAX_SKB_FRAGS skb answers).2.2 ++ [.free_request])) =
      released ((map_skb MAX_SKB_FRAGS skb answers).2.2) ++ released [.free_request] := released_append ..
  simp only [xmit_request, hmapped, Bool.not_false, if_true, free_packet_data_mapped]
  refine ⟨trivial, ?_, ?_⟩
  · simp [halloc, hfree]
  · rw [hcons, hnone]
    rfl

/-- The exits of `onic_start_xmit` around the call of `qdma_queue_packet_write`. -/
theorem packet_write_call_cases (skb : SkBuff) (netdev : NetDevice) (tx_qstats : List TxStats)
    (answers : Answers) :
    (packet_write_call MAX_SKB_FRAGS skb netdev answers = none ∧
      (onic_start_xmit MAX_SKB_FRAGS skb netdev tx_qstats answers).actions.count .alloc_request =
        (onic_start_xmit MAX_SKB_FRAGS skb netdev tx_qstats answers).actions.count .free_request ∧
      released (onic_start_xmit MAX_SKB_FRAGS skb netdev tx_qstats answers).actions = []) ∨
    ∃ padded, answers.skb_put_padto = some padded ∧ (map_skb MAX_SKB_FRAGS padded answers).1 = true ∧
      netdev.priv = true ∧
      packet_write_call MAX_SKB_FRAGS skb netdev answers =
        some (written MAX_SKB_FRAGS padded netdev answers) ∧
      ∀ count : Int, 0 ≤ count →
        (onic_start_xmit MAX_SKB_FRAGS skb netdev tx_qstats
          { answers with qdma_queue_packet_write := count }).actions =
          .alloc_request :: (map_skb MAX_SKB_FRAGS padded answers).2.2 := by
  obtain ⟨padto, alloc, dma_addr, write⟩ := answers
  unfold packet_write_call onic_start_xmit
  by_cases hpriv : netdev.priv = true
  case neg => exact .inl (by simp [hpriv, released, unmapped])
  by_cases hcarrier : netdev.carrier_ok = true
  case neg => exact .inl (by simp [hpriv, hcarrier, released, unmapped])
  by_cases hgso : skb.gso = true
  case pos => exact .inl (by simp [hpriv, hcarrier, hgso, released, unmapped])
  simp only [hpriv, hcarrier, hgso, Bool.not_true, Bool.false_eq_true, if_false]
  cases padto with
  | none => exact .inl ⟨rfl, rfl, rfl⟩
  | some padded =>
    dsimp only
    by_cases hqueue : netdev.real_num_tx_queues ≤ padded.queue_mapping
    · simp [hqueue, released, unmapped]
    by_cases hnet : QDMA_NET_QUEUE ≤ padded.queue_mapping
    · simp [hqueue, hnet, released, unmapped]
    cases alloc with
    | false => simp [hqueue, hnet, released, unmapped]
    | true =>
      simp only [hqueue, hnet, if_false, Bool.not_true, Bool.false_eq_true]
      have hsame : ∀ count, map_skb MAX_SKB_FRAGS padded ⟨some padded, true, dma_addr, count⟩ =
          map_skb MAX_SKB_FRAGS padded ⟨some padded, true, dma_addr, write⟩ :=
      fun count => map_skb_dma_addr padded rfl
      cases hmapped : (map_skb MAX_SKB_FRAGS padded ⟨some padded, true, dma_addr, write⟩).1 with
      | false =>
        have h0 := (xmit_request_unwritten netdev [] ((congrArg Prod.fst (hsame 0)).trans hmapped)).1
        obtain ⟨-, hcount, hnone⟩ := xmit_request_unwritten netdev tx_qstats hmapped
        exact .inl ⟨h0, hcount, hnone⟩
      | true =>
        refine .inr ⟨padded, rfl, hmapped, trivial, ?_, fun count hcount => ?_⟩
        · simp only [xmit_request, hsame 0, hmapped]
          rfl
        · simp only [xmit_request, hsame count, hmapped]
          simp [Int.not_lt.mpr hcount]

/-- The segments of a request are those that undoing its mappings releases. -/
theorem map_skb_spans {skb : SkBuff} {answers : Answers}
    (hmapped : (map_skb MAX_SKB_FRAGS skb answers).1 = true) :
    spans (map_skb MAX_SKB_FRAGS skb answers).2.1.sgl =
      released ((map_skb MAX_SKB_FRAGS skb answers).2.2.map Action.undo) := by
  cases herror : dma_mapping_error (answers.dma_addr 0) with
  | true => simp [map_skb, herror] at hmapped
  | false =>
    simp only [map_skb, herror, Bool.false_eq_true, if_false] at hmapped ⊢
    rw [map_frags_released hmapped, List.map_append, List.map_append, released_append,
      released_append, write_element_released]
    rfl

/-- The request of a buffer that is mapped whole is one that the queue processes as a whole, and
everything that has been mapped for it is unmapped when it is done. -/
theorem written_handed {padded : SkBuff} {netdev : NetDevice} {answers : Answers}
    (hpriv : netdev.priv = true) (hmapped : (map_skb MAX_SKB_FRAGS padded answers).1 = true)
    (hsend : padded.Sendable MAX_SKB_FRAGS) : (written MAX_SKB_FRAGS padded netdev answers).Handed := by
  have hlen := hsend.len
  have hlisted := map_skb_listed (by omega) hmapped
  obtain ⟨hmaps, hundone⟩ := map_skb_undone netdev (written MAX_SKB_FRAGS padded netdev answers).qdma hpriv
    hsend.elements hmapped rfl rfl
  have hdone : (onic_tx_done (written MAX_SKB_FRAGS padded netdev answers)).2 =
      undoing (map_skb MAX_SKB_FRAGS padded answers).2.2 :=
    congrArg Prod.snd hundone
  obtain ⟨hfree, hfree'⟩ := count_maps .free_request hmaps (by simp)
  obtain ⟨halloc, halloc'⟩ := count_maps .alloc_request hmaps (by simp)
  have hlens : (spans (map_skb MAX_SKB_FRAGS padded answers).2.1.sgl).map Span.len =
      padded.headlen :: padded.frags := by
    rw [← hlisted.segments, spans, List.map_map]
    rfl
  refine ⟨fun i => ⟨?_, fun sg hsg => ?_, ?_, ?_, ?_⟩, ?_, ?_, ?_⟩
  · intro hnil
    have := hlisted.length
    rw [show (map_skb MAX_SKB_FRAGS padded answers).2.1.sgl = [] from hnil] at this
    simp at this
  · have hmem : sg.len ∈ padded.headlen :: padded.frags := by
      rw [← hlisted.segments]
      exact List.mem_map_of_mem hsg
    rcases List.mem_cons.mp hmem with heq | hfrag
    · exact heq ▸ hsend.head
    · exact hsend.frags _ hfrag
  · exact (congrArg List.sum hlens).trans hlisted.count.symm
  · have := hlisted.count
    change (map_skb MAX_SKB_FRAGS padded answers).2.1.count < 2 ^ 32
    rw [this]
    exact hlen.trans (by decide)
  · simp [libqdma.pktsz, OnicDmaRequest.queued, PAGE_SIZE, PAGE_SHIFT]
  · rw [hdone, undoing, released_append, ← map_skb_spans hmapped]
    exact List.append_nil _
  · simp [hdone, undoing, hfree']
  · simp [hdone, undoing, halloc']

/-- The requests in the queue. -/
def jobs (requests : List OnicDmaRequest) : List qdma_request :=
  requests.mapIdx fun i req => req.queued i

/-- A request in the queue is one that has been handed over. -/
theorem mem_jobs {requests : List OnicDmaRequest} {job : qdma_request} (h : job ∈ jobs requests) :
    ∃ req, requests[job.uld_data]? = some req ∧ job = req.queued job.uld_data := by
  obtain ⟨i, hi⟩ := List.mem_iff_getElem?.mp h
  rw [jobs, List.getElem?_mapIdx] at hi
  obtain ⟨req, hreq, rfl⟩ := Option.map_eq_some_iff.mp hi
  exact ⟨req, hreq, rfl⟩

/-- One more request is handed over behind the others. -/
theorem jobs_concat (requests : List OnicDmaRequest) (req : OnicDmaRequest) :
    jobs (requests ++ [req]) = jobs requests ++ [req.queued requests.length] := by
  simp [jobs]

/-- The requests have the same segments in the queue. -/
theorem jobs_flatMap {α : Type} (f : List SwSg → List α) (requests : List OnicDmaRequest) :
    (jobs requests).flatMap (fun job => f job.sgl) = requests.flatMap fun req => f req.qdma.sgl := by
  have hsgl : (jobs requests).map qdma_request.sgl = requests.map fun req => req.qdma.sgl := by
    refine List.ext_getElem? fun i => ?_
    simp only [jobs, List.getElem?_map, List.getElem?_mapIdx, Option.map_map]
    rfl
  have := congrArg (fun l => l.flatMap f) hsgl
  rwa [List.flatMap_map, List.flatMap_map] at this

/-- The calls of `fp_done` release what the requests have mapped, and free each request once. -/
theorem fp_done_spec {requests : List OnicDmaRequest} (hhanded : ∀ req ∈ requests, req.Handed)
    {done : List Done} (hdone : ∀ d ∈ done, d.req ∈ jobs requests) :
    released (fp_done requests done) = (finished done).flatMap (fun req => spans req.sgl) ∧
      (fp_done requests done).count .free_request = done.length ∧
      (fp_done requests done).count .alloc_request = 0 := by
  induction done with
  | nil => exact ⟨rfl, rfl, rfl⟩
  | cons d done ih =>
    obtain ⟨hreleased, hfree, halloc⟩ := ih fun c hc => hdone c (List.mem_cons_of_mem _ hc)
    obtain ⟨req, hreq, hqueued⟩ := mem_jobs (hdone d List.mem_cons_self)
    have hone := hhanded req (List.mem_of_getElem? hreq)
    have hcons : fp_done requests (d :: done) = (onic_tx_done req).2 ++ fp_done requests done := by
      rw [fp_done, List.flatMap_cons, hreq]
      rfl
    have hsgl : d.req.sgl = req.qdma.sgl := congrArg qdma_request.sgl hqueued
    rw [hcons]
    refine ⟨?_, ?_, ?_⟩
    · rw [released_append, hone.released, hreleased, ← hsgl]
      rfl
    · rw [List.count_append, hone.freed, hfree, List.length_cons, Nat.add_comm]
    · rw [List.count_append, hone.alloc, halloc]

/-- The queue carries the requests it has been given: what is no longer mapped is just what the
requests that are done have mapped, and the others are still allocated. -/
structure Carried (rngsz : Nat) (t : Transmitter) (m : Marks) : Prop where
  rngsz : t.descq.rngsz = rngsz
  settled : Settled (jobs t.requests) t.descq m
  handed : ∀ req ∈ t.requests, req.Handed
  released : released t.actions = (finished t.descq.done).flatMap fun req => spans req.sgl
  freed : t.actions.count .alloc_request + t.descq.done.length =
    t.actions.count .free_request + t.requests.length

/-- What the queue has done since is released, and nothing else. -/
theorem follow_released {t : Transmitter} {q : qdma_descq} {more : List Done}
    (hmore : t.descq.done ++ more = q.done) (hjobs : ∀ d ∈ more, d.req ∈ jobs t.requests)
    (hhanded : ∀ req ∈ t.requests, req.Handed)
    (hreleased : released t.actions = (finished t.descq.done).flatMap fun req => spans req.sgl)
    (hfreed : t.actions.count .alloc_request + t.descq.done.length =
      t.actions.count .free_request + t.requests.length) :
    released (t.follow q).actions = ((finished q.done).flatMap fun req => spans req.sgl) ∧
      (t.follow q).actions.count .alloc_request + q.done.length =
        (t.follow q).actions.count .free_request + t.requests.length := by
  obtain ⟨hdone, hfree, halloc⟩ := fp_done_spec hhanded hjobs
  rw [Transmitter.follow, ← hmore, List.drop_left]
  constructor
  · dsimp only
    rw [released_append, hreleased, hdone, ← List.flatMap_append, ← finished_append]
  · dsimp only
    rw [List.count_append, List.count_append, List.length_append, hfree, halloc]
    omega

/-- What happens to the queue is followed by the driver. -/
theorem queue_carried {t : Transmitter} {J : List qdma_request} {m : Marks}
    {events : List libqdma.Event} (h : Settled J t.descq m)
    (hjobs : J ++ added events = jobs t.requests) (hhanded : ∀ req ∈ t.requests, req.Handed)
    (hreleased : released t.actions = (finished t.descq.done).flatMap fun req => spans req.sgl)
    (hfreed : t.actions.count .alloc_request + t.descq.done.length =
      t.actions.count .free_request + t.requests.length)
    {going : Prop} (hgoing : going → .stop_wait ∉ events) :
    ∃ t' m', t.queue events = some t' ∧ Carried t.descq.rngsz t' m' ∧
      (going → t'.descq.q_stop_wait = t.descq.q_stop_wait) := by
  have hwf : ∀ job ∈ added events, Wellformed job := by
    intro job hjob
    obtain ⟨req, hreq, hqueued⟩ := mem_jobs (hjobs ▸ List.mem_append_right J hjob)
    exact hqueued ▸ (hhanded req (List.mem_of_getElem? hreq)).wellformed _
  obtain ⟨q, m', hrun, hsettled, hsize, hgoes⟩ := run_settled h hwf
  obtain ⟨more, hmore⟩ := run_grows hrun
  rw [hjobs] at hsettled
  have hfinished : ∀ d ∈ more, d.req ∈ jobs t.requests := fun d hd =>
    hsettled.finished_first.subset (List.mem_map_of_mem (hmore ▸ List.mem_append_right _ hd))
  obtain ⟨hreleased', hfreed'⟩ := follow_released hmore hfinished hhanded hreleased hfreed
  refine ⟨t.follow q, m', ?_, ⟨hsize, hsettled, hhanded, hreleased', hfreed'⟩,
    fun h => hgoes (hgoing h)⟩
  rw [Transmitter.queue, hrun, Option.map_some]

/-- The end of `qdma_queue_stop` releases all that is left. -/
theorem stop_released {rngsz : Nat} {t : Transmitter} {m : Marks} (h : Carried rngsz t m) :
    released t.stop.actions = (t.requests.flatMap fun req => spans req.qdma.sgl) ∧
      t.stop.actions.count .free_request = t.stop.actions.count .alloc_request := by
  have hstopped := h.settled.stopped
  have hfinished : ∀ d ∈ (t.descq.pend_list ++ t.descq.work_list).map
      (fun cb => (⟨cb.req, 0, - ENXIO⟩ : Done)), d.req ∈ jobs t.requests := by
    intro d hd
    rw [← hstopped]
    exact List.mem_map_of_mem (List.mem_append_right _ hd)
  obtain ⟨hreleased, hfreed⟩ :=
    follow_released (q := libqdma.stop_requests t.descq) rfl hfinished h.handed h.released h.freed
  have hlength := congrArg List.length hstopped
  simp only [List.length_map, jobs, List.length_mapIdx] at hlength
  refine ⟨?_, ?_⟩
  · rw [Transmitter.stop, hreleased, finished, hstopped, jobs_flatMap spans]
  · rw [Transmitter.stop]
    omega

/-- A request with fewer bytes than an `int` counts is not taken for an error. -/
theorem packet_write_ret_nonneg {padded : SkBuff} {netdev : NetDevice} {answers : Answers}
    (hmapped : (map_skb MAX_SKB_FRAGS padded answers).1 = true) (hsend : padded.Sendable MAX_SKB_FRAGS) :
    0 ≤ packet_write_ret (written MAX_SKB_FRAGS padded netdev answers) := by
  have hlen := hsend.len
  have hcount : (map_skb MAX_SKB_FRAGS padded answers).2.1.count = padded.len :=
    (map_skb_listed (by omega) hmapped).count
  change 0 ≤ Int.bmod (map_skb MAX_SKB_FRAGS padded answers).2.1.count (2 ^ 32)
  rw [hcount, Int.bmod_eq_of_le (by omega) (by omega)]
  omega

/-- Whatever is transmitted, and whatever happens to the queue, it carries its requests on. -/
theorem step_carried (netdev : NetDevice) {rngsz : Nat} {t : Transmitter} {m : Marks}
    (h : Carried rngsz t m) {event : Event}
    (hsend : ∀ skb ∈ transmitted [event], skb.Sendable MAX_SKB_FRAGS) :
    ∃ t' m', step MAX_SKB_FRAGS netdev t event = some t' ∧ Carried rngsz t' m' ∧
      (event.stops = false → t'.descq.q_stop_wait = t.descq.q_stop_wait) := by
  cases event with
  | queue event =>
    have hjobs : jobs t.requests ++ added [event.event] = jobs t.requests := by
      rw [event.adds_nothing, List.append_nil]
    have hgoing : (Event.queue event).stops = false → .stop_wait ∉ [event.event] := by
      intro hstops hmem
      simp [Event.stops, ← List.mem_singleton.mp hmem] at hstops
    rw [← h.rngsz]
    exact queue_carried h.settled hjobs h.handed h.released h.freed hgoing
  | onic_start_xmit skb answers polls =>
    rw [step]
    obtain ⟨hnone, hcount, hnothing⟩ | ⟨padded, hpadto, hmapped, hpriv, hsome, hactions⟩ :=
      packet_write_call_cases skb netdev t.tx_qstats answers
    · rw [hnone]
      refine ⟨_, m, rfl, ⟨h.rngsz, h.settled, h.handed, ?_, ?_⟩, fun _ => rfl⟩
      · dsimp only
        rw [released_append, hnothing, List.append_nil, h.released]
      · have := h.freed
        dsimp only
        rw [List.count_append, List.count_append]
        omega
    · have hsendable := hsend padded (by simp [transmitted, hpadto])
      have hhanded := written_handed hpriv hmapped hsendable
      obtain ⟨hmaps, -⟩ := map_skb_undone netdev (written MAX_SKB_FRAGS padded netdev answers).qdma hpriv
        hsendable.elements hmapped rfl rfl
      obtain ⟨hfree, -⟩ := count_maps .free_request hmaps (by simp)
      obtain ⟨halloc, -⟩ := count_maps .alloc_request hmaps (by simp)
      have hnothing : released (.alloc_request :: (map_skb MAX_SKB_FRAGS padded answers).2.2) = [] := by
        refine released_of_maps fun action haction dma_addr len heq => ?_
        rcases List.mem_cons.mp haction with hfirst | hrest
        · rw [hfirst] at heq
          cases heq
        · obtain ⟨_, _, hmap, -⟩ := hmaps action hrest
          rw [hmap] at heq
          cases heq
      rw [hsome]
      dsimp only
      rw [hactions _ (packet_write_ret_nonneg hmapped hsendable), ← h.rngsz]
      refine queue_carried (t := ⟨_, t.requests ++ [written MAX_SKB_FRAGS padded netdev answers],
        _, t.descq⟩) h.settled (jobs_concat ..).symm (fun req hreq => ?_) ?_ ?_ fun _ => by simp
      · rcases List.mem_append.mp hreq with hreq | hreq
        · exact h.handed req hreq
        · exact List.mem_singleton.mp hreq ▸ hhanded
      · dsimp only
        rw [released_append, hnothing, List.append_nil, h.released]
      · have := h.freed
        dsimp only
        rw [List.count_append, List.count_append, List.count_cons_self, List.length_append, halloc,
          List.count_cons_of_ne (by simp), hfree, List.length_singleton]
        omega

/-- In every run the driver has released the segments of just the requests that are done. -/
theorem run_carried (MAX_SKB_FRAGS : Nat) (netdev : NetDevice) {rngsz : Nat}
    {events : List Event} {t : Transmitter} {m : Marks} (h : Carried rngsz t m)
    (hsend : ∀ skb ∈ transmitted events, skb.Sendable MAX_SKB_FRAGS) :
    ∃ t' m', run MAX_SKB_FRAGS netdev t events = some t' ∧ Carried rngsz t' m' ∧
      ((∀ event ∈ events, event.stops = false) → t'.descq.q_stop_wait = t.descq.q_stop_wait) := by
  induction events generalizing t m with
  | nil => exact ⟨t, m, rfl, h, fun _ => rfl⟩
  | cons event events ih =>
    have hsplit : transmitted (event :: events) = transmitted [event] ++ transmitted events := by
      simp only [transmitted, ← List.filterMap_append, List.singleton_append]
    rw [hsplit] at hsend
    obtain ⟨t1, m1, hstep, h1, hgoes1⟩ :=
      step_carried netdev h fun skb hskb => hsend skb (List.mem_append_left _ hskb)
    obtain ⟨t2, m2, hrun, h2, hgoes2⟩ :=
      ih h1 fun skb hskb => hsend skb (List.mem_append_right _ hskb)
    refine ⟨t2, m2, ?_, h2, fun hgoes => ?_⟩
    · rw [run, List.foldlM_cons, hstep]
      exact hrun
    · rw [List.forall_mem_cons] at hgoes
      exact (hgoes2 hgoes.2).trans (hgoes1 hgoes.1)

/-- At the beginning there is nothing to release. -/
theorem init_carried {rngsz : Nat} (hring : 0 < rngsz) (desc_bypass polled : Bool)
    (tx_qstats : List TxStats) :
    Carried rngsz (init rngsz desc_bypass polled tx_qstats) ⟨0, 0, 0, 0, 0⟩ :=
  ⟨rfl, libqdma.init_settled hring desc_bypass polled, fun _ h => (by cases h), rfl, rfl⟩

/-- A run in which nothing is transmitted is a run of the queue. -/
theorem run_queue {netdev : NetDevice} {events : List QueueEvent} {t t' : Transmitter}
    (h : run MAX_SKB_FRAGS netdev t (events.map .queue) = some t') :
    libqdma.run t.descq (events.map QueueEvent.event) = some t'.descq ∧ t'.requests = t.requests := by
  induction events generalizing t with
  | nil =>
    cases h
    exact ⟨rfl, rfl⟩
  | cons event events ih =>
    rw [List.map_cons, run, List.foldlM_cons] at h
    obtain ⟨t1, hstep, hrest⟩ := Option.bind_eq_some_iff.mp h
    obtain ⟨q, hq, rfl⟩ := Option.map_eq_some_iff.mp hstep
    obtain ⟨hrun, hrequests⟩ := ih hrest
    refine ⟨?_, hrequests⟩
    have hone : libqdma.step t.descq event.event = some q := by simpa [libqdma.run] using hq
    rw [List.map_cons, libqdma.run, List.foldlM_cons, hone]
    exact hrun

/-- Two packets, the first of them with a fragment, that are transmitted one after the other. -/
def two_transmissions : List Event :=
  [.queue ⟨.qdma_queue_start, rfl⟩,
    .onic_start_xmit ⟨60, [5000], 0, false⟩ ⟨some ⟨60, [5000], 0, false⟩, true, fun k => 65536 * (k + 1), 0⟩ [],
    .queue ⟨.fetch 2, rfl⟩,
    .onic_start_xmit ⟨64, [], 0, false⟩ ⟨some ⟨64, [], 0, false⟩, true, fun _ => 4096, 0⟩ [],
    .queue ⟨.descq_mm_n_h2c_cmpl_status, rfl⟩]

theorem two_transmissions_sendable :
    ∀ skb ∈ transmitted two_transmissions, skb.Sendable 17 := by
  intro skb hskb
  have hcases : skb = ⟨60, [5000], 0, false⟩ ∨ skb = ⟨64, [], 0, false⟩ := by
    simpa [two_transmissions, transmitted] using hskb
  rcases hcases with rfl | rfl <;> exact ⟨by simp, by simp, by simp, by simp [SkBuff.len]⟩

/-- Whatever is transmitted, and whichever mappings and allocations fail: up to the stop of its
queue, the device fetches just the bytes of the buffers that the queue has been given, in order,
and the driver unmaps them in the same order, each once, and none before the device has fetched
it. The stop unmaps the others, each once, and then every request that has been allocated is
freed. -/
theorem released_after_fetched (MAX_SKB_FRAGS : Nat) {rngsz : Nat} (hring : 0 < rngsz)
    (desc_bypass polled : Bool) (netdev : NetDevice) (tx_qstats : List TxStats)
    {events : List Event} (hsend : ∀ skb ∈ transmitted events, skb.Sendable MAX_SKB_FRAGS) :
    ∃ t, run MAX_SKB_FRAGS netdev (init rngsz desc_bypass polled tx_qstats) events = some t ∧
      bytes (t.descq.fetched.map payload) <+:
        (t.requests.flatMap fun req => bytes (spans req.qdma.sgl)) ∧
      released t.actions <+: (t.requests.flatMap fun req => spans req.qdma.sgl) ∧
      bytes (released t.actions) <+: bytes (t.descq.fetched.map payload) ∧
      released t.stop.actions = (t.requests.flatMap fun req => spans req.qdma.sgl) ∧
      t.stop.actions.count .free_request = t.stop.actions.count .alloc_request := by
  obtain ⟨t, m, hrun, h, -⟩ :=
    run_carried MAX_SKB_FRAGS netdev (init_carried hring desc_bypass polled tx_qstats) hsend
  refine ⟨t, hrun, ?_, ?_, ?_, stop_released h⟩
  · rw [← jobs_flatMap fun sgl => bytes (spans sgl)]
    exact h.settled.fetched_bytes
  · obtain ⟨rest, hrest⟩ := h.settled.finished_first
    rw [h.released, ← jobs_flatMap spans, ← hrest, List.flatMap_append]
    exact List.prefix_append _ _
  · have hbytes := h.settled.finished_bytes
    rwa [h.released, bytes, List.flatMap_assoc]

theorem released_after_fetched_two :
    ∃ t, run 17 ⟨true, true, 4⟩ (init 4 false false [⟨0, 0, 0⟩]) two_transmissions = some t ∧
      bytes (t.descq.fetched.map payload) <+:
        (t.requests.flatMap fun req => bytes (spans req.qdma.sgl)) ∧
      released t.actions <+: (t.requests.flatMap fun req => spans req.qdma.sgl) ∧
      bytes (released t.actions) <+: bytes (t.descq.fetched.map payload) ∧
      released t.stop.actions = (t.requests.flatMap fun req => spans req.qdma.sgl) ∧
      t.stop.actions.count .free_request = t.stop.actions.count .alloc_request :=
  released_after_fetched 17 (by decide) false false ⟨true, true, 4⟩ [⟨0, 0, 0⟩]
    two_transmissions_sendable

/-- The queue is started, and the device fetches and reports, and the driver goes on, `n` times. -/
def drain (rngsz n : Nat) : List QueueEvent :=
  ⟨.qdma_queue_start, rfl⟩ :: (List.replicate n
    [⟨.fetch rngsz, rfl⟩, ⟨.descq_mm_n_h2c_cmpl_status, rfl⟩, ⟨.descq_proc_st_h2c_request [], rfl⟩]).flatten

/-- Draining the queue starts it and goes through its rounds. -/
theorem drain_events (rngsz n : Nat) :
    (drain rngsz n).map QueueEvent.event =
      [.qdma_queue_start] ++ (List.replicate n (libqdma.round rngsz)).flatten := by
  rw [drain, List.map_cons, List.map_flatten, List.map_replicate]
  rfl

/-- Whatever has been transmitted, when the queue goes on all requests come to their end: all that
has been mapped for them is unmapped, in order, and every request that has been allocated is
freed. -/
theorem every_transmission_released (MAX_SKB_FRAGS : Nat) {rngsz : Nat} (hring : 1 < rngsz)
    (desc_bypass polled : Bool) (netdev : NetDevice) (tx_qstats : List TxStats)
    {events : List Event} (hsend : ∀ skb ∈ transmitted events, skb.Sendable MAX_SKB_FRAGS)
    (hgoes : ∀ event ∈ events, event.stops = false) :
    ∃ t, run MAX_SKB_FRAGS netdev (init rngsz desc_bypass polled tx_qstats) events = some t ∧
      ∃ t', run MAX_SKB_FRAGS netdev t
          ((drain rngsz ((libqdma.stream (jobs t.requests)).length + 1)).map .queue) = some t' ∧
        t'.requests = t.requests ∧
        released t'.actions = (t'.requests.flatMap fun req => spans req.qdma.sgl) ∧
        t'.actions.count .free_request = t'.actions.count .alloc_request := by
  obtain ⟨t, m, hrun, h, hstop⟩ :=
    run_carried MAX_SKB_FRAGS netdev
      (init_carried (by omega : 0 < rngsz) desc_bypass polled tx_qstats) hsend
  obtain ⟨q, -, hqueue, -, hdone⟩ := h.settled.rounds_done (h.rngsz.symm ▸ hring) (hstop hgoes)
  rw [h.rngsz, ← drain_events] at hqueue
  have hnone : transmitted ((drain rngsz ((libqdma.stream (jobs t.requests)).length + 1)).map .queue) =
      [] := by
    simp [transmitted, List.filterMap_map]
  obtain ⟨t', m', hrun', h', -⟩ := run_carried MAX_SKB_FRAGS netdev h (by
    rw [hnone]
    exact fun _ hskb => (by cases hskb))
  obtain ⟨hqueue', hrequests⟩ := run_queue hrun'
  obtain rfl := Option.some.inj (hqueue.symm.trans hqueue')
  refine ⟨t, hrun, t', hrun', hrequests, ?_, ?_⟩
  · rw [h'.released, finished, hdone, jobs_flatMap spans, hrequests]
  · have hfreed := h'.freed
    have hlength := congrArg List.length hdone
    simp only [List.length_map, jobs, List.length_mapIdx] at hlength
    rw [hrequests] at hfreed
    omega

theorem every_transmission_released_two :
    ∃ t, run 17 ⟨true, true, 4⟩ (init 2 false true [⟨0, 0, 0⟩]) two_transmissions = some t ∧
      ∃ t', run 17 ⟨true, true, 4⟩ t
          ((drain 2 ((libqdma.stream (jobs t.requests)).length + 1)).map .queue) = some t' ∧
        t'.requests = t.requests ∧
        released t'.actions = (t'.requests.flatMap fun req => spans req.qdma.sgl) ∧
        t'.actions.count .free_request = t'.actions.count .alloc_request :=
  every_transmission_released 17 (by decide) false true ⟨true, true, 4⟩ [⟨0, 0, 0⟩]
    two_transmissions_sendable (by simp [two_transmissions, Event.stops])

end TransmitPath

end reconic.onic_main
