import RecoNIC.Bits.Numerals
import RecoNIC.Driver.StartXmit

open bits
open reconic.onic_cdev (EINVAL ENOMEM PAGE_SIZE)

namespace reconic.onic_main

def ONIC_RX_COPY_THRES : Nat := 256

def ONIC_RX_PULL_LEN : Nat := 128

/-- A segment of a received packet, a `qdma_sw_sg`. The segments are given in the order of
their pointers `next`. -/
structure RxSegment where
  pg : Nat
  offset : Nat
  len : Nat
  deriving DecidableEq

/-- The memory by pages: the byte that lies `k` behind the start of a page. Behind the end of
the page lies whatever follows it in memory. -/
abbrev PageMemory := Nat → Nat → Byte

def page_bytes (memory : PageMemory) (pg offset len : Nat) : List Byte :=
  (List.range len).map fun k => memory pg (offset + k)

/-- A fragment of a buffer, `skb_frag_t`. -/
structure SkbFrag where
  pg : Nat
  offset : Nat
  len : Nat
  deriving DecidableEq

/-- A buffer that is delivered. `eth_type_trans` only moves its start, and is left out. -/
structure RxSkb where
  linear : List Byte
  frags : List SkbFrag
  len : Nat
  data_len : Nat
  queue : Nat
  deriving DecidableEq

/-- What receiving reads of an `onic_priv`. Of its `net_device`, unless that is NULL, it is
whether the features have `NETIF_F_SG`. -/
structure RxPriv where
  netdev : Option Bool
  base_rx_q_handle : BitVec 64
  deriving DecidableEq

structure RxStats where
  rx_packets : Nat
  rx_bytes : Nat
  deriving DecidableEq

/-- The kernel's `skb_fill_page_desc` for entry `i`. An entry behind the array of fragments is
written outside of the buffer. -/
def skb_fill_page_desc (MAX_SKB_FRAGS i : Nat) (frags : List SkbFrag) (frag : SkbFrag) :
    List SkbFrag :=
  if i < MAX_SKB_FRAGS then frags ++ [frag] else frags

/-- The loop of `onic_rx_deliver` over the segments. -/
def fill_frags (MAX_SKB_FRAGS : Nat) : Nat → Nat → List RxSegment → List SkbFrag → List SkbFrag
  | sgcnt + 1, nr_frags, sg :: sgl, frags =>
    fill_frags MAX_SKB_FRAGS sgcnt (nr_frags + 1) sgl
      (skb_fill_page_desc MAX_SKB_FRAGS nr_frags frags ⟨sg.pg, sg.offset, sg.len⟩)
  | _, _, _, frags => frags

/-- `onic_rx_deliver`: its result, the buffer that it delivers, and the pages that it puts. -/
def onic_rx_deliver (MAX_SKB_FRAGS : Nat) (memory : PageMemory) (napi_alloc_skb netif_f_sg : Bool)
    (q_no len sgcnt : Nat) (sgl : List RxSegment) : Int × Option RxSkb × List Nat :=
  if sgcnt = 0 then (-EINVAL, none, [])
  else
    match sgl with
    | [] => (-EINVAL, none, [])
    | c2h_sgl :: next =>
      if len ≤ ONIC_RX_COPY_THRES ∨ !netif_f_sg then
        if !napi_alloc_skb then (-ENOMEM, none, [])
        else
          (0, some ⟨page_bytes memory c2h_sgl.pg c2h_sgl.offset len, [], len, 0, q_no⟩, [c2h_sgl.pg])
      else if !napi_alloc_skb then (-ENOMEM, none, [])
      else
        let linear := page_bytes memory c2h_sgl.pg c2h_sgl.offset ONIC_RX_PULL_LEN
        let c2h_sgl :=
          { c2h_sgl with
            offset := (c2h_sgl.offset + ONIC_RX_PULL_LEN) % 2 ^ 32
            len := (2 ^ 32 + c2h_sgl.len - ONIC_RX_PULL_LEN) % 2 ^ 32 }
        let frags := fill_frags MAX_SKB_FRAGS sgcnt 0 (c2h_sgl :: next) []
        (0, some ⟨linear, frags, len, len - ONIC_RX_PULL_LEN, q_no⟩, [])

/-- The loop of `onic_rx_pkt_process` after a failure. -/
def put_pages : Nat → List RxSegment → List Nat
  | sgcnt + 1, sg :: sgl => sg.pg :: put_pages sgcnt sgl
  | _, _ => []

/-- A call of `onic_rx_pkt_process`: its result, the buffer that it delivers, the pages that it
puts, and the statistics. -/
structure RxCall where
  ret : Int
  delivered : Option RxSkb
  put : List Nat
  rx_qstats : List RxStats
  deriving DecidableEq

def rx_q_no (xpriv : RxPriv) (qhndl : BitVec 64) : Nat :=
  ((qhndl - xpriv.base_rx_q_handle).setWidth 32).toNat

def onic_rx_pkt_process (MAX_SKB_FRAGS : Nat) (memory : PageMemory) (napi_alloc_skb : Bool)
    (xpriv : RxPriv) (rx_qstats : List RxStats) (qhndl : BitVec 64) (len sgcnt : Nat)
    (sgl : List RxSegment) : RxCall :=
  match xpriv.netdev with
  | none => ⟨-EINVAL, none, [], rx_qstats⟩
  | some netif_f_sg =>
    if sgcnt = 0 then ⟨-EINVAL, none, [], rx_qstats⟩
    else
      let q_no := rx_q_no xpriv qhndl
      if QDMA_NET_QUEUE ≤ q_no then ⟨0, none, [], rx_qstats⟩
      else
        let (ret, delivered, put) :=
          onic_rx_deliver MAX_SKB_FRAGS memory napi_alloc_skb netif_f_sg q_no len sgcnt sgl
        let put := if ret < 0 then put ++ put_pages sgcnt sgl else put
        let rx_qstats := rx_qstats.modify q_no fun stats =>
          ⟨stats.rx_packets + 1, stats.rx_bytes + len⟩
        ⟨ret, delivered, put, rx_qstats⟩

/-- The bytes of a packet. -/
def packet_bytes (memory : PageMemory) (sgl : List RxSegment) : List Byte :=
  sgl.flatMap fun sg => page_bytes memory sg.pg sg.offset sg.len

def RxSkb.bytes (memory : PageMemory) (skb : RxSkb) : List Byte :=
  skb.linear ++ skb.frags.flatMap fun frag => page_bytes memory frag.pg frag.offset frag.len

/-- The pages that a call consumes: it puts them, or they are fragments of the buffer that it
delivers. -/
def RxCall.consumed (call : RxCall) : List Nat :=
  call.put ++
    match call.delivered with
    | none => []
    | some skb => skb.frags.map fun frag => frag.pg

/-- A buffer that is delivered holds the first `len` bytes of the packet, and every page has
been consumed once. -/
structure Preserved (memory : PageMemory) (len : Nat) (sgl : List RxSegment) (call : RxCall) :
    Prop where
  data : ∀ skb, call.delivered = some skb →
    skb.bytes memory = (packet_bytes memory sgl).take len ∧ skb.len = len
  pages : call.consumed.Perm (sgl.map fun sg => sg.pg)

/-- The condition under which a packet is preserved: no buffer can be allocated, or the packet
is one segment where it is copied, or else its first segment has what is pulled from it and
there are enough fragments. -/
def Deliverable (MAX_SKB_FRAGS : Nat) (napi_alloc_skb netif_f_sg : Bool) (len : Nat)
    (sgl : List RxSegment) : Prop :=
  napi_alloc_skb = true →
    if len ≤ ONIC_RX_COPY_THRES ∨ !netif_f_sg then sgl.length = 1
    else (∀ sg ∈ sgl.head?, ONIC_RX_PULL_LEN ≤ sg.len) ∧ sgl.length ≤ MAX_SKB_FRAGS

def RxSegment.frag (sg : RxSegment) : SkbFrag := ⟨sg.pg, sg.offset, sg.len⟩

@[simp] theorem page_bytes_length (memory : PageMemory) (pg offset len : Nat) :
    (page_bytes memory pg offset len).length = len := by
  rw [page_bytes, List.length_map, List.length_range]

theorem page_bytes_add (memory : PageMemory) (pg offset m n : Nat) :
    page_bytes memory pg offset (m + n) =
      page_bytes memory pg offset m ++ page_bytes memory pg (offset + m) n := by
  simp only [page_bytes, List.range_add, List.map_append, List.map_map, Function.comp_def,
    Nat.add_assoc]

theorem packet_bytes_length (memory : PageMemory) (sgl : List RxSegment) :
    (packet_bytes memory sgl).length = (sgl.map fun sg => sg.len).sum := by
  simp only [packet_bytes, List.length_flatMap, page_bytes_length]

theorem packet_bytes_take (memory : PageMemory) {len : Nat} {sgl : List RxSegment}
    (hlen : (sgl.map fun sg => sg.len).sum = len) :
    (packet_bytes memory sgl).take len = packet_bytes memory sgl :=
  List.take_of_length_le (Nat.le_of_eq ((packet_bytes_length memory sgl).trans hlen))

/-- The fragments are the segments, as far as the array goes. -/
theorem fill_frags_eq (MAX_SKB_FRAGS nr_frags : Nat) (sgl : List RxSegment) (frags : List SkbFrag) :
    fill_frags MAX_SKB_FRAGS sgl.length nr_frags sgl frags =
      frags ++ (sgl.take (MAX_SKB_FRAGS - nr_frags)).map RxSegment.frag := by
  induction sgl generalizing nr_frags frags with
  | nil => simp [fill_frags]
  | cons sg sgl ih =>
    rw [List.length_cons, fill_frags, ih, skb_fill_page_desc]
    by_cases hroom : nr_frags < MAX_SKB_FRAGS
    · have hrest : MAX_SKB_FRAGS - nr_frags = MAX_SKB_FRAGS - (nr_frags + 1) + 1 := by omega
      rw [if_pos hroom, hrest, List.take_succ_cons, List.map_cons, List.append_assoc]
      rfl
    · have hnone : MAX_SKB_FRAGS - nr_frags = 0 := by omega
      have hnone' : MAX_SKB_FRAGS - (nr_frags + 1) = 0 := by omega
      rw [if_neg hroom, hnone, hnone', List.take_zero, List.take_zero]

theorem put_pages_eq (sgl : List RxSegment) :
    put_pages sgl.length sgl = sgl.map fun sg => sg.pg := by
  induction sgl with
  | nil => rfl
  | cons sg sgl ih => rw [List.length_cons, put_pages, ih, List.map_cons]

/-- A packet of a network queue is preserved when its delivery is, with the pages that are put
after a failure. -/
theorem rx_pkt_process_eq (MAX_SKB_FRAGS : Nat) (memory : PageMemory) (napi_alloc_skb : Bool)
    {xpriv : RxPriv} (rx_qstats : List RxStats) {qhndl : BitVec 64} (len : Nat)
    {sgl : List RxSegment} {netif_f_sg : Bool} (hnetdev : xpriv.netdev = some netif_f_sg)
    (hsome : sgl ≠ []) (hqueue : rx_q_no xpriv qhndl < QDMA_NET_QUEUE) :
    let call := onic_rx_pkt_process MAX_SKB_FRAGS memory napi_alloc_skb xpriv rx_qstats qhndl len
      sgl.length sgl
    let delivery := onic_rx_deliver MAX_SKB_FRAGS memory napi_alloc_skb netif_f_sg
      (rx_q_no xpriv qhndl) len sgl.length sgl
    call.delivered = delivery.2.1 ∧
      call.put = if delivery.1 < 0 then delivery.2.2 ++ sgl.map (fun sg => sg.pg) else delivery.2.2 := by
  have hcount : sgl.length ≠ 0 := fun hzero => hsome (List.length_eq_zero_iff.mp hzero)
  simp only [onic_rx_pkt_process, hnetdev, hcount, if_false, if_neg (Nat.not_le.mpr hqueue),
    put_pages_eq]
  exact ⟨trivial, trivial⟩

/-- A packet that is copied is preserved exactly when it is one segment: of others, only the
first page is put. -/
theorem copied_preserved_iff (memory : PageMemory) {len : Nat} {head : RxSegment}
    {next : List RxSegment} (hlen : ((head :: next).map fun sg => sg.len).sum = len)
    {call : RxCall} {q_no : Nat} (hput : call.put = [head.pg])
    (hdelivered : call.delivered =
      some ⟨page_bytes memory head.pg head.offset len, [], len, 0, q_no⟩) :
    Preserved memory len (head :: next) call ↔ (head :: next).length = 1 := by
  have hconsumed : call.consumed = [head.pg] := by
    simp only [RxCall.consumed, hput, hdelivered, List.map_nil, List.append_nil]
  refine ⟨fun hpreserved => ?_, fun hone => ?_⟩
  · have hlength := hpreserved.pages.length_eq
    rw [hconsumed, List.length_map] at hlength
    exact hlength.symm
  · obtain rfl : next = [] := List.length_eq_zero_iff.mp (Nat.succ.inj hone)
    refine ⟨fun skb hskb => ?_, by rw [hconsumed]; rfl⟩
    cases hdelivered.symm.trans hskb
    rw [packet_bytes_take memory hlen]
    simp only [List.map_singleton, List.sum_singleton] at hlen
    simp [RxSkb.bytes, packet_bytes, hlen]

theorem frags_bytes (memory : PageMemory) (sgl : List RxSegment) :
    ((sgl.map RxSegment.frag).flatMap fun frag => page_bytes memory frag.pg frag.offset frag.len) =
      packet_bytes memory sgl := by
  rw [List.flatMap_map]
  rfl

theorem frags_length (memory : PageMemory) (sgl : List RxSegment) :
    ((sgl.map RxSegment.frag).flatMap fun frag =>
      page_bytes memory frag.pg frag.offset frag.len).length = (sgl.map fun sg => sg.len).sum := by
  rw [frags_bytes, packet_bytes_length]

/-- The first segment, after what is pulled from it. -/
def pulled (sg : RxSegment) : RxSegment :=
  ⟨sg.pg, (sg.offset + ONIC_RX_PULL_LEN) % 2 ^ 32, (2 ^ 32 + sg.len - ONIC_RX_PULL_LEN) % 2 ^ 32⟩

/-- What is pulled from a segment and what is left of it are its bytes. -/
theorem pulled_bytes (memory : PageMemory) {sg : RxSegment} (hfits : sg.offset + sg.len < 2 ^ 32)
    (hpull : ONIC_RX_PULL_LEN ≤ sg.len) :
    page_bytes memory sg.pg sg.offset ONIC_RX_PULL_LEN ++
        page_bytes memory (pulled sg).pg (pulled sg).offset (pulled sg).len =
      page_bytes memory sg.pg sg.offset sg.len := by
  have hoffset : (pulled sg).offset = sg.offset + ONIC_RX_PULL_LEN := Nat.mod_eq_of_lt (by omega)
  have hlen : (pulled sg).len = sg.len - ONIC_RX_PULL_LEN := by
    simp only [pulled]
    omega
  rw [hoffset, hlen, pulled, ← page_bytes_add, Nat.add_sub_cancel' hpull]

/-- A packet that is delivered in fragments is preserved exactly when its first segment has what
is pulled from it and the array has an entry for each segment. -/
theorem fragments_preserved_iff (MAX_SKB_FRAGS : Nat) (memory : PageMemory) {len : Nat}
    {head : RxSegment} {next : List RxSegment} (hfits : head.offset + head.len < 2 ^ 32)
    (hlen : ((head :: next).map fun sg => sg.len).sum = len)
    {call : RxCall} {data_len q_no : Nat} (hput : call.put = [])
    (hdelivered : call.delivered =
      some ⟨page_bytes memory head.pg head.offset ONIC_RX_PULL_LEN,
        ((pulled head :: next).take MAX_SKB_FRAGS).map RxSegment.frag, len, data_len, q_no⟩) :
    Preserved memory len (head :: next) call ↔
      ONIC_RX_PULL_LEN ≤ head.len ∧ (head :: next).length ≤ MAX_SKB_FRAGS := by
  have hconsumed : call.consumed =
      ((pulled head :: next).take MAX_SKB_FRAGS).map fun sg => sg.pg := by
    simp only [RxCall.consumed, hput, hdelivered, List.nil_append, List.map_map, Function.comp_def,
      RxSegment.frag]
  refine ⟨fun hpreserved => ?_, fun ⟨hpull, hroom⟩ => ?_⟩
  · have hlength := hpreserved.pages.length_eq
    rw [hconsumed, List.length_map, List.length_map, List.length_take, List.length_cons,
      List.length_cons] at hlength
    have hroom : (pulled head :: next).length ≤ MAX_SKB_FRAGS := by
      rw [List.length_cons]
      omega
    refine ⟨?_, hroom⟩
    by_contra hshort
    -- The length of the first fragment has wrapped.
    have hwrapped : (pulled head).len = 2 ^ 32 + head.len - ONIC_RX_PULL_LEN :=
      Nat.mod_eq_of_lt (by omega)
    have hbytes := congrArg List.length (hpreserved.data _ hdelivered).1
    rw [packet_bytes_take memory hlen, packet_bytes_length, RxSkb.bytes, List.take_of_length_le hroom,
      List.length_append, page_bytes_length, frags_length, List.map_cons, List.map_cons,
      List.sum_cons, List.sum_cons, hwrapped] at hbytes
    simp only [ONIC_RX_PULL_LEN] at hbytes hshort
    omega
  · have hall : (pulled head :: next).take MAX_SKB_FRAGS = pulled head :: next :=
      List.take_of_length_le hroom
    refine ⟨fun skb hskb => ?_, ?_⟩
    · cases hdelivered.symm.trans hskb
      rw [packet_bytes_take memory hlen, RxSkb.bytes, hall, frags_bytes, packet_bytes, packet_bytes,
        List.flatMap_cons, List.flatMap_cons, ← List.append_assoc, pulled_bytes memory hfits hpull]
      exact ⟨rfl, rfl⟩
    · rw [hconsumed, hall]
      exact List.Perm.refl _

section Paths

variable (MAX_SKB_FRAGS : Nat) (memory : PageMemory) {netif_f_sg : Bool} (q_no : Nat) {len : Nat}
  (head : RxSegment) (next : List RxSegment)

theorem rx_deliver_failed :
    onic_rx_deliver MAX_SKB_FRAGS memory false netif_f_sg q_no len (head :: next).length
        (head :: next) = (-ENOMEM, none, []) := by
  simp [onic_rx_deliver]

theorem rx_deliver_copied (hcopy : len ≤ ONIC_RX_COPY_THRES ∨ !netif_f_sg) :
    onic_rx_deliver MAX_SKB_FRAGS memory true netif_f_sg q_no len (head :: next).length
        (head :: next) =
      (0, some ⟨page_bytes memory head.pg head.offset len, [], len, 0, q_no⟩, [head.pg]) := by
  have hcount : (head :: next).length ≠ 0 := Nat.succ_ne_zero _
  simp only [onic_rx_deliver, hcount, if_false, if_pos hcopy]
  rfl

theorem rx_deliver_fragments (hcopy : ¬(len ≤ ONIC_RX_COPY_THRES ∨ !netif_f_sg)) :
    onic_rx_deliver MAX_SKB_FRAGS memory true netif_f_sg q_no len (head :: next).length
        (head :: next) =
      (0, some ⟨page_bytes memory head.pg head.offset ONIC_RX_PULL_LEN,
        ((pulled head :: next).take MAX_SKB_FRAGS).map RxSegment.frag, len,
        len - ONIC_RX_PULL_LEN, q_no⟩, []) := by
  have hcount : (head :: next).length ≠ 0 := Nat.succ_ne_zero _
  have hfill := fill_frags_eq MAX_SKB_FRAGS 0 (pulled head :: next) []
  rw [List.nil_append, Nat.sub_zero] at hfill
  simp only [onic_rx_deliver, hcount, if_false, if_neg hcopy]
  rw [← hfill]
  rfl

end Paths

/-- A packet is preserved exactly when it can be delivered. -/
theorem deliver_preserved_iff (MAX_SKB_FRAGS : Nat) (memory : PageMemory)
    (napi_alloc_skb netif_f_sg : Bool) {len q_no : Nat} {head : RxSegment} {next : List RxSegment}
    (hfits : head.offset + head.len < 2 ^ 32)
    (hlen : ((head :: next).map fun sg => sg.len).sum = len) {call : RxCall}
    (hdelivered : call.delivered = (onic_rx_deliver MAX_SKB_FRAGS memory napi_alloc_skb netif_f_sg
      q_no len (head :: next).length (head :: next)).2.1)
    (hput : call.put =
      let delivery := onic_rx_deliver MAX_SKB_FRAGS memory napi_alloc_skb netif_f_sg q_no len
        (head :: next).length (head :: next)
      if delivery.1 < 0 then delivery.2.2 ++ (head :: next).map (fun sg => sg.pg)
      else delivery.2.2) :
    Preserved memory len (head :: next) call ↔
      Deliverable MAX_SKB_FRAGS napi_alloc_skb netif_f_sg len (head :: next) := by
  cases napi_alloc_skb with
  | false =>
    rw [rx_deliver_failed] at hdelivered hput
    refine iff_of_true ⟨fun skb hskb => ?_, ?_⟩ (by simp [Deliverable])
    · rw [hdelivered] at hskb
      cases hskb
    · simp [RxCall.consumed, hput, hdelivered, ENOMEM]
  | true =>
    by_cases hcopy : len ≤ ONIC_RX_COPY_THRES ∨ !netif_f_sg
    · rw [rx_deliver_copied MAX_SKB_FRAGS memory q_no head next hcopy] at hdelivered hput
      rw [copied_preserved_iff memory hlen hput hdelivered, Deliverable, if_pos hcopy]
      exact (imp_iff_right rfl).symm
    · rw [rx_deliver_fragments MAX_SKB_FRAGS memory q_no head next hcopy] at hdelivered hput
      rw [fragments_preserved_iff MAX_SKB_FRAGS memory hfits hlen hput hdelivered, Deliverable,
        if_neg hcopy]
      simp

/-- Receiving preserves a packet exactly when it comes from a queue of the network device and can
be delivered. -/
theorem rx_pkt_process_preserved_iff (MAX_SKB_FRAGS : Nat) (memory : PageMemory)
    (napi_alloc_skb : Bool) (xpriv : RxPriv) (rx_qstats : List RxStats) (qhndl : BitVec 64)
    (len : Nat) (sgl : List RxSegment) (hsome : sgl ≠ [])
    (hfits : ∀ sg ∈ sgl, sg.offset + sg.len < 2 ^ 32) (hlen : (sgl.map fun sg => sg.len).sum = len) :
    Preserved memory len sgl (onic_rx_pkt_process MAX_SKB_FRAGS memory napi_alloc_skb xpriv rx_qstats
        qhndl len sgl.length sgl) ↔
      ∃ netif_f_sg, xpriv.netdev = some netif_f_sg ∧ rx_q_no xpriv qhndl < QDMA_NET_QUEUE ∧
        Deliverable MAX_SKB_FRAGS napi_alloc_skb netif_f_sg len sgl := by
  have hlost (call : RxCall) (hput : call.put = []) (hdelivered : call.delivered = none) :
      ¬Preserved memory len sgl call := by
    intro hpreserved
    have hlength := hpreserved.pages.length_eq
    simp only [RxCall.consumed, hput, hdelivered, List.append_nil, List.length_nil,
      List.length_map] at hlength
    exact hsome (List.length_eq_zero_iff.mp hlength.symm)
  cases hnetdev : xpriv.netdev with
  | none =>
    refine iff_of_false (hlost _ ?_ ?_) (by simp) <;> simp [onic_rx_pkt_process, hnetdev]
  | some netif_f_sg =>
    by_cases hqueue : rx_q_no xpriv qhndl < QDMA_NET_QUEUE
    · simp only [Option.some.injEq, exists_eq_left', hqueue, true_and]
      obtain ⟨hdelivered, hput⟩ :=
        rx_pkt_process_eq MAX_SKB_FRAGS memory napi_alloc_skb rx_qstats len hnetdev hsome hqueue
      generalize onic_rx_pkt_process MAX_SKB_FRAGS memory napi_alloc_skb xpriv rx_qstats qhndl len
        sgl.length sgl = call at hdelivered hput
      obtain ⟨head, next, rfl⟩ := List.exists_cons_of_ne_nil hsome
      exact deliver_preserved_iff MAX_SKB_FRAGS memory napi_alloc_skb netif_f_sg
        (hfits head (List.mem_cons_self ..)) hlen hdelivered hput
    · refine iff_of_false (hlost _ ?_ ?_) (by simp [hqueue]) <;>
        simp [onic_rx_pkt_process, hnetdev, hsome, Nat.not_lt.mp hqueue]

/-- A packet in two segments goes up in two fragments. -/
theorem two_segments_preserved :
    let call := onic_rx_pkt_process 17 (fun pg k => BitVec.ofNat 8 (pg + k)) true
      ⟨some true, 0x100⟩ [⟨0, 0⟩] 0x100 1500 2 [⟨3, 0, 1024⟩, ⟨5, 0, 476⟩]
    Preserved (fun pg k => BitVec.ofNat 8 (pg + k)) 1500 [⟨3, 0, 1024⟩, ⟨5, 0, 476⟩] call :=
  (rx_pkt_process_preserved_iff 17 (fun pg k => BitVec.ofNat 8 (pg + k)) true ⟨some true, 0x100⟩
    [⟨0, 0⟩] 0x100 1500 [⟨3, 0, 1024⟩, ⟨5, 0, 476⟩] (by decide) (by decide) (by decide)).mpr
    ⟨true, rfl, by decide, fun _ => by decide⟩

/-- Without `NETIF_F_SG`, a packet in two segments loses its second page. -/
theorem two_segments_lost :
    let call := onic_rx_pkt_process 17 (fun _ _ => 0) true ⟨some false, 0x100⟩ [⟨0, 0⟩] 0x100 1500 2
      [⟨3, 0, 1024⟩, ⟨5, 0, 476⟩]
    call.delivered.isSome ∧ ¬Preserved (fun _ _ => 0) 1500 [⟨3, 0, 1024⟩, ⟨5, 0, 476⟩] call := by
  intro call
  exact ⟨rfl, fun hpreserved => absurd hpreserved.pages.length_eq (by decide)⟩

end reconic.onic_main
