import RecoNIC.Driver.DescriptorRing
import RecoNIC.Ranges.Spans
import RecoNIC.Ring.Slots

open ranges ring
open reconic.onic_cdev (SwSg PAGE_SIZE)

namespace reconic.libqdma

/-- The bytes of a segment. -/
def span (sg : SwSg) : Span := ⟨sg.dma_addr, sg.len⟩

def spans (sgl : List SwSg) : List Span := sgl.map span

/-- The bytes that a descriptor describes. -/
def payload (d : qdma_h2c_desc) : Span := ⟨d.src_addr, d.len⟩

/-- A request as the drivers submit them: with segments, none of them empty, which have all
of its bytes, and with packets that are not empty. -/
structure Wellformed (req : qdma_request) : Prop where
  segments : req.sgl ≠ []
  nonempty : ∀ sg ∈ req.sgl, 0 < sg.len
  count : total (spans req.sgl) = req.count
  bound : req.count < 2 ^ 32
  packet : 0 < pktsz req

/-- The descriptors of a request. -/
def plan (req : qdma_request) : List Span :=
  if h : 0 < pktsz req then cut h (spans req.sgl) 0 else []

/-- A descriptor is for at most a page. -/
theorem pktsz_le (req : qdma_request) : pktsz req ≤ PAGE_SIZE := by
  unfold pktsz
  split
  · exact Nat.min_le_right _ _
  · exact Nat.le_refl _

/-- Segments that are not empty describe no empty span. -/
theorem mem_spans {sgl : List SwSg} (h : ∀ sg ∈ sgl, 0 < sg.len) : ∀ s ∈ spans sgl, 0 < s.len := by
  intro s hs
  obtain ⟨sg, hsg, rfl⟩ := List.mem_map.mp hs
  exact h sg hsg

/-- A wellformed request has its segments cut. -/
theorem Wellformed.plan_eq {req : qdma_request} (h : Wellformed req) :
    plan req = cut h.packet (spans req.sgl) 0 := by rw [plan, dif_pos h.packet]

/-- Its descriptors describe the bytes of its segments, in order. -/
theorem Wellformed.plan_bytes {req : qdma_request} (h : Wellformed req) :
    bytes (plan req) = bytes (spans req.sgl) := by
  rw [h.plan_eq, cut_bytes h.packet (mem_spans h.nonempty)]

/-- They describe as many bytes as it counts. -/
theorem Wellformed.plan_total {req : qdma_request} (h : Wellformed req) :
    total (plan req) = req.count := by
  have := cut_total h.packet (Nat.zero_le (total (spans req.sgl)))
  rw [h.plan_eq, ← h.count]
  omega

/-- It has at least one byte. -/
theorem Wellformed.count_pos {req : qdma_request} (h : Wellformed req) : 0 < req.count := by
  obtain ⟨sg, sgl, hlist⟩ := List.exists_cons_of_ne_nil h.segments
  have hpos := h.nonempty sg (by simp [hlist])
  rw [← h.count, hlist, spans, List.map_cons, total_cons]
  exact Nat.add_pos_left hpos _

/-- It has at least one descriptor. -/
theorem Wellformed.plan_ne_nil {req : qdma_request} (h : Wellformed req) : plan req ≠ [] := by
  intro hnil
  have htotal := h.plan_total
  rw [hnil] at htotal
  exact absurd h.count_pos (by rw [← htotal]; exact Nat.lt_irrefl 0)

/-- Each of them is for at least one byte and at most a page. -/
theorem Wellformed.plan_len {req : qdma_request} (h : Wellformed req) :
    ∀ s ∈ plan req, 0 < s.len ∧ s.len ≤ PAGE_SIZE := by
  rw [h.plan_eq]
  exact fun s hs => ⟨cut_len_pos h.packet _ _ s hs,
    (cut_len_le h.packet _ _ s hs).trans (pktsz_le req)⟩

/-- What is left of the plan after some of its descriptors begins where they end. -/
theorem Wellformed.plan_drop {req : qdma_request} (h : Wellformed req) (n : Nat) :
    (plan req).drop n = cut h.packet (spans req.sgl) (total ((plan req).take n)) := by
  have hdrop := cut_drop h.packet (spans req.sgl) 0 n
  rw [Nat.zero_add] at hdrop
  rw [h.plan_eq, hdrop]

/-- Before the last descriptor of a request not all of its bytes are described. -/
theorem Wellformed.offset_lt {req : qdma_request} (h : Wellformed req) {n : Nat} :
    total ((plan req).take n) < req.count ↔ n < (plan req).length := by
  have hsum : total ((plan req).take n) + total ((plan req).drop n) = req.count := by
    rw [← total_append, List.take_append_drop, h.plan_total]
  constructor
  · intro hlt
    by_contra hge
    rw [List.drop_of_length_le (by omega)] at hsum
    simp at hsum
    omega
  · intro hn
    have hmem : (plan req)[n] ∈ plan req := List.getElem_mem hn
    have hpos := (h.plan_len _ hmem).1
    rw [List.drop_eq_getElem_cons hn, total_cons] at hsum
    omega

/-- The segment to go on with, as `qdma_sgl_find_offset` has it, is where the plan goes on. -/
structure Located (size : Nat) (hsize : 0 < size) (sgl : List SwSg) (offset i sg_offset : Nat) :
    Prop where
  rest : cut hsize (spans sgl) offset = cut hsize (spans (sgl.drop i)) sg_offset
  inside : ∃ sg sgl', sgl.drop i = sg :: sgl' ∧ sg_offset < sg.len

/-- The search for an offset ends in the segment that has it. -/
theorem find_offset_from_spec {size : Nat} (hsize : 0 < size) {sgl : List SwSg}
    (hpos : ∀ sg ∈ sgl, 0 < sg.len) {offset len : Nat} (i : Nat) (hle : len ≤ offset)
    (hlt : offset < len + total (spans sgl)) (hbound : len + total (spans sgl) < 2 ^ 32) :
    ∃ j sg_offset, find_offset_from offset i len sgl = some (i + j, sg_offset) ∧
      Located size hsize sgl (offset - len) j sg_offset := by
  induction sgl generalizing i len with
  | nil => simp [spans] at hlt; omega
  | cons sg sgl ih =>
    have hsg := hpos sg List.mem_cons_self
    simp only [spans, List.map_cons, total_cons] at hlt hbound
    have hlen : (span sg).len = sg.len := rfl
    rw [hlen] at hlt hbound
    have hsum : (len + sg.len) % 2 ^ 32 = len + sg.len := Nat.mod_eq_of_lt (by omega)
    rw [find_offset_from]
    simp only [hsum]
    split
    · next hend =>
      have hmore : sgl ≠ [] := by
        rintro rfl
        simp at hlt
        omega
      obtain ⟨next, sgl', rfl⟩ := List.exists_cons_of_ne_nil hmore
      refine ⟨1, 0, by rw [if_neg hmore], ?_, next, sgl', rfl, hpos next (by simp)⟩
      rw [spans, List.map_cons, cut, if_pos (by rw [hlen]; omega), hlen,
        show offset - len - sg.len = 0 by omega]
      rfl
    · next hne =>
      split
      · next hin =>
        refine ⟨0, offset - len, ?_, rfl, sg, sgl, rfl, by omega⟩
        congr 2
        omega
      · next hpast =>
        obtain ⟨j, sg_offset, hfind, hrest, hinside⟩ := ih
          (fun t ht => hpos t (List.mem_cons_of_mem _ ht)) (i + 1)
          (show len + sg.len ≤ offset by omega) (by rw [spans]; omega) (by rw [spans]; omega)
        refine ⟨j + 1, sg_offset, by rw [hfind]; congr 2; omega, ?_, hinside⟩
        rw [spans, List.map_cons, cut, if_pos (by rw [hlen]; omega), hlen, List.drop_succ_cons,
          ← hrest, spans, Nat.sub_sub]

/-- So it does for a request that is not finished. -/
theorem find_offset_spec {cb : qdma_sgt_req_cb} (h : Wellformed cb.req)
    (hoffset : cb.offset < cb.req.count) :
    ∃ i sg_offset, qdma_sgl_find_offset cb = some (i, sg_offset) ∧
      Located (pktsz cb.req) h.packet cb.req.sgl cb.offset i sg_offset := by
  obtain ⟨j, sg_offset, hfind, hlocated⟩ := find_offset_from_spec h.packet h.nonempty 0
    (Nat.zero_le cb.offset) (by rw [h.count]; omega) (by rw [h.count]; have := h.bound; omega)
  refine ⟨j, sg_offset, ?_, hlocated⟩
  rw [qdma_sgl_find_offset, if_neg (by omega), hfind, Nat.zero_add]

/-- Descriptors with flags are written one after the other. -/
def write_descs (rngsz : Nat) (items : List (Nat × Span)) (f : Filling) : Filling :=
  items.foldl (fun f item => write_desc rngsz item.1 item.2.start item.2.len f) f

/-- Descriptors are written one after the other. -/
theorem write_descs_append (rngsz : Nat) (items more : List (Nat × Span)) (f : Filling) :
    write_descs rngsz (items ++ more) f = write_descs rngsz more (write_descs rngsz items f) :=
  List.foldl_append

/-- A segment is written in chunks, as far as there is room. -/
theorem fill_sg_spec {size : Nat} (hsize : 0 < size) (rngsz flags : Nat) {room : Nat} (hroom : room ≠ 0)
    (tlen src_addr : Nat) (f : Filling) :
    fill_sg rngsz size flags room tlen src_addr f =
      (room - (chunks hsize src_addr tlen).length,
        write_descs rngsz (((chunks hsize src_addr tlen).take room).map fun s => (flags, s)) f) := by
  induction room generalizing tlen src_addr f with
  | zero => exact absurd rfl hroom
  | succ room ih =>
    rw [fill_sg]
    by_cases hlast : tlen ≤ size
    · rw [if_pos (by omega), Nat.min_eq_left hlast, chunks, if_pos hlast]
      simp [write_descs]
    · rw [if_neg (by omega), Nat.min_eq_right (by omega), chunks, if_neg hlast]
      cases room with
      | zero => simp [fill_sg, write_descs]
      | succ room =>
        rw [ih (Nat.succ_ne_zero room)]
        simp [write_descs]

/-- What is written for the segments from one on is the plan from there, as far as there is
room. -/
theorem fill_spec {size : Nat} (hsize : 0 < size) (rngsz : Nat) (desc_bypass : Bool) (sg_max : Nat)
    {sgl : List SwSg} (hpos : ∀ sg ∈ sgl, 0 < sg.len) (room i : Nat) {sg_offset : Nat}
    (hinside : ∀ sg ∈ sgl.head?, sg_offset < sg.len) (f : Filling) :
    ∃ items : List (Nat × Span),
      items.map Prod.snd = (cut hsize (spans sgl) sg_offset).take room ∧
        fill rngsz size desc_bypass sg_max room i sg_offset sgl f =
          (room - (cut hsize (spans sgl) sg_offset).length, write_descs rngsz items f) := by
  induction sgl generalizing room i sg_offset f with
  | nil => exact ⟨[], by simp [spans, cut], by simp [fill, spans, cut, write_descs]⟩
  | cons sg sgl ih =>
    have hin : sg_offset < sg.len := hinside sg rfl
    have hcut : cut hsize (spans (sg :: sgl)) sg_offset =
        chunks hsize (sg.dma_addr + sg_offset) (sg.len - sg_offset) ++ cut hsize (spans sgl) 0 := by
      have hlen : ¬ (span sg).len ≤ sg_offset := Nat.not_le.mpr hin
      rw [spans, List.map_cons, cut, if_neg hlen]
      rfl
    rw [hcut, fill]
    by_cases hroom : room = 0
    · subst hroom
      exact ⟨[], by simp, by simp [write_descs]⟩
    · rw [if_neg hroom, fill_sg_spec hsize rngsz _ hroom]
      obtain ⟨items, hitems, hfill⟩ := ih (fun t ht => hpos t (List.mem_cons_of_mem _ ht))
        (room - (chunks hsize (sg.dma_addr + sg_offset) (sg.len - sg_offset)).length) (i + 1)
        (fun t ht => hpos t (List.mem_cons_of_mem _ (List.mem_of_mem_head? ht)))
        (write_descs rngsz (((chunks hsize (sg.dma_addr + sg_offset)
          (sg.len - sg_offset)).take room).map fun s => (bypass_flags desc_bypass i sg_max, s)) f)
      dsimp only
      rw [hfill, ← write_descs_append, List.length_append, Nat.sub_sub]
      refine ⟨_, ?_, rfl⟩
      rw [List.map_append, hitems, List.take_append, List.map_map]
      simp [Function.comp_def]

/-- Clearing flags leaves addresses and lengths. -/
theorem clear_flags_payload (pidx : Nat) (desc : List qdma_h2c_desc) :
    (clear_flags pidx desc).map payload = desc.map payload := by
  rw [clear_flags, List.map_set]
  refine List.ext_getElem? fun k => ?_
  by_cases hk : pidx = k
  · subst hk
    by_cases hlt : pidx < desc.length
    · simp [hlt, payload]
    · simp [Nat.not_lt.mp hlt]
  · rw [List.getElem?_set_ne hk]

/-- What one descriptor changes of the ring. -/
theorem write_desc_spec {rngsz : Nat} (flags src_addr : Nat) {len : Nat} (hlen : len < 2 ^ 16)
    {f : Filling} (hpidx : f.pidx < rngsz) :
    (write_desc rngsz flags src_addr len f).desc.map payload =
        (f.desc.map payload).set f.pidx ⟨src_addr, len⟩ ∧
      (write_desc rngsz flags src_addr len f).pidx = (f.pidx + 1) % rngsz ∧
      (write_desc rngsz flags src_addr len f).data_cnt = f.data_cnt + len := by
  unfold write_desc
  dsimp only
  by_cases hwrap : f.pidx + 1 = rngsz
  · rw [if_pos hwrap]
    refine ⟨?_, by rw [hwrap, Nat.mod_self], rfl⟩
    rw [List.map_set, payload, Nat.mod_eq_of_lt hlen]
  · rw [if_neg hwrap]
    have hnext : f.pidx + 1 < rngsz := by omega
    refine ⟨?_, (Nat.mod_eq_of_lt hnext).symm, rfl⟩
    rw [clear_flags_payload, List.map_set, payload, Nat.mod_eq_of_lt hlen]

/-- Descriptors that go on with a stream are stored in a ring that has room for them. -/
theorem write_descs_spec {rngsz : Nat} {stream : List Span} {first next : Nat} {f : Filling}
    {items : List (Nat × Span)} (hlens : ∀ item ∈ items, item.2.len < 2 ^ 16)
    (hholds : Holds rngsz (f.desc.map payload) stream first next) (hpidx : f.pidx = next % rngsz)
    (hle : first ≤ next) (hroom : next + items.length < first + rngsz)
    (hitems : items.map Prod.snd = (stream.drop next).take items.length) :
    Holds rngsz ((write_descs rngsz items f).desc.map payload) stream first (next + items.length) ∧
      (write_descs rngsz items f).pidx = (next + items.length) % rngsz ∧
      (write_descs rngsz items f).data_cnt = f.data_cnt + total (items.map Prod.snd) := by
  induction items generalizing f next with
  | nil => exact ⟨hholds, hpidx, rfl⟩
  | cons item items ih =>
    rw [List.length_cons] at hroom
    have hmore : next < stream.length := by
      by_contra hend
      rw [List.drop_of_length_le (by omega)] at hitems
      simp at hitems
    rw [List.drop_eq_getElem_cons hmore, List.map_cons, List.length_cons, List.take_succ_cons] at hitems
    obtain ⟨hitem, hrest⟩ := List.cons.inj hitems
    have hslot : f.pidx < rngsz := hpidx ▸ Nat.mod_lt _ (by omega)
    obtain ⟨hdesc, hnext, hcnt⟩ :=
      write_desc_spec item.1 item.2.start (hlens item List.mem_cons_self) hslot
    have hnth : stream[next]? = some item.2 := by rw [hitem, List.getElem?_eq_getElem hmore]
    have hput := hholds.put hle (by omega) hnth
    rw [← hpidx] at hput
    obtain ⟨hholds', hpidx', hcnt'⟩ := @ih (next + 1)
      (write_desc rngsz item.1 item.2.start item.2.len f)
      (fun i hi => hlens i (List.mem_cons_of_mem _ hi)) (by rw [hdesc]; exact hput)
      (by rw [hnext, hpidx, Nat.mod_add_mod]) (by omega) (by omega) hrest
    rw [write_descs, List.foldl_cons, ← write_descs, List.length_cons, ← Nat.add_assoc,
      Nat.add_right_comm]
    refine ⟨hholds', hpidx', ?_⟩
    rw [hcnt', hcnt, List.map_cons, total_cons, Nat.add_assoc]

end reconic.libqdma
