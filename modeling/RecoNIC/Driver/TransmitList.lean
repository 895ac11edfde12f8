import RecoNIC.Driver.StartXmit

open reconic.onic_cdev

namespace reconic.onic_main

/-- The request with which `onic_start_xmit` calls `qdma_queue_packet_write`. Nothing that the
call answers has an effect on it. -/
def packet_write_request (MAX_SKB_FRAGS : Nat) (skb : SkBuff) (netdev : NetDevice)
    (answers : Answers) : Option QdmaRequest :=
  (onic_start_xmit MAX_SKB_FRAGS skb netdev [] { answers with qdma_queue_packet_write := 0 }).handed.map
    fun req => req.qdma

section TransmitList

variable {MAX_SKB_FRAGS : Nat}

/-- A scatter list of segments with the lengths given, linked up to the last. -/
structure Listed (lens : List Nat) (req : QdmaRequest) : Prop where
  segments : req.sgl.map (fun sg => sg.len) = lens
  linked : ∀ i sg, req.sgl[i]? = some sg →
    sg.next = if i + 1 = req.sgl.length then none else some (i + 1)
  sgcnt : req.sgcnt = lens.length
  count : req.count = lens.sum

theorem Listed.length {lens : List Nat} {req : QdmaRequest} (hlisted : Listed lens req) :
    req.sgl.length = lens.length := by
  rw [← hlisted.segments, List.length_map]

theorem map_modify_len (sgl : List SwSg) (i : Nat) (next : Option Nat) :
    (sgl.modify i fun sg => { sg with next := next }).map (fun sg => sg.len) =
      sgl.map fun sg => sg.len := by
  induction sgl generalizing i with
  | nil => cases i <;> rfl
  | cons sg sgl ih => cases i <;> simp [ih]

/-- The next segment comes behind the others, and the last of them is linked to it. -/
theorem Listed.next_segment {lens : List Nat} {req : QdmaRequest} (hlisted : Listed lens req)
    (hsome : lens ≠ []) (size : Nat) (hsum : lens.sum + size < 2 ^ 32) (dma_addr : Nat) :
    Listed (lens ++ [size]) { req.next_segment size dma_addr with sgcnt := req.sgcnt + 1 } := by
  obtain ⟨last, hlast⟩ := Nat.exists_eq_succ_of_ne_zero (List.length_pos_of_ne_nil hsome).ne'
  have hlength : req.sgl.length = last + 1 := hlisted.length.trans hlast
  refine ⟨?_, fun i sg hsg => ?_, ?_, ?_⟩
  · simp only [QdmaRequest.next_segment, List.map_append, List.map_singleton, map_modify_len,
      hlisted.segments]
  · have hinside := List.getElem?_eq_some_iff.mp hsg |>.1
    simp only [next_segment_length, hlength] at hinside hsg ⊢
    obtain hbefore | rfl | rfl : i < last ∨ i = last ∨ i = last + 1 := by omega
    · rw [next_segment_before hlength hbefore] at hsg
      rw [hlisted.linked i sg hsg, hlength, if_neg (by omega), if_neg (by omega)]
    · have hold : req.sgl[i]? = some (req.sgl[i]) := List.getElem?_eq_getElem (by omega)
      rw [next_segment_last hlength hold] at hsg
      cases hsg
      rw [if_neg (by omega)]
    · rw [← hlength, next_segment_new] at hsg
      cases hsg
      rw [if_pos rfl]
  · rw [List.length_append, List.length_singleton, hlisted.sgcnt]
  · simp only [QdmaRequest.next_segment, hlisted.count, List.sum_append_nat, List.sum_singleton,
      Nat.mod_eq_of_lt hsum]

/-- When the loop maps all fragments, it has listed them behind the segments it has found. -/
theorem map_frags_listed {answers : Answers} {i : Nat} {frags lens : List Nat} {req : QdmaRequest}
    (hlisted : Listed lens req) (hsome : lens ≠ []) (hsum : lens.sum + frags.sum < 2 ^ 32)
    (hmapped : (map_frags MAX_SKB_FRAGS answers i frags req).1 = true) :
    Listed (lens ++ frags) (map_frags MAX_SKB_FRAGS answers i frags req).2.1 := by
  induction frags generalizing i lens req with
  | nil => simpa [map_frags] using hlisted
  | cons size frags ih =>
    rw [List.sum_cons] at hsum
    have hnext := hlisted.next_segment hsome size (by omega) (answers.dma_addr (i + 1))
    cases herror : dma_mapping_error (answers.dma_addr (i + 1)) with
    | true => simp [map_frags, herror] at hmapped
    | false =>
      simp only [map_frags, herror, Bool.false_eq_true, if_false] at hmapped ⊢
      have htotal : (lens ++ [size]).sum + frags.sum < 2 ^ 32 := by
        simp only [List.sum_append_nat, List.sum_singleton]
        omega
      have hrest := ih hnext (by simp) htotal hmapped
      rwa [List.append_assoc, List.singleton_append] at hrest

/-- A buffer that is mapped whole is listed whole. -/
theorem map_skb_listed {skb : SkBuff} {answers : Answers} (hlen : skb.len < 2 ^ 32)
    (hmapped : (map_skb MAX_SKB_FRAGS skb answers).1 = true) :
    Listed (skb.headlen :: skb.frags) (map_skb MAX_SKB_FRAGS skb answers).2.1 := by
  cases herror : dma_mapping_error (answers.dma_addr 0) with
  | true => simp [map_skb, herror] at hmapped
  | false =>
    simp only [map_skb, herror, Bool.false_eq_true, if_false] at hmapped ⊢
    have hhead : Listed [skb.headlen]
        ⟨false, false, skb.headlen, false, false, 1, [⟨none, 0, 0, skb.headlen, answers.dma_addr 0⟩]⟩ := by
      refine ⟨rfl, fun i sg hsg => ?_, rfl, List.sum_singleton.symm⟩
      cases i with
      | zero =>
        cases hsg
        rfl
      | succ i => simp at hsg
    exact map_frags_listed hhead (List.cons_ne_nil _ _) (by rwa [List.sum_singleton]) hmapped

/-- The request is complete: its list holds the head and the fragments, and no element lies
outside `sgl[MAX_SKB_FRAGS]`. -/
structure CompleteInBounds (MAX_SKB_FRAGS : Nat) (skb : SkBuff) (req : QdmaRequest) : Prop where
  inside : ∀ i < req.sgl.length, i < MAX_SKB_FRAGS
  elements : req.sgl.length = 1 + skb.frags.length
  linked : ∀ i sg, req.sgl[i]? = some sg →
    sg.next = if i + 1 = req.sgl.length then none else some (i + 1)
  sgcnt : req.sgcnt = 1 + skb.frags.length
  segments : req.sgl.map (fun sg => sg.len) = skb.headlen :: skb.frags
  count : req.count = skb.len

theorem map_frags_dma_addr {answers answers' : Answers} (hsame : answers.dma_addr = answers'.dma_addr)
    (frag_index : Nat) (frags : List Nat) (req : QdmaRequest) :
    map_frags MAX_SKB_FRAGS answers frag_index frags req =
      map_frags MAX_SKB_FRAGS answers' frag_index frags req := by
  induction frags generalizing frag_index req with
  | nil => rfl
  | cons size frags ih => simp only [map_frags, hsame, ih]

/-- Of the answers, the mappings alone matter. -/
theorem map_skb_dma_addr (skb : SkBuff) {answers answers' : Answers}
    (hsame : answers.dma_addr = answers'.dma_addr) :
    map_skb MAX_SKB_FRAGS skb answers = map_skb MAX_SKB_FRAGS skb answers' := by
  simp only [map_skb, hsame, map_frags_dma_addr hsame]

theorem xmit_request_handed (skb : SkBuff) (netdev : NetDevice) (answers : Answers) :
    ((xmit_request MAX_SKB_FRAGS skb netdev [] { answers with qdma_queue_packet_write := 0 }).handed.map
        fun req => req.qdma) =
      if (map_skb MAX_SKB_FRAGS skb answers).1 then
        some { (map_skb MAX_SKB_FRAGS skb answers).2.1 with
          dma_mapped := true, check_qstate_disabled := true, fp_done := true, uld_data := true }
      else none := by
  have hsame : map_skb MAX_SKB_FRAGS skb { answers with qdma_queue_packet_write := 0 } =
      map_skb MAX_SKB_FRAGS skb answers :=
    map_skb_dma_addr skb rfl
  simp only [xmit_request, hsame]
  cases (map_skb MAX_SKB_FRAGS skb answers).1 <;> rfl

/-- A request that is handed over comes from a padded buffer that is mapped whole. -/
theorem packet_write_request_some {skb : SkBuff} {netdev : NetDevice} {answers : Answers}
    {padded : SkBuff} (hpadto : answers.skb_put_padto = some padded) {req : QdmaRequest}
    (hreq : packet_write_request MAX_SKB_FRAGS skb netdev answers = some req) :
    (map_skb MAX_SKB_FRAGS padded answers).1 = true ∧
      req = { (map_skb MAX_SKB_FRAGS padded answers).2.1 with
        dma_mapped := true, check_qstate_disabled := true, fp_done := true, uld_data := true } := by
  obtain ⟨_, alloc, dma_addr, write⟩ := answers
  cases hpadto
  simp only [packet_write_request, onic_start_xmit] at hreq
  repeat' split at hreq
  case isFalse =>
    have hhanded := hreq.symm.trans (xmit_request_handed padded netdev
      ⟨some padded, alloc, dma_addr, write⟩)
    rw [Option.some_eq_ite_none_right] at hhanded
    exact ⟨hhanded.1, Option.some.inj hhanded.2⟩
  all_goals cases hreq

/-- The transmit list is in bounds exactly when the buffer has fewer fragments than the array has
elements, and it is complete in every case. -/
theorem packet_write_request_in_bounds_iff (MAX_SKB_FRAGS : Nat) (skb padded : SkBuff)
    (netdev : NetDevice) (answers : Answers) (hpadto : answers.skb_put_padto = some padded)
    (hlen : padded.len < 2 ^ 32) (req : QdmaRequest)
    (hreq : packet_write_request MAX_SKB_FRAGS skb netdev answers = some req) :
    CompleteInBounds MAX_SKB_FRAGS padded req ↔ padded.frags.length < MAX_SKB_FRAGS := by
  obtain ⟨hmapped, rfl⟩ := packet_write_request_some hpadto hreq
  have hlisted := map_skb_listed hlen hmapped
  have helements : (map_skb MAX_SKB_FRAGS padded answers).2.1.sgl.length = 1 + padded.frags.length := by
    rw [hlisted.length, List.length_cons, Nat.add_comm]
  refine ⟨fun hcomplete => hcomplete.inside _ (by simp only [helements]; omega), fun hfewer => ?_⟩
  exact
    { inside := fun i hi => by simp only [helements] at hi; omega
      elements := helements
      linked := hlisted.linked
      sgcnt := by rw [hlisted.sgcnt, List.length_cons, Nat.add_comm]
      segments := hlisted.segments
      count := hlisted.count }

/-- A head and a fragment. -/
theorem one_fragment_in_bounds :
    let skb : SkBuff := ⟨64, [100], 0, false⟩
    let answers : Answers := ⟨some skb, true, fun k => 0x1000 * k, 0⟩
    ∃ req, packet_write_request 17 skb ⟨true, true, 1⟩ answers = some req ∧ CompleteInBounds 17 skb req := by
  intro skb answers
  refine ⟨_, rfl, ?_⟩
  exact (packet_write_request_in_bounds_iff 17 skb skb ⟨true, true, 1⟩ answers rfl (by decide) _ rfl).mpr
    (by decide)

/-- With as many fragments as the array has elements, the last one is written behind it. -/
theorem full_skb_out_of_bounds :
    let skb : SkBuff := ⟨64, List.replicate 17 100, 0, false⟩
    let answers : Answers := ⟨some skb, true, fun k => 0x1000 * k, 0⟩
    ∃ req, packet_write_request 17 skb ⟨true, true, 1⟩ answers = some req ∧
      ¬CompleteInBounds 17 skb req := by
  intro skb answers
  exact ⟨_, rfl, fun hcomplete => absurd (hcomplete.inside 17 (by decide)) (by decide)⟩

end TransmitList

end reconic.onic_main
