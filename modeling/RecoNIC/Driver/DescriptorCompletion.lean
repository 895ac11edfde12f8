import RecoNIC.Driver.DescriptorPlan
import RecoNIC.Ring.Counts

open ranges ring

namespace reconic.libqdma

/-- The descriptors of requests one after the other. -/
def stream (requests : List qdma_request) : List Span := requests.flatMap plan

@[simp] theorem stream_nil : stream [] = [] := rfl

@[simp] theorem stream_cons (req : qdma_request) (requests : List qdma_request) :
    stream (req :: requests) = plan req ++ stream requests := by simp [stream]

@[simp] theorem stream_append (l l' : List qdma_request) : stream (l ++ l') = stream l ++ stream l' := by
  simp [stream]

def requests (l : List qdma_sgt_req_cb) : List qdma_request := l.map qdma_sgt_req_cb.req

@[simp] theorem requests_nil : requests [] = [] := rfl

@[simp] theorem requests_cons (cb : qdma_sgt_req_cb) (l : List qdma_sgt_req_cb) :
    requests (cb :: l) = cb.req :: requests l := rfl

@[simp] theorem requests_append (l l' : List qdma_sgt_req_cb) :
    requests (l ++ l') = requests l ++ requests l' := by simp [requests]

def finished (done : List Done) : List qdma_request := done.map Done.req

@[simp] theorem finished_nil : finished [] = [] := rfl

@[simp] theorem finished_append (l l' : List Done) : finished (l ++ l') = finished l ++ finished l' := by
  simp [finished]

/-- The pending requests with credit for some descriptors more, of which `used` are reported
since the last request that is done: all of a request's descriptors are still to be reported,
except for those that the first one has had credit for. -/
def Owing (credit : Nat) (pend_list : List qdma_sgt_req_cb) (used : Nat) : Prop :=
  match pend_list with
  | [] => used = credit
  | cb :: rest => cb.desc_nr + used = (plan cb.req).length + credit ∧
      ∀ c ∈ rest, c.desc_nr = (plan c.req).length

/-- The same when the credit is not enough for the first of the requests. -/
def Owed (credit : Nat) (pend_list : List qdma_sgt_req_cb) (used : Nat) : Prop :=
  Owing credit pend_list used ∧ ∀ cb ∈ pend_list.head?, credit < cb.desc_nr

theorem Owing.rest {credit used : Nat} {cb : qdma_sgt_req_cb} {rest : List qdma_sgt_req_cb}
    (h : Owing credit (cb :: rest) used) (henough : cb.desc_nr ≤ credit) :
    used = (plan cb.req).length + (credit - cb.desc_nr) ∧
      Owing (credit - cb.desc_nr) rest (credit - cb.desc_nr) := by
  obtain ⟨hfirst, hrest⟩ := h
  refine ⟨by omega, ?_⟩
  cases rest with
  | nil => rfl
  | cons c rest =>
    exact ⟨by rw [hrest c List.mem_cons_self], fun d hd => hrest d (List.mem_cons_of_mem _ hd)⟩

/-- Requests are done in order, each when all of its descriptors have been reported. -/
structure Completed (pend_list : List qdma_sgt_req_cb) (used : Nat)
    (r : Nat × List qdma_sgt_req_cb × List Done) : Prop where
  order : finished r.2.2 ++ requests r.2.1 = requests pend_list
  used : ∃ left, used = (stream (finished r.2.2)).length + left ∧ Owed r.1 r.2.1 left
  done : ∀ d ∈ r.2.2, d.bytes_done = d.req.count ∧ d.err = 0
  full : ∀ cb ∈ r.2.1, cb.offset = cb.req.count

theorem completed {pend_list : List qdma_sgt_req_cb} {credit used : Nat}
    (hwf : ∀ cb ∈ pend_list, Wellformed cb.req) (hfull : ∀ cb ∈ pend_list, cb.offset = cb.req.count)
    (h : Owing credit pend_list used) :
    Completed pend_list used (complete_requests credit pend_list) := by
  induction pend_list generalizing credit used with
  | nil => exact ⟨rfl, ⟨used, (Nat.zero_add used).symm, h, fun cb hcb => (by cases hcb)⟩,
      fun d hd => (by cases hd), hfull⟩
  | cons cb rest ih =>
    have hoffset := hfull cb List.mem_cons_self
    have hdone : qdma_sgt_req_done cb = ⟨cb.req, cb.req.count, 0⟩ := by
      rw [qdma_sgt_req_done, hoffset, if_neg (by simp)]
    have hwf' : ∀ c ∈ rest, Wellformed c.req := fun c hc => hwf c (List.mem_cons_of_mem _ hc)
    have hfull' : ∀ c ∈ rest, c.offset = c.req.count := fun c hc => hfull c (List.mem_cons_of_mem _ hc)
    rw [complete_requests]
    by_cases henough : credit ≥ cb.desc_nr
    · obtain ⟨hused, hrest⟩ := h.rest henough
      rw [if_pos henough]
      by_cases hnone : credit - cb.desc_nr = 0
      · rw [if_pos hnone, hdone]
        rw [hnone] at hused hrest
        refine ⟨rfl, ⟨0, by simpa [finished] using hused, hrest, fun c hc => ?_⟩, ?_, hfull'⟩
        · cases rest with
          | nil => cases hc
          | cons d rest =>
            obtain rfl : c = d := by simpa using hc.symm
            have := List.length_pos_iff.mpr (hwf' c List.mem_cons_self).plan_ne_nil
            have := hrest.1
            omega
        · intro d hd
          rw [List.mem_singleton.mp hd]
          exact ⟨rfl, rfl⟩
      · rw [if_neg hnone]
        have hih := ih hwf' hfull' hrest
        generalize complete_requests (credit - cb.desc_nr) rest = r at hih
        obtain ⟨cr, pend, done⟩ := r
        obtain ⟨horder, ⟨left, hleft, howed⟩, hd, hf⟩ := hih
        dsimp only at horder hleft howed hd hf ⊢
        rw [hdone]
        refine ⟨by simpa [finished] using horder, ⟨left, ?_, howed⟩, ?_, hf⟩
        · simp only [finished, List.map_cons, stream_cons, List.length_append] at hleft ⊢
          omega
        · intro d hmem
          rcases List.mem_cons.mp hmem with rfl | hmem
          · exact ⟨rfl, rfl⟩
          · exact hd d hmem
    · rw [if_neg henough]
      obtain ⟨hfirst, hothers⟩ := h
      refine ⟨rfl, ⟨used, (Nat.zero_add used).symm, ⟨by dsimp only; omega, hothers⟩, fun c hc => ?_⟩,
        fun d hd => (by cases hd), fun c hc => ?_⟩
      · cases hc
        dsimp only
        omega
      · rcases List.mem_cons.mp hc with rfl | hc
        · exact hoffset
        · exact hfull' c hc

end reconic.libqdma
