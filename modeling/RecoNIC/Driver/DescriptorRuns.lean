import RecoNIC.Driver.DescriptorCompletion

open ranges ring
open reconic.onic_cdev (SwSg PAGE_SIZE)

namespace reconic.libqdma

/-- Positions in the stream of all descriptors: before them the descriptors are reported to the
driver, fetched by the device, given to it, and written to the ring. The last `part` ones
written are of the first request in the work list. -/
structure Marks where
  reported : Nat
  fetched : Nat
  posted : Nat
  sent : Nat
  part : Nat

/-- The first request of the work list is written up to some descriptor, the others not at
all. -/
def Started (part : Nat) (work_list : List qdma_sgt_req_cb) : Prop :=
  match work_list with
  | [] => part = 0
  | cb :: rest => cb.desc_nr = part ∧ cb.offset = total ((plan cb.req).take part) ∧
      part < (plan cb.req).length ∧ ∀ c ∈ rest, c.desc_nr = 0 ∧ c.offset = 0

/-- The requests so far, and where the queue is with them. -/
structure Tracks (J : List qdma_request) (q : qdma_descq) (m : Marks) : Prop where
  wf : ∀ req ∈ J, Wellformed req
  jobs : J = finished q.done ++ (requests q.pend_list ++ requests q.work_list)
  done : ∀ d ∈ q.done, d.bytes_done = d.req.count ∧ d.err = 0
  full : ∀ cb ∈ q.pend_list, cb.offset = cb.req.count
  owed : ∃ used, m.reported = (stream (finished q.done)).length + used ∧
    Owed q.credit q.pend_list used
  sent : m.sent = (stream (finished q.done ++ requests q.pend_list)).length + m.part
  started : Started m.part q.work_list
  reported_le : m.reported ≤ m.fetched
  fetched_le : m.fetched ≤ m.posted
  posted_le : m.posted ≤ m.sent
  avail : q.avail + m.sent + 1 = m.reported + q.rngsz
  pidx : q.pidx = m.sent % q.rngsz
  cidx : q.cidx = m.reported % q.rngsz
  cidx_hw : q.desc_cmpl_status_cidx = m.fetched % q.rngsz
  info : q.pidx_info = m.posted % q.rngsz
  holds : Holds q.rngsz (q.desc.map payload) (stream J) m.fetched m.sent
  seen : q.fetched.map payload = (stream J).take m.fetched

theorem Tracks.sent_le {J : List qdma_request} {q : qdma_descq} {m : Marks} (h : Tracks J q m) :
    m.sent ≤ (stream J).length := by
  have hsent := h.sent
  have hstarted := h.started
  rw [h.jobs]
  simp only [stream_append, List.length_append] at hsent ⊢
  cases hw : q.work_list with
  | nil =>
    rw [hw] at hstarted
    simp only [Started] at hstarted
    omega
  | cons cb rest =>
    rw [hw] at hstarted
    have := hstarted.2.2.1
    simp only [requests_cons, stream_cons, List.length_append]
    omega

theorem Tracks.wf_pend {J : List qdma_request} {q : qdma_descq} {m : Marks} (h : Tracks J q m) :
    ∀ cb ∈ q.pend_list, Wellformed cb.req := fun cb hcb =>
  h.wf _ (by rw [h.jobs]; simp only [List.mem_append]; exact .inr (.inl (List.mem_map_of_mem hcb)))

theorem Tracks.wf_work {J : List qdma_request} {q : qdma_descq} {m : Marks} (h : Tracks J q m) :
    ∀ cb ∈ q.work_list, Wellformed cb.req := fun cb hcb =>
  h.wf _ (by rw [h.jobs]; simp only [List.mem_append]; exact .inr (.inr (List.mem_map_of_mem hcb)))

/-- What reading the completion status and polling it leave as it is. -/
structure Frame (q q' : qdma_descq) : Prop where
  rngsz : q'.rngsz = q.rngsz
  polled : q'.polled = q.polled
  online : q'.online = q.online
  q_stop_wait : q'.q_stop_wait = q.q_stop_wait
  work_list : q'.work_list = q.work_list
  pidx : q'.pidx = q.pidx
  pidx_info : q'.pidx_info = q.pidx_info

theorem Frame.refl (q : qdma_descq) : Frame q q := ⟨rfl, rfl, rfl, rfl, rfl, rfl, rfl⟩

theorem Frame.trans {q q' q'' : qdma_descq} (h : Frame q q') (h' : Frame q' q'') : Frame q q'' :=
  ⟨h'.rngsz.trans h.rngsz, h'.polled.trans h.polled, h'.online.trans h.online,
    h'.q_stop_wait.trans h.q_stop_wait, h'.work_list.trans h.work_list, h'.pidx.trans h.pidx,
    h'.pidx_info.trans h.pidx_info⟩

theorem cmpl_status_frame (q : qdma_descq) : Frame q (descq_mm_n_h2c_cmpl_status q) ∧
    (descq_mm_n_h2c_cmpl_status q).proc_req_running = q.proc_req_running := by
  unfold descq_mm_n_h2c_cmpl_status
  dsimp only
  split
  · exact ⟨Frame.refl q, rfl⟩
  · split
    · exact ⟨Frame.refl q, rfl⟩
    · exact ⟨⟨rfl, rfl, rfl, rfl, rfl, rfl, rfl⟩, rfl⟩

/-- Reading the completion status reports what the device has fetched. -/
theorem cmpl_status_tracks {J : List qdma_request} {q : qdma_descq} {m : Marks} (h : Tracks J q m) :
    Tracks J (descq_mm_n_h2c_cmpl_status q) { m with reported := m.fetched } := by
  have hrf := h.reported_le
  have hfs := h.fetched_le.trans h.posted_le
  have havail := h.avail
  have hunchanged : m.fetched = m.reported → Tracks J q { m with reported := m.fetched } := by
    intro heq
    have hsame : { m with reported := m.fetched } = m := by
      obtain ⟨_, _, _, _, _⟩ := m
      dsimp only at heq
      rw [heq]
    exact hsame ▸ h
  unfold descq_mm_n_h2c_cmpl_status
  dsimp only
  rw [h.pidx, h.cidx, h.cidx_hw]
  by_cases hempty : m.sent % q.rngsz = m.reported % q.rngsz
  · rw [if_pos hempty]
    have := count_eq_of_index_eq (by omega) (by omega) hempty.symm
    exact hunchanged (by omega)
  · rw [if_neg hempty]
    by_cases hnew : m.fetched % q.rngsz = m.reported % q.rngsz
    · rw [if_pos hnew]
      exact hunchanged (count_eq_of_index_eq hrf (by omega) hnew.symm).symm
    · rw [if_neg hnew, index_ahead hrf (by omega)]
      obtain ⟨used, hused, howing, -⟩ := h.owed
      have hmore : Owing (q.credit + (m.fetched - m.reported)) q.pend_list
          (used + (m.fetched - m.reported)) := by
        unfold Owing at howing ⊢
        split at howing
        · omega
        · exact ⟨by have := howing.1; omega, howing.2⟩
      have hcompleted := completed h.wf_pend h.full hmore
      generalize complete_requests (q.credit + (m.fetched - m.reported)) q.pend_list = r at hcompleted
      obtain ⟨credit, pend_list, done⟩ := r
      obtain ⟨horder, ⟨left, hleft, howed⟩, hdone, hfull⟩ := hcompleted
      dsimp only at horder hleft howed hdone hfull
      refine ⟨h.wf, ?_, fun d hd => ?_, hfull, ⟨left, ?_, howed⟩, ?_, h.started, le_rfl,
        h.fetched_le, h.posted_le, by dsimp only; omega, rfl, rfl, rfl, h.info,
        h.holds, h.seen⟩
      · rw [h.jobs, ← horder, finished_append]
        simp only [List.append_assoc]
      · rcases List.mem_append.mp hd with hd | hd
        · exact h.done d hd
        · exact hdone d hd
      · dsimp only
        rw [finished_append, stream_append, List.length_append]
        omega
      · dsimp only
        rw [h.sent, finished_append, List.append_assoc, horder]

theorem Tracks.posted_eq {J : List qdma_request} {q : qdma_descq} {m : Marks} (h : Tracks J q m) :
    posted q = m.posted - m.fetched := by
  have hfp := h.fetched_le
  have hrf := h.reported_le
  have hps := h.posted_le
  have havail := h.avail
  have hsize : 0 < q.rngsz := by omega
  have hturn : m.posted < m.fetched + q.rngsz := by omega
  have hback := count_ahead_index hfp hturn
  rw [count_ahead, ← h.info, ← h.cidx_hw] at hback
  rw [posted]
  omega

theorem fetch_frame (n : Nat) (q : qdma_descq) : Frame q (fetch n q) ∧
    (fetch n q).proc_req_running = q.proc_req_running := by
  induction n generalizing q with
  | zero => exact ⟨Frame.refl q, rfl⟩
  | succ n ih =>
    rw [fetch]
    split
    · exact ⟨Frame.refl q, rfl⟩
    · obtain ⟨⟨h1, h2, h3, h4, h5, h6, h7⟩, hrunning⟩ := ih { q with
        fetched := q.fetched ++ [q.desc.getD q.desc_cmpl_status_cidx blank]
        desc_cmpl_status_cidx := (q.desc_cmpl_status_cidx + 1) % q.rngsz }
      exact ⟨⟨h1, h2, h3, h4, h5, h6, h7⟩, hrunning⟩

/-- The device fetches the next descriptors of the stream. -/
theorem fetch_tracks {J : List qdma_request} {q : qdma_descq} {m : Marks} (h : Tracks J q m) (n : Nat) :
    Tracks J (fetch n q) { m with fetched := min (m.fetched + n) m.posted } := by
  induction n generalizing q m with
  | zero =>
    have hsame : { m with fetched := min (m.fetched + 0) m.posted } = m := by
      rw [Nat.add_zero, Nat.min_eq_left h.fetched_le]
    rw [hsame]
    exact h
  | succ n ih =>
    have hfp := h.fetched_le
    rw [fetch, h.posted_eq]
    by_cases hnone : m.posted - m.fetched = 0
    · have hsame : { m with fetched := min (m.fetched + (n + 1)) m.posted } = m := by
        have : min (m.fetched + (n + 1)) m.posted = m.fetched := by omega
        rw [this]
      rw [if_pos hnone, hsame]
      exact h
    · rw [if_neg hnone]
      have hps := h.posted_le
      have hnext : Tracks J { q with
          fetched := q.fetched ++ [q.desc.getD q.desc_cmpl_status_cidx blank]
          desc_cmpl_status_cidx := (q.desc_cmpl_status_cidx + 1) % q.rngsz }
          { m with fetched := m.fetched + 1 } := by
        have hget := h.holds.get h.sent_le le_rfl (by omega) (payload blank)
        refine { h with
          reported_le := h.reported_le.trans (Nat.le_succ _)
          fetched_le := by dsimp only; omega
          cidx_hw := by
            dsimp only
            rw [h.cidx_hw, Nat.mod_add_mod]
          holds := h.holds.from_later (Nat.le_succ _)
          seen := ?_ }
        dsimp only
        rw [List.map_append, h.seen, hget, List.map_singleton, h.cidx_hw]
        congr 2
        simp only [List.getD_eq_getElem?_getD, List.getElem?_map]
        cases q.desc[m.fetched % q.rngsz]? <;> rfl
      have hmin : min (m.fetched + (n + 1)) m.posted = min (m.fetched + 1 + n) m.posted := by
        rw [Nat.add_assoc, Nat.add_comm 1]
      rw [hmin]
      exact ih hnext

/-- A poll reports some of the descriptors given to the device. -/
theorem poll_tracks {J : List qdma_request} {q : qdma_descq} {m : Marks} (h : Tracks J q m)
    (polls : List Nat) :
    ∃ m', Tracks J (descq_poll_mm_n_h2c_cmpl_status polls q).2 m' ∧ m'.posted = m.posted ∧
      m'.sent = m.sent ∧ m'.part = m.part ∧ m.reported ≤ m'.reported ∧
      Frame q (descq_poll_mm_n_h2c_cmpl_status polls q).2 := by
  unfold descq_poll_mm_n_h2c_cmpl_status
  split
  · have hrunning : Tracks J { q with proc_req_running := true } m := { h with }
    have hfetch := fetch_tracks hrunning (polls.headD 0)
    have hle := hfetch.reported_le
    have hframe : Frame q { q with proc_req_running := true } := ⟨rfl, rfl, rfl, rfl, rfl, rfl, rfl⟩
    exact ⟨_, cmpl_status_tracks hfetch, rfl, rfl, rfl, hle,
      hframe.trans ((fetch_frame (polls.headD 0) _).1.trans (cmpl_status_frame _).1)⟩
  · exact ⟨m, h, rfl, rfl, rfl, le_rfl, Frame.refl q⟩

theorem Wellformed.plan_length_le {req : qdma_request} (h : Wellformed req) :
    (plan req).length ≤ req.count := by
  have hle : ∀ l : List Span, (∀ s ∈ l, 0 < s.len) → l.length ≤ total l := by
    intro l
    induction l with
    | nil => exact fun _ => le_rfl
    | cons s l ih =>
      intro hpos
      have := ih fun t ht => hpos t (List.mem_cons_of_mem _ ht)
      have := hpos s List.mem_cons_self
      rw [List.length_cons, total_cons]
      omega
  rw [← h.plan_total]
  exact hle _ fun s hs => (h.plan_len s hs).1

/-- The descriptors that are left of the first request in the work list are the next ones of the
stream. -/
theorem Tracks.stream_drop {J : List qdma_request} {q : qdma_descq} {m : Marks} (h : Tracks J q m)
    {cb : qdma_sgt_req_cb} {rest : List qdma_sgt_req_cb} (hwork : q.work_list = cb :: rest) :
    (stream J).drop m.sent = (plan cb.req).drop m.part ++ stream (requests rest) := by
  have hpart : m.part < (plan cb.req).length := by
    have := h.started
    rw [hwork] at this
    exact this.2.2.1
  rw [h.jobs, ← List.append_assoc, hwork, stream_append, h.sent, ← List.drop_drop,
    List.drop_left, requests_cons, stream_cons, List.drop_append_of_le_length hpart.le]

/-- After descriptors of the first request in the work list are written. -/
theorem update_tracks {J : List qdma_request} {q : qdma_descq} {m : Marks} (h : Tracks J q m)
    {cb : qdma_sgt_req_cb} {rest : List qdma_sgt_req_cb} (hwork : q.work_list = cb :: rest)
    {cnt : Nat} (hcnt : 0 < cnt) (hroom : cnt ≤ q.avail) (hplan : m.part + cnt ≤ (plan cb.req).length)
    {data_cnt : Nat} (hdata : data_cnt = total (((plan cb.req).drop m.part).take cnt))
    {desc : List qdma_h2c_desc}
    (hholds : Holds q.rngsz (desc.map payload) (stream J) m.fetched (m.sent + cnt)) {pidx : Nat}
    (hpidx : pidx = (m.sent + cnt) % q.rngsz) :
    ∃ part, Tracks J { qdma_update_request cnt data_cnt { q with desc := desc } with
      pidx := pidx, avail := q.avail - cnt } { m with sent := m.sent + cnt, part := part } := by
  have hwf := h.wf_work cb (by simp [hwork])
  have hbound := hwf.bound
  have hlength := hwf.plan_length_le
  obtain ⟨hnr, hoffset, hpart, hfresh⟩ : cb.desc_nr = m.part ∧
      cb.offset = total ((plan cb.req).take m.part) ∧ m.part < (plan cb.req).length ∧
      ∀ c ∈ rest, c.desc_nr = 0 ∧ c.offset = 0 := by
    have := h.started
    rwa [hwork] at this
  have hnext : (cb.offset + data_cnt) % 2 ^ 32 = total ((plan cb.req).take (m.part + cnt)) := by
    have hsum : cb.offset + data_cnt = total ((plan cb.req).take (m.part + cnt)) := by
      rw [hoffset, hdata, ← total_append, List.take_add]
    have hle := take_total_le (plan cb.req) (m.part + cnt)
    rw [hwf.plan_total] at hle
    rw [hsum]
    exact Nat.mod_eq_of_lt (by omega)
  have hnrnext : (cb.desc_nr + cnt) % 2 ^ 32 = m.part + cnt := by
    rw [hnr]
    exact Nat.mod_eq_of_lt (by omega)
  have havail := h.avail
  have hps := h.posted_le
  have hrf := h.reported_le
  have hfp := h.fetched_le
  unfold qdma_update_request
  rw [hwork]
  dsimp only
  rw [hnext, hnrnext]
  by_cases hall : m.part + cnt < (plan cb.req).length
  · -- more descriptors of the request are to be written
    rw [if_neg (Nat.not_le.mpr (hwf.offset_lt.mpr hall))]
    refine ⟨m.part + cnt, h.wf, ?_, h.done, h.full, h.owed, ?_, ⟨rfl, rfl, hall, hfresh⟩, hrf, hfp,
      by dsimp only; omega, by dsimp only; omega, hpidx, h.cidx, h.cidx_hw, h.info, hholds, h.seen⟩
    · rw [h.jobs, hwork]
      rfl
    · dsimp only
      rw [h.sent, Nat.add_assoc]
  · have hlast : m.part + cnt = (plan cb.req).length := by omega
    have hcount : total ((plan cb.req).take (m.part + cnt)) = cb.req.count := by
      rw [hlast, List.take_length, hwf.plan_total]
    rw [if_pos (by rw [hcount]), hcount]
    obtain ⟨used, hused, ⟨howing, hfirst⟩⟩ := h.owed
    have hsent := h.sent
    refine ⟨0, h.wf, ?_, h.done, fun c hc => ?_, ⟨used, hused, ?_, fun c hc => ?_⟩, ?_, ?_, hrf, hfp,
      by dsimp only; omega, by dsimp only; omega, hpidx, h.cidx, h.cidx_hw, h.info, hholds, h.seen⟩
    · dsimp only
      rw [h.jobs, hwork, requests_append, requests_cons, List.append_assoc]
      rfl
    · rcases List.mem_append.mp hc with hc | hc
      · exact h.full c hc
      · rw [List.mem_singleton.mp hc]
    · cases hp : q.pend_list with
      | nil =>
        rw [hp] at howing
        refine ⟨?_, fun c hc => (by cases hc)⟩
        simp only [Owing] at howing
        dsimp only
        omega
      | cons c pend =>
        rw [hp] at howing
        refine ⟨howing.1, fun d hd => ?_⟩
        rcases List.mem_append.mp hd with hd | hd
        · exact howing.2 d hd
        · rw [List.mem_singleton.mp hd]
          exact hlast
    · cases hp : q.pend_list with
      | nil =>
        rw [hp] at howing hc hsent
        simp only [Owing] at howing
        obtain rfl : _ = c := by simpa using hc
        simp only [requests_nil, List.append_nil] at hsent
        dsimp only
        omega
      | cons d pend =>
        rw [hp] at hc hfirst
        exact hfirst c (by simpa using hc)
    · dsimp only
      rw [requests_append, ← List.append_assoc, stream_append, List.length_append, Nat.add_zero,
        requests_cons, requests_nil, stream_cons, stream_nil, List.append_nil, hsent, ← hlast,
        Nat.add_assoc]
    · cases rest with
      | nil => rfl
      | cons c rest =>
        obtain ⟨hzero, hstart⟩ := hfresh c List.mem_cons_self
        have hc := h.wf_work c (by simp [hwork])
        exact ⟨hzero, hstart, List.length_pos_iff.mpr hc.plan_ne_nil,
          fun d hd => hfresh d (List.mem_cons_of_mem _ hd)⟩

/-- The first request in the work list is gone on with. -/
theorem write_tracks {J : List qdma_request} {q : qdma_descq} {m : Marks} (h : Tracks J q m)
    {cb : qdma_sgt_req_cb} {rest : List qdma_sgt_req_cb} (hwork : q.work_list = cb :: rest)
    (hfree : q.avail ≠ 0) :
    ∃ i sg_offset, qdma_sgl_find_offset cb = some (i, sg_offset) ∧
      let r := fill q.rngsz (pktsz cb.req) q.desc_bypass cb.req.sgl.length q.avail i sg_offset
        (cb.req.sgl.drop i) ⟨clear_flags q.pidx q.desc, q.pidx, 0⟩
      q.avail - r.1 ≠ 0 ∧ ∃ part, Tracks J
        { qdma_update_request (q.avail - r.1) r.2.data_cnt { q with desc := r.2.desc } with
          pidx := r.2.pidx, avail := q.avail - (q.avail - r.1) }
        { m with sent := m.sent + (q.avail - r.1), part := part } := by
  have hwf := h.wf_work cb (by simp [hwork])
  obtain ⟨-, hoffset, hpart, -⟩ : cb.desc_nr = m.part ∧
      cb.offset = total ((plan cb.req).take m.part) ∧ m.part < (plan cb.req).length ∧
      ∀ c ∈ rest, c.desc_nr = 0 ∧ c.offset = 0 := by
    have := h.started
    rwa [hwork] at this
  obtain ⟨i, sg_offset, hfind, hrest, sg, sgl, hdrop, hinside⟩ :=
    find_offset_spec hwf (hoffset ▸ hwf.offset_lt.mpr hpart)
  refine ⟨i, sg_offset, hfind, ?_⟩
  have hplan : cut hwf.packet (spans (cb.req.sgl.drop i)) sg_offset = (plan cb.req).drop m.part := by
    rw [← hrest, hwf.plan_drop, hoffset]
  have hfirst : ∀ t ∈ (cb.req.sgl.drop i).head?, sg_offset < t.len := by
    rw [hdrop]
    rintro t ⟨⟩
    exact hinside
  obtain ⟨items, hitems, hfill⟩ := fill_spec hwf.packet q.rngsz q.desc_bypass cb.req.sgl.length
    (fun t ht => hwf.nonempty t (List.mem_of_mem_drop ht)) q.avail i hfirst ⟨clear_flags q.pidx q.desc, q.pidx, 0⟩
  rw [hplan] at hitems hfill
  have hlength : items.length = min q.avail ((plan cb.req).length - m.part) := by
    rw [← List.length_map (f := Prod.snd), hitems, List.length_take, List.length_drop]
  have hcnt : q.avail - (q.avail - ((plan cb.req).drop m.part).length) = items.length := by
    rw [List.length_drop, hlength]
    omega
  have havail := h.avail
  have hps := h.posted_le
  have hfp := h.fetched_le
  have hrf := h.reported_le
  have hlens : ∀ item ∈ items, item.2.len < 2 ^ 16 := by
    intro item hitem
    have hmem : item.2 ∈ plan cb.req := by
      have := List.mem_map_of_mem (f := Prod.snd) hitem
      rw [hitems] at this
      exact List.mem_of_mem_drop (List.mem_of_mem_take this)
    have := (hwf.plan_len _ hmem).2
    simp only [PAGE_SIZE, reconic.onic_cdev.PAGE_SHIFT] at this
    omega
  have hstream : items.map Prod.snd = ((stream J).drop m.sent).take items.length := by
    rw [h.stream_drop hwork, List.take_append_of_le_length (by rw [List.length_drop, hlength]; omega),
      hitems, hlength]
    rw [← List.length_drop, List.take_eq_take_min]
  have hring : Holds q.rngsz ((clear_flags q.pidx q.desc).map payload) (stream J) m.fetched m.sent := by
    rw [clear_flags_payload]
    exact h.holds
  obtain ⟨hholds, hpidx, hdata⟩ := @write_descs_spec q.rngsz (stream J) m.fetched m.sent
    ⟨clear_flags q.pidx q.desc, q.pidx, 0⟩ items hlens hring h.pidx (by omega)
    (by rw [hlength]; omega) hstream
  rw [hfill]
  dsimp only
  rw [hcnt]
  refine ⟨by rw [hlength]; omega, ?_⟩
  refine update_tracks h hwork (by rw [hlength]; omega) (by rw [hlength]; omega)
    (by rw [hlength]; omega) ?_ hholds hpidx
  rw [hdata, Nat.zero_add, hitems, hlength, ← List.length_drop, ← List.take_eq_take_min]

end reconic.libqdma
