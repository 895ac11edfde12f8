import RecoNIC.Driver.DescriptorRuns

open ranges ring
open reconic.onic_cdev (SwSg PAGE_SIZE)

namespace reconic.libqdma

/-- The settings of a queue, which processing requests does not change. -/
structure Settings (q q' : qdma_descq) : Prop where
  rngsz : q'.rngsz = q.rngsz
  online : q'.online = q.online
  q_stop_wait : q'.q_stop_wait = q.q_stop_wait

/-- What reading the completion status leaves as it is includes the settings. -/
theorem Frame.settings {q q' : qdma_descq} (h : Frame q q') : Settings q q' :=
  ⟨h.rngsz, h.online, h.q_stop_wait⟩

theorem Settings.trans {q q' q'' : qdma_descq} (h : Settings q q') (h' : Settings q' q'') :
    Settings q q'' :=
  ⟨h'.rngsz.trans h.rngsz, h'.online.trans h.online, h'.q_stop_wait.trans h.q_stop_wait⟩

/-- Writing descriptors leaves the settings as they are. -/
theorem written_settings (q : qdma_descq) (num_desc data_cnt pidx avail : Nat)
    (desc : List qdma_h2c_desc) :
    Settings q { qdma_update_request num_desc data_cnt { q with desc := desc } with
      pidx := pidx, avail := avail } := by
  unfold qdma_update_request
  split
  · exact ⟨rfl, rfl, rfl⟩
  · dsimp only
    split <;> exact ⟨rfl, rfl, rfl⟩

/-- The loop over the work list ends, with the list empty or the ring full. -/
theorem proc_requests_tracks {fuel : Nat} {J : List qdma_request} {q : qdma_descq} {m : Marks}
    (h : Tracks J q m) (polls : List Nat) (hfuel : (stream J).length - m.sent < fuel) :
    ∃ polls' cnt q' m', proc_requests fuel polls q = some (polls', cnt, q') ∧ Tracks J q' m' ∧
      m'.posted = m.posted ∧ m'.sent = m.sent + cnt ∧ m.reported ≤ m'.reported ∧
      (q'.work_list = [] ∨ q'.avail = 0) ∧ Settings q q' := by
  induction fuel generalizing polls q m with
  | zero => omega
  | succ fuel ih =>
    rw [proc_requests]
    cases hwork : q.work_list with
    | nil => exact ⟨polls, 0, q, m, rfl, h, rfl, rfl, le_rfl, .inl hwork, Frame.settings (Frame.refl q)⟩
    | cons cb rest =>
      dsimp only
      -- the ring is looked at again when it is full
      have hpolled : ∃ polls' q' m', (if q.avail = 0 then descq_poll_mm_n_h2c_cmpl_status polls q
          else (polls, q)) = (polls', q') ∧ Tracks J q' m' ∧ m'.posted = m.posted ∧
          m'.sent = m.sent ∧ m.reported ≤ m'.reported ∧ Frame q q' := by
        split
        · obtain ⟨m', ht, hposted, hsent, -, hreported, hframe⟩ := poll_tracks h polls
          exact ⟨_, _, m', rfl, ht, hposted, hsent, hreported, hframe⟩
        · exact ⟨polls, q, m, rfl, h, rfl, rfl, le_rfl, Frame.refl q⟩
      obtain ⟨polls1, q1, m1, heq, h1, hposted1, hsent1, hreported1, hframe⟩ := hpolled
      rw [heq]
      dsimp only
      have hwork1 : q1.work_list = cb :: rest := hframe.work_list.trans hwork
      by_cases hfull : q1.avail = 0
      · rw [if_pos hfull]
        exact ⟨polls1, 0, q1, m1, rfl, h1, hposted1, hsent1, hreported1, .inr hfull, hframe.settings⟩
      · rw [if_neg hfull]
        obtain ⟨i, sg_offset, hfind, hcnt, part, h2⟩ := write_tracks h1 hwork1 hfull
        rw [hfind]
        dsimp only at hcnt h2 ⊢
        rw [if_neg hcnt]
        have hbound := h2.sent_le
        dsimp only at hbound
        obtain ⟨polls3, cnt, q3, m3, hproc, h3, hposted3, hsent3, hreported3, hend, hsettings⟩ :=
          ih h2 polls1 (by dsimp only; omega)
        rw [hproc]
        refine ⟨polls3, _, q3, m3, rfl, h3, hposted3.trans hposted1, ?_,
          hreported1.trans hreported3, hend, ?_⟩
        · dsimp only at hsent3 ⊢
          omega
        · exact hframe.settings.trans ((written_settings q1 _ _ _ _ _).trans hsettings)

/-- There are enough iterations for the descriptors that are left. -/
theorem Tracks.remaining_lt {J : List qdma_request} {q : qdma_descq} {m : Marks} (h : Tracks J q m) :
    (stream J).length - m.sent < iterations q := by
  have hle : ∀ l : List qdma_sgt_req_cb, (∀ cb ∈ l, Wellformed cb.req) →
      (stream (requests l)).length ≤
        (l.map fun cb => (cb.req.sgl.map fun sg => sg.len + 1).sum + 1).sum := by
    intro l hwf
    induction l with
    | nil => exact le_rfl
    | cons cb l ih =>
      have hcb := hwf cb List.mem_cons_self
      have hplan := hcb.plan_length_le
      have hbytes : ∀ sgl : List SwSg, total (spans sgl) ≤ (sgl.map fun sg => sg.len + 1).sum := by
        intro sgl
        induction sgl with
        | nil => exact le_rfl
        | cons sg sgl ih =>
          rw [spans, List.map_cons, total_cons, List.map_cons, List.sum_cons]
          exact Nat.add_le_add (Nat.le_succ _) ih
      have := hbytes cb.req.sgl
      have := hcb.count
      have := ih fun c hc => hwf c (List.mem_cons_of_mem _ hc)
      rw [requests_cons, stream_cons, List.length_append, List.map_cons, List.sum_cons]
      omega
  have hsent := h.sent
  have := hle q.work_list h.wf_work
  rw [iterations, h.jobs, ← List.append_assoc, stream_append, List.length_append]
  omega

/-- Before it is started a queue has nothing in its ring. -/
def Unused (q : qdma_descq) : Prop := q.online = false → reset_ring q = q

/-- A queue that has never been started has no completions to read. -/
theorem Unused.cmpl_status {q : qdma_descq} (h : Unused q) (hoff : q.online = false) :
    descq_mm_n_h2c_cmpl_status q = q := by
  have hpidx : 0 = q.pidx := congrArg qdma_descq.pidx (h hoff)
  have hcidx : 0 = q.cidx := congrArg qdma_descq.cidx (h hoff)
  rw [descq_mm_n_h2c_cmpl_status, if_pos (hpidx.symm.trans hcidx)]

/-- Nor has it descriptors to fetch. -/
theorem Unused.fetch {q : qdma_descq} (h : Unused q) (hoff : q.online = false) (n : Nat) :
    libqdma.fetch n q = q := by
  have hinfo : 0 = q.pidx_info := congrArg qdma_descq.pidx_info (h hoff)
  have hcidx : 0 = q.desc_cmpl_status_cidx := congrArg qdma_descq.desc_cmpl_status_cidx (h hoff)
  have hnone : posted q = 0 := by
    rw [posted, ← hinfo, ← hcidx, Nat.zero_add, Nat.sub_zero, Nat.mod_self]
  cases n with
  | zero => rfl
  | succ n => rw [libqdma.fetch, if_pos hnone]

/-- Its ring is as a start leaves it. -/
theorem Unused.start {q : qdma_descq} (h : Unused q) :
    qdma_queue_start q = { q with online := true } := by
  rw [qdma_queue_start]
  cases honline : q.online with
  | true =>
    obtain ⟨⟩ := q
    cases honline
    rfl
  | false => rw [if_neg (by simp), h honline]

/-- What changes a queue that is not started leaves its ring unused. -/
theorem Unused.of_same {q q' : qdma_descq} (h : Unused q) (honline : q'.online = q.online)
    (hsame : q.online = false → q' = q) : Unused q' := by
  intro hoff
  have hoff' := honline ▸ hoff
  rw [hsame hoff']
  exact h hoff'

/-- Between the calls everything written is given to the device, and no call is under way. -/
structure Settled (J : List qdma_request) (q : qdma_descq) (m : Marks) : Prop extends
    Tracks J q m where
  posted_all : m.posted = m.sent
  idle : q.proc_req_running = false
  unused : Unused q

/-- Processing goes on from where it is, and to the end of the work when the queue is running. -/
theorem proc_settled {J : List qdma_request} {q : qdma_descq} {m : Marks} (h : Settled J q m)
    (polls : List Nat) :
    ∃ q' m', descq_proc_st_h2c_request polls q = some q' ∧ Settled J q' m' ∧ Settings q q' ∧
      m.sent ≤ m'.sent ∧ m.reported ≤ m'.reported ∧ (q.online = true → q.q_stop_wait = false →
        q'.work_list = [] ∨ m.reported + q.rngsz ≤ m'.sent + 1) := by
  unfold descq_proc_st_h2c_request
  by_cases hstop : q.q_stop_wait = true
  · rw [if_pos hstop]
    obtain ⟨hframe, hrunning⟩ := cmpl_status_frame q
    exact ⟨_, _, rfl, ⟨cmpl_status_tracks h.toTracks, h.posted_all, hrunning.trans h.idle,
      h.unused.of_same hframe.online h.unused.cmpl_status⟩,
      hframe.settings, le_rfl, h.reported_le, fun _ hno => absurd hstop (by simp [hno])⟩
  · rw [if_neg hstop]
    by_cases honline : q.online = true
    · rw [if_neg (not_not.mpr honline), if_neg (by simp [h.idle])]
      obtain ⟨m1, h1, hposted1, hsent1, -, hreported1, hframe1⟩ := poll_tracks h.toTracks polls
      generalize descq_poll_mm_n_h2c_cmpl_status polls q = r at h1 hframe1
      obtain ⟨polls1, q1⟩ := r
      dsimp only at h1 hframe1 ⊢
      obtain ⟨polls2, cnt, q2, m2, hproc, h2, hposted2, hsent2, hreported2, hend, hsettings2⟩ :=
        proc_requests_tracks h1 polls1 h1.remaining_lt
      rw [hproc]
      have hsettings := hframe1.settings.trans hsettings2
      have hfull : q2.work_list = [] ∨ m.reported + q.rngsz ≤ m2.sent + 1 := by
        refine hend.imp id fun hfull => ?_
        have := h2.avail
        have := hsettings.rngsz
        omega
      have hrest : ∀ q3 m3, Tracks J q3 m3 → m3.posted = m3.sent → m3.sent = m2.sent →
          m2.reported ≤ m3.reported → Settings q2 q3 → q3.work_list = q2.work_list →
          ∃ q' m', some { q3 with proc_req_running := false } = some q' ∧ Settled J q' m' ∧
            Settings q q' ∧ m.sent ≤ m'.sent ∧ m.reported ≤ m'.reported ∧
            (q.online = true → q.q_stop_wait = false →
              q'.work_list = [] ∨ m.reported + q.rngsz ≤ m'.sent + 1) := by
        intro q3 m3 h3 hposted3 hsent3 hreported3 hsettings3 hwork3
        obtain ⟨hr, ho, hq⟩ := hsettings.trans hsettings3
        have hunused : Unused { q3 with proc_req_running := false } :=
          fun hoff => absurd (ho.trans honline) (by simp only at hoff; simp [hoff])
        refine ⟨_, m3, rfl, ⟨{ h3 with }, hposted3, rfl, hunused⟩, ?_, by omega, by omega,
          fun _ _ => ?_⟩
        · exact ⟨hr, ho, hq⟩
        · rw [hsent3]
          exact hfull.imp (fun hempty => hwork3.trans hempty) id
      simp only [Option.map_some]
      by_cases hwritten : cnt = 0
      · rw [if_neg (by simpa using hwritten)]
        exact hrest q2 m2 h2 (by have := h.posted_all; omega) rfl le_rfl (Frame.settings (Frame.refl q2)) rfl
      · rw [if_pos hwritten]
        have hposted : Tracks J { q2 with pidx_info := q2.pidx } { m2 with posted := m2.sent } :=
          { h2 with
            fetched_le := h2.fetched_le.trans h2.posted_le
            posted_le := le_rfl
            info := h2.pidx }
        obtain ⟨m3, h3, hposted3, hsent3, -, hreported3, hframe3⟩ := poll_tracks hposted polls2
        obtain ⟨hr, ho, hq⟩ := hframe3.settings
        exact hrest _ m3 h3 (hposted3.trans hsent3.symm) hsent3 hreported3 ⟨hr, ho, hq⟩ hframe3.work_list
    · rw [if_pos honline]
      exact ⟨q, m, rfl, h, Frame.settings (Frame.refl q), le_rfl, le_rfl,
        fun hyes => absurd hyes honline⟩

/-- A new queue is settled. -/
theorem init_settled {rngsz : Nat} (hring : 0 < rngsz) (desc_bypass polled : Bool) :
    Settled [] (init rngsz desc_bypass polled) ⟨0, 0, 0, 0, 0⟩ := by
  have hzero : 0 = 0 % rngsz := (Nat.zero_mod rngsz).symm
  refine ⟨⟨fun _ h => (by cases h), rfl, fun _ h => (by cases h), fun _ h => (by cases h),
    ⟨0, rfl, rfl, fun _ h => (by cases h)⟩, rfl, rfl, le_rfl, le_rfl, le_rfl, ?_, hzero, hzero, hzero,
    hzero, .empty (by simp [init]) _ _, rfl⟩, rfl, rfl, fun _ => rfl⟩
  simp only [init]
  omega

/-- A request that is added waits behind all others. -/
theorem add_settled {J : List qdma_request} {q : qdma_descq} {m : Marks} (h : Settled J q m)
    {req : qdma_request} (hreq : Wellformed req) :
    Settled (J ++ [req]) (qdma_work_queue_add req q) m := by
  have hbound := h.sent_le
  have hfs := h.fetched_le.trans h.posted_le
  refine ⟨{ h with
    wf := fun r hr => ?_
    jobs := ?_
    started := ?_
    holds := ?_
    seen := ?_ }, h.posted_all, h.idle,
    fun hoff => congrArg (qdma_work_queue_add req) (h.unused hoff)⟩
  · rcases List.mem_append.mp hr with hr | hr
    · exact h.wf r hr
    · rw [List.mem_singleton.mp hr]
      exact hreq
  · rw [h.jobs]
    simp [qdma_work_queue_add]
  · have hstarted := h.started
    unfold qdma_work_queue_add
    cases hwork : q.work_list with
    | nil =>
      rw [hwork] at hstarted
      simp only [Started] at hstarted
      rw [hstarted]
      exact ⟨rfl, rfl, List.length_pos_iff.mpr hreq.plan_ne_nil, fun _ hc => (by cases hc)⟩
    | cons cb rest =>
      rw [hwork] at hstarted
      refine ⟨hstarted.1, hstarted.2.1, hstarted.2.2.1, fun c hc => ?_⟩
      rcases List.mem_append.mp hc with hc | hc
      · exact hstarted.2.2.2 c hc
      · rw [List.mem_singleton.mp hc]
        exact ⟨rfl, rfl⟩
  · rw [stream_append]
    exact h.holds.extend hbound _
  · rw [stream_append, List.take_append_of_le_length (by omega)]
    exact h.seen

/-- A queue that is started goes on with its requests. -/
theorem start_settled {J : List qdma_request} {q : qdma_descq} {m : Marks} (h : Settled J q m) :
    Settled J (qdma_queue_start q) m := by
  rw [h.unused.start]
  exact ⟨{ h.toTracks with }, h.posted_all, h.idle, fun hoff => by cases hoff⟩

/-- A queue that begins to stop keeps its requests. -/
theorem stop_wait_settled {J : List qdma_request} {q : qdma_descq} {m : Marks} (h : Settled J q m) :
    Settled J (stop_wait q) m := by
  rw [stop_wait]
  split
  case isTrue honline =>
    refine ⟨{ h.toTracks with }, h.posted_all, h.idle, fun hoff => ?_⟩
    exact absurd (honline.symm.trans hoff) (by simp)
  case isFalse => exact h

/-- Every event comes to an end, and keeps track of the requests. -/
theorem step_settled {J : List qdma_request} {q : qdma_descq} {m : Marks} (h : Settled J q m)
    {event : Event} (hwf : ∀ req ∈ added [event], Wellformed req) :
    ∃ q' m', step q event = some q' ∧ Settled (J ++ added [event]) q' m' ∧ q'.rngsz = q.rngsz ∧
      (event ≠ .stop_wait → q'.q_stop_wait = q.q_stop_wait) := by
  cases event with
  | qdma_queue_start =>
    have hstart := h.unused.start
    refine ⟨_, m, rfl, ?_, by rw [hstart], fun _ => by rw [hstart]⟩
    rw [added, List.filterMap_cons_none rfl, List.filterMap_nil, List.append_nil]
    exact start_settled h
  | qdma_work_queue_add req =>
    exact ⟨_, m, rfl, add_settled h (hwf req (by simp [added])), rfl, fun _ => rfl⟩
  | descq_proc_st_h2c_request polls =>
    obtain ⟨q', m', hproc, hsettled, hsettings, -⟩ := proc_settled h polls
    exact ⟨q', m', hproc, by simpa [added] using hsettled, hsettings.rngsz,
      fun _ => hsettings.q_stop_wait⟩
  | descq_mm_n_h2c_cmpl_status =>
    obtain ⟨hframe, hrunning⟩ := cmpl_status_frame q
    refine ⟨_, { m with reported := m.fetched }, rfl, ?_, hframe.rngsz, fun _ => hframe.q_stop_wait⟩
    rw [added, List.filterMap_cons_none rfl, List.filterMap_nil, List.append_nil]
    exact ⟨cmpl_status_tracks h.toTracks, h.posted_all, hrunning.trans h.idle,
      h.unused.of_same hframe.online h.unused.cmpl_status⟩
  | fetch n =>
    obtain ⟨hframe, hrunning⟩ := fetch_frame n q
    refine ⟨_, { m with fetched := min (m.fetched + n) m.posted }, rfl, ?_, hframe.rngsz,
      fun _ => hframe.q_stop_wait⟩
    rw [added, List.filterMap_cons_none rfl, List.filterMap_nil, List.append_nil]
    exact ⟨fetch_tracks h.toTracks n, h.posted_all, hrunning.trans h.idle,
      h.unused.of_same hframe.online fun hoff => h.unused.fetch hoff n⟩
  | stop_wait =>
    refine ⟨_, m, rfl, ?_, ?_, fun hne => absurd rfl hne⟩
    · rw [added, List.filterMap_cons_none rfl, List.filterMap_nil, List.append_nil]
      exact stop_wait_settled h
    · rw [stop_wait]
      split <;> rfl

/-- Every run of a queue returns and leaves it settled. -/
theorem run_settled {events : List Event} {J : List qdma_request} {q : qdma_descq} {m : Marks}
    (h : Settled J q m) (hwf : ∀ req ∈ added events, Wellformed req) :
    ∃ q' m', run q events = some q' ∧ Settled (J ++ added events) q' m' ∧ q'.rngsz = q.rngsz ∧
      (.stop_wait ∉ events → q'.q_stop_wait = q.q_stop_wait) := by
  induction events generalizing J q m with
  | nil => exact ⟨q, m, rfl, by simpa [added] using h, rfl, fun _ => rfl⟩
  | cons event events ih =>
    have hsplit : added (event :: events) = added [event] ++ added events := by
      simp only [added, ← List.filterMap_append, List.singleton_append]
    rw [hsplit] at hwf
    obtain ⟨q1, m1, hstep, h1, hsize1, hstop1⟩ :=
      step_settled h fun r hr => hwf r (List.mem_append_left _ hr)
    obtain ⟨q2, m2, hrun, h2, hsize2, hstop2⟩ := ih h1 fun r hr => hwf r (List.mem_append_right _ hr)
    refine ⟨q2, m2, ?_, by rwa [hsplit, ← List.append_assoc], hsize2.trans hsize1, fun hnever => ?_⟩
    · rw [run, List.foldlM_cons, hstep]
      exact hrun
    · rw [List.mem_cons, not_or] at hnever
      exact (hstop2 hnever.2).trans (hstop1 (Ne.symm hnever.1))

/-- Reading the completion status only adds to what is done. -/
theorem cmpl_status_grows (q : qdma_descq) : q.done <+: (descq_mm_n_h2c_cmpl_status q).done := by
  unfold descq_mm_n_h2c_cmpl_status
  dsimp only
  split
  · exact List.prefix_refl _
  · split
    · exact List.prefix_refl _
    · exact List.prefix_append _ _

/-- A fetch completes nothing. -/
theorem fetch_done (n : Nat) (q : qdma_descq) : (fetch n q).done = q.done := by
  induction n generalizing q with
  | zero => rfl
  | succ n ih =>
    rw [fetch]
    split
    · rfl
    · rw [ih]

/-- Polling only adds to what is done. -/
theorem poll_grows (polls : List Nat) (q : qdma_descq) :
    q.done <+: (descq_poll_mm_n_h2c_cmpl_status polls q).2.done := by
  unfold descq_poll_mm_n_h2c_cmpl_status
  split
  · have := cmpl_status_grows (fetch (polls.headD 0) { q with proc_req_running := true })
    rwa [fetch_done] at this
  · exact List.prefix_refl _

/-- Writing descriptors completes nothing. -/
theorem update_request_done (num_desc data_cnt : Nat) (q : qdma_descq) :
    (qdma_update_request num_desc data_cnt q).done = q.done := by
  unfold qdma_update_request
  split
  · rfl
  · dsimp only
    split <;> rfl

/-- Processing only adds to what is done. -/
theorem proc_requests_grows {fuel : Nat} {polls : List Nat} {q : qdma_descq} :
    ∀ r ∈ proc_requests fuel polls q, q.done <+: r.2.2.done := by
  induction fuel generalizing polls q with
  | zero => simp [proc_requests]
  | succ fuel ih =>
    rw [proc_requests]
    split
    · rintro r ⟨⟩
      exact List.prefix_refl _
    · have hpolled : q.done <+: (if q.avail = 0 then descq_poll_mm_n_h2c_cmpl_status polls q
          else (polls, q)).2.done := by
        split
        · exact poll_grows polls q
        · exact List.prefix_refl _
      generalize (if q.avail = 0 then descq_poll_mm_n_h2c_cmpl_status polls q else (polls, q)) = polled
        at hpolled
      obtain ⟨polls1, q1⟩ := polled
      dsimp only at hpolled ⊢
      split
      · rintro r ⟨⟩
        exact hpolled
      · split
        · intro r hr
          have := ih r hr
          rw [update_request_done] at this
          exact hpolled.trans this
        · split
          · rintro r ⟨⟩
            simpa [update_request_done] using hpolled
          · intro r hr
            obtain ⟨r', hr', rfl⟩ := Option.mem_map.mp hr
            have := ih r' hr'
            rw [update_request_done] at this
            exact hpolled.trans this

/-- What is done stays done. -/
theorem step_grows {q q' : qdma_descq} {event : Event} (h : step q event = some q') :
    q.done <+: q'.done := by
  cases event with
  | qdma_work_queue_add req =>
    cases h
    exact List.prefix_refl _
  | descq_mm_n_h2c_cmpl_status =>
    cases h
    exact cmpl_status_grows q
  | fetch n =>
    cases h
    rw [fetch_done]
  | qdma_queue_start =>
    cases h
    rw [qdma_queue_start]
    split <;> exact List.prefix_refl _
  | stop_wait =>
    cases h
    rw [stop_wait]
    split <;> exact List.prefix_refl _
  | descq_proc_st_h2c_request polls =>
    rw [step, descq_proc_st_h2c_request] at h
    split at h
    · cases h
      exact cmpl_status_grows q
    split at h
    · cases h
      exact List.prefix_refl _
    split at h
    · cases h
      exact List.prefix_refl _
    · have hpolled := poll_grows polls q
      generalize descq_poll_mm_n_h2c_cmpl_status polls q = polled at h hpolled
      obtain ⟨polls1, q1⟩ := polled
      obtain ⟨r, hr, rfl⟩ := Option.map_eq_some_iff.mp h
      have hsofar := hpolled.trans (proc_requests_grows r hr)
      dsimp only
      split
      · exact hsofar.trans (poll_grows r.1 { r.2.2 with pidx_info := r.2.2.pidx })
      · exact hsofar

/-- What is done stays done. -/
theorem run_grows {events : List Event} {q q' : qdma_descq} (h : run q events = some q') :
    q.done <+: q'.done := by
  induction events generalizing q with
  | nil =>
    cases h
    exact List.prefix_refl _
  | cons event events ih =>
    rw [run, List.foldlM_cons] at h
    obtain ⟨q1, hstep, hrest⟩ := Option.bind_eq_some_iff.mp h
    exact (step_grows hstep).trans (ih hrest)

/-- The descriptors of requests describe the bytes of their segments. -/
theorem stream_bytes {J : List qdma_request} (hwf : ∀ req ∈ J, Wellformed req) :
    bytes (stream J) = J.flatMap fun req => bytes (spans req.sgl) := by
  induction J with
  | nil => rfl
  | cons req J ih =>
    rw [stream_cons, bytes_append, (hwf req List.mem_cons_self).plan_bytes,
      ih fun r hr => hwf r (List.mem_cons_of_mem _ hr), List.flatMap_cons]

/-- The bytes of the first spans come first. -/
theorem bytes_prefix {l l' : List Span} (h : l <+: l') : bytes l <+: bytes l' := by
  obtain ⟨rest, rfl⟩ := h
  rw [bytes_append]
  exact List.prefix_append _ _

/-- What has been fetched are the first bytes of the requests. -/
theorem Tracks.fetched_bytes {J : List qdma_request} {q : qdma_descq} {m : Marks} (h : Tracks J q m) :
    bytes (q.fetched.map payload) <+: J.flatMap fun req => bytes (spans req.sgl) := by
  rw [← stream_bytes h.wf, h.seen]
  exact bytes_prefix (List.take_prefix _ _)

/-- What is done are the first requests. -/
theorem Tracks.finished_first {J : List qdma_request} {q : qdma_descq} {m : Marks} (h : Tracks J q m) :
    finished q.done <+: J := by
  rw [h.jobs]
  exact List.prefix_append _ _

/-- When the queue is stopped, all requests have come to an end, each once and in order. -/
theorem Tracks.stopped {J : List qdma_request} {q : qdma_descq} {m : Marks} (h : Tracks J q m) :
    (stop_requests q).done.map Done.req = J := by
  rw [stop_requests, List.map_append, List.map_map, h.jobs]
  simp [finished, requests, Function.comp_def]

/-- What is done has been fetched before. -/
theorem Tracks.finished_bytes {J : List qdma_request} {q : qdma_descq} {m : Marks} (h : Tracks J q m) :
    (finished q.done).flatMap (fun req => bytes (spans req.sgl)) <+: bytes (q.fetched.map payload) := by
  obtain ⟨used, hused, -⟩ := h.owed
  have hrf := h.reported_le
  have hmem : ∀ req ∈ finished q.done, Wellformed req := fun req hreq =>
    h.wf req (h.finished_first.subset hreq)
  have hjobs := h.jobs
  rw [← stream_bytes hmem, h.seen]
  refine bytes_prefix ?_
  rw [hjobs, stream_append, List.take_append, List.take_of_length_le (by omega)]
  exact List.prefix_append _ _

/-- A packet of two segments, one of them more than a page, and one of a single segment. -/
def two_packets : List Event :=
  [.qdma_queue_start,
    .qdma_work_queue_add ⟨0, 4196, 0, [⟨some 1, 0, 0, 4100, 65536⟩, ⟨none, 1, 0, 96, 4096⟩]⟩,
    .descq_proc_st_h2c_request [], .fetch 2,
    .qdma_work_queue_add ⟨1, 60, 0, [⟨none, 2, 0, 60, 8192⟩]⟩, .descq_mm_n_h2c_cmpl_status]

theorem two_packets_wellformed : ∀ req ∈ added two_packets, Wellformed req := by
  intro req hreq
  have hcases : req = ⟨0, 4196, 0, [⟨some 1, 0, 0, 4100, 65536⟩, ⟨none, 1, 0, 96, 4096⟩]⟩ ∨
      req = ⟨1, 60, 0, [⟨none, 2, 0, 60, 8192⟩]⟩ := by simpa [two_packets, added] using hreq
  rcases hcases with rfl | rfl <;>
    exact ⟨by simp, by simp, by simp [spans, span], by simp, by decide⟩

/-- However requests are added, the ring filled and its completion status read, every call comes
to an end, and the device fetches just the bytes of the requests' segments, in order, in
descriptors of at most a page: none is skipped, and none read from a slot that was filled again
or not filled yet. -/
theorem fetched_bytes_in_order {rngsz : Nat} (hring : 0 < rngsz) (desc_bypass polled : Bool)
    {events : List Event} (hwf : ∀ req ∈ added events, Wellformed req) :
    ∃ q, run (init rngsz desc_bypass polled) events = some q ∧
      bytes (q.fetched.map payload) <+: (added events).flatMap (fun req => bytes (spans req.sgl)) ∧
      ∀ d ∈ q.fetched, 0 < d.len ∧ d.len ≤ PAGE_SIZE := by
  obtain ⟨q, m, hrun, h, -, -⟩ := run_settled (init_settled hring desc_bypass polled) hwf
  rw [List.nil_append] at h
  refine ⟨q, hrun, h.fetched_bytes, fun d hd => ?_⟩
  have hmem : payload d ∈ stream (added events) := by
    have := List.mem_map_of_mem (f := payload) hd
    rw [h.seen] at this
    exact List.mem_of_mem_take this
  obtain ⟨req, hreq, hplan⟩ := List.mem_flatMap.mp hmem
  exact (hwf req hreq).plan_len _ hplan

theorem fetched_bytes_in_order_two :
    ∃ q, run (init 4 false false) two_packets = some q ∧
      bytes (q.fetched.map payload) <+:
        (added two_packets).flatMap (fun req => bytes (spans req.sgl)) ∧
      ∀ d ∈ q.fetched, 0 < d.len ∧ d.len ≤ PAGE_SIZE :=
  fetched_bytes_in_order (by decide) false false two_packets_wellformed

/-- With everything reported and nothing in the work list, all requests are done. -/
theorem Tracks.all_done {J : List qdma_request} {q : qdma_descq} {m : Marks} (h : Tracks J q m)
    (hreported : m.reported = m.sent) (hwork : q.work_list = []) : q.done.map Done.req = J := by
  have hstarted := h.started
  rw [hwork] at hstarted
  simp only [Started] at hstarted
  obtain ⟨used, hused, howing, hfirst⟩ := h.owed
  have hsent := h.sent
  have hpend : q.pend_list = [] := by
    cases hp : q.pend_list with
    | nil => rfl
    | cons cb rest =>
      rw [hp] at howing hfirst hsent
      have hshort := hfirst cb rfl
      have hlength := howing.1
      simp only [stream_append, requests_cons, stream_cons, List.length_append] at hsent
      omega
  rw [h.jobs, hpend, hwork]
  simp [finished]

/-- The device fetches all it has been given, the completion status is read, and the requests
are processed. -/
def round (rngsz : Nat) : List Event :=
  [.fetch rngsz, .descq_mm_n_h2c_cmpl_status, .descq_proc_st_h2c_request []]

/-- With an empty work list all descriptors have been written. -/
theorem Tracks.sent_all {J : List qdma_request} {q : qdma_descq} {m : Marks} (h : Tracks J q m)
    (hwork : q.work_list = []) : m.sent = (stream J).length := by
  have hstarted := h.started
  rw [hwork] at hstarted
  simp only [Started] at hstarted
  rw [h.sent, h.jobs, hwork, hstarted]
  simp

/-- When all descriptors have been written the work list is empty. -/
theorem Tracks.work_empty {J : List qdma_request} {q : qdma_descq} {m : Marks} (h : Tracks J q m)
    (hsent : m.sent = (stream J).length) : q.work_list = [] := by
  cases hwork : q.work_list with
  | nil => rfl
  | cons cb rest =>
    have hdrop := h.stream_drop hwork
    have hstarted := h.started
    rw [hwork] at hstarted
    rw [hsent, List.drop_length] at hdrop
    have := congrArg List.length hdrop
    have := hstarted.2.2.1
    simp only [List.length_nil, List.length_append, List.length_drop] at *
    omega

/-- A round reports all that has been written, and goes on with the rest. -/
theorem round_settled {J : List qdma_request} {q : qdma_descq} {m : Marks} (h : Settled J q m)
    (hring : 1 < q.rngsz) (honline : q.online = true) (hstop : q.q_stop_wait = false) :
    ∃ q' m', run q (round q.rngsz) = some q' ∧ Settled J q' m' ∧ Settings q q' ∧
      min (m.sent + 1) (stream J).length ≤ m'.sent ∧
      (m.sent = (stream J).length → q'.done.map Done.req = J) := by
  have havail := h.avail
  have hrf := h.reported_le
  have hposted := h.posted_all
  have hfetched : min (m.fetched + q.rngsz) m.posted = m.sent := by omega
  have h1 := fetch_tracks h.toTracks q.rngsz
  rw [hfetched] at h1
  obtain ⟨hframe1, hrunning1⟩ := fetch_frame q.rngsz q
  have h2 := cmpl_status_tracks h1
  obtain ⟨hframe2, hrunning2⟩ := cmpl_status_frame (fetch q.rngsz q)
  have hsettings := hframe1.settings.trans hframe2.settings
  have hunused : Unused (descq_mm_n_h2c_cmpl_status (fetch q.rngsz q)) :=
    fun hoff => absurd (hsettings.online.trans honline) (by simp [hoff])
  obtain ⟨q', m', hproc, h3, hsettings3, hsent, hreported, hmore⟩ :=
    proc_settled ⟨h2, hposted, hrunning2.trans (hrunning1.trans h.idle), hunused⟩ []
  refine ⟨q', m', by simpa [run, round, step] using hproc, h3, hsettings.trans hsettings3, ?_,
    fun hall => ?_⟩
  · rcases hmore (hsettings.online.trans honline) (hsettings.q_stop_wait.trans hstop) with hwork | hfull
    · have := h3.sent_all hwork
      omega
    · have := hsettings.rngsz
      dsimp only at hfull
      omega
  · have hend := h3.sent_le
    have := h3.reported_le.trans (h3.fetched_le.trans h3.posted_le)
    dsimp only at hsent hreported
    have hlast : m'.sent = (stream J).length := by omega
    exact h3.all_done (by omega) (h3.work_empty hlast)

theorem run_append (q : qdma_descq) (events more : List Event) :
    run q (events ++ more) = (run q events).bind fun q => run q more := List.foldlM_append

/-- In each round at least one more descriptor is written and fetched. -/
theorem rounds_settled (n : Nat) {J : List qdma_request} {q : qdma_descq} {m : Marks}
    (h : Settled J q m) (hring : 1 < q.rngsz) (honline : q.online = true)
    (hstop : q.q_stop_wait = false) :
    ∃ q' m', run q (List.replicate n (round q.rngsz)).flatten = some q' ∧ Settled J q' m' ∧
      Settings q q' ∧ min (m.sent + n) (stream J).length ≤ m'.sent := by
  induction n generalizing q m with
  | zero => exact ⟨q, m, rfl, h, Frame.settings (Frame.refl q), by omega⟩
  | succ n ih =>
    obtain ⟨q1, m1, hrun1, h1, hsettings1, hsent1, -⟩ := round_settled h hring honline hstop
    obtain ⟨q2, m2, hrun2, h2, hsettings2, hsent2⟩ := ih h1 (hsettings1.rngsz ▸ hring)
      (hsettings1.online.trans honline) (hsettings1.q_stop_wait.trans hstop)
    refine ⟨q2, m2, ?_, h2, hsettings1.trans hsettings2, by omega⟩
    rw [List.replicate_succ, List.flatten_cons, run_append, hrun1, Option.bind_some]
    rw [hsettings1.rngsz] at hrun2
    exact hrun2

/-- Once the queue is started, and as long as it does not stop, as many rounds as there are
descriptors and one more do all requests. -/
theorem Settled.rounds_done {J : List qdma_request} {q : qdma_descq} {m : Marks} (h : Settled J q m)
    (hring : 1 < q.rngsz) (hstop : q.q_stop_wait = false) :
    ∃ q' m', run q ([.qdma_queue_start] ++
        (List.replicate ((stream J).length + 1) (round q.rngsz)).flatten) = some q' ∧
      Settled J q' m' ∧ q'.done.map Done.req = J := by
  have hstart := start_settled h
  rw [h.unused.start] at hstart
  obtain ⟨q1, m1, hrun1, h1, hsettings, hsent⟩ :=
    rounds_settled (stream J).length hstart hring rfl hstop
  have hrngsz : q1.rngsz = q.rngsz := hsettings.rngsz
  have hall : m1.sent = (stream J).length := by
    have := h1.sent_le
    omega
  obtain ⟨q2, m2, hrun2, h2, -, -, hdone⟩ := round_settled h1 (hrngsz ▸ hring) hsettings.online
    (hsettings.q_stop_wait.trans hstop)
  have hfirst : run q [.qdma_queue_start] = some { q with online := true } :=
    congrArg some h.unused.start
  refine ⟨q2, m2, ?_, h2, hdone hall⟩
  rw [hrngsz] at hrun2
  rw [List.replicate_succ', List.flatten_append, List.flatten_singleton, run_append, hfirst,
    Option.bind_some, run_append]
  exact (congrArg (fun o => o.bind fun q' => run q' (round q.rngsz)) hrun1).trans hrun2

/-- Whatever has happened, the queue does not stall: when it is started and not stopped, the
device goes on fetching, and the driver reading the completion status and processing requests, all
requests that have been added are done after as many rounds as there are descriptors, and one
more. -/
theorem every_request_done {rngsz : Nat} (hring : 1 < rngsz) (desc_bypass polled : Bool)
    {events : List Event} (hwf : ∀ req ∈ added events, Wellformed req)
    (hstop : .stop_wait ∉ events) :
    ∃ q, run (init rngsz desc_bypass polled) (events ++ [.qdma_queue_start] ++
        (List.replicate ((stream (added events)).length + 1) (round rngsz)).flatten) = some q ∧
      q.done.map Done.req = added events := by
  obtain ⟨q, m, hrun, h, hsize, hgoes⟩ :=
    run_settled (init_settled (by omega : 0 < rngsz) desc_bypass polled) hwf
  rw [List.nil_append] at h
  have hsize : q.rngsz = rngsz := hsize
  subst hsize
  obtain ⟨q', m', hrun', -, hdone⟩ := h.rounds_done hring (hgoes hstop)
  refine ⟨q', ?_, hdone⟩
  rw [List.append_assoc, run_append, hrun, Option.bind_some, hrun']

theorem every_request_done_two :
    ∃ q, run (init 2 false true) (two_packets ++ [.qdma_queue_start] ++
        (List.replicate ((stream (added two_packets)).length + 1) (round 2)).flatten) = some q ∧
      q.done.map Done.req = added two_packets :=
  every_request_done (by decide) false true two_packets_wellformed (by decide)

end reconic.libqdma
