import RecoNIC.Driver.ProbedDevice

open lifetimes

namespace reconic.onic_main

/-- What `onic_open` and `onic_stop` read and do not change. The kernel accepts no network
device without Rx queues. -/
structure Device where
  real_num_rx_queues : Nat
  poll_mode : Bool
  real_num_rx_queues_pos : 0 < real_num_rx_queues

/-- What the hardware does to the queues during a call: 0 or an error, for each queue. -/
structure Outcomes where
  rx_start : Nat → Int
  tx_start : Nat → Int
  rx_remove : Nat → Int
  tx_remove : Nat → Int

/-- A loop that looks at the entries of the napi array (`napi_enable`, `napi_schedule` or
`napi_disable`). -/
def for_each_napi (d : Device) (s : Priv) : Priv :=
  (List.range d.real_num_rx_queues).foldl (fun s _ => s.use .napi) s

/-- `onic_open` behind `onic_init_cdev`. -/
def onic_open (d : Device) (o : Outcomes) (s : Priv) : Int × Priv :=
  let (ret, s) := onic_qdma_start o.rx_start o.tx_start s
  if ret ≠ 0 then
    let s := onic_qdma_tx_queue_release o.tx_remove s s.active_tx_queues
    (ret, onic_qdma_rx_queue_release o.rx_remove s s.active_rx_queues)
  else
    let s := for_each_napi d s
    (0, if d.poll_mode then for_each_napi d s else s)

def onic_stop (d : Device) (s : Priv) : Priv :=
  let s := for_each_napi d s
  onic_qdma_stop s s.active_tx_queues s.active_rx_queues

/-- The BAR is mapped whenever probe has succeeded. -/
def onic_pci_remove (o : Outcomes) (s : Priv) : Priv :=
  let s := onic_qdma_rx_queue_release o.rx_remove s s.active_rx_queues
  let s := onic_qdma_tx_queue_release o.tx_remove s s.active_tx_queues
  let s := (s.free .tx_qstats).free .registration
  let s := onic_destroy_cdev s
  ((((s.free .bar_base).free .qdma_device).free .dma_req).free .pinfo).free .netdev

/-- A call of the kernel. -/
inductive Call where
  | onic_open (o : Outcomes)
  | onic_stop
  | onic_pci_remove (o : Outcomes)

def Call.run (d : Device) (s : Priv) : Call → Priv
  | .onic_open o => (reconic.onic_main.onic_open d o s).2
  | .onic_stop => reconic.onic_main.onic_stop d s
  | .onic_pci_remove o => reconic.onic_main.onic_pci_remove o s

/-- The device after probe, with its queues added. The log starts with the napi array. -/
def probed (active_rx_queues active_tx_queues : Nat) : Priv where
  c2h_descq q := if q < active_rx_queues then .ENABLED else .DISABLED
  h2c_descq q := if q < active_tx_queues then .ENABLED else .DISABLED
  active_rx_queues := active_rx_queues
  active_tx_queues := active_tx_queues
  napi := true
  onic_cdev_class := true
  cdev_minor := 0
  log := [.malloc .napi]

/-- The device between two times that it is up, as long as no `onic_open` has failed: with any
numbers of queues, or as probe has set it up. `onic_config_platform` asks for `QDMA_NET_QUEUE`
network queues. -/
inductive Closed (d : Device) : Priv → Prop where
  | fresh (active_rx_queues active_tx_queues : Nat) :
    Closed d (probed active_rx_queues active_tx_queues)
  | probe (o : ProbeStatus) (mm_queues : Nat) (onic_cdev_class : Bool) (cdev_minor : Int) :
    (onic_pci_probe ⟨QDMA_NET_QUEUE, QDMA_NET_QUEUE, mm_queues⟩ o
      (unprobed onic_cdev_class cdev_minor)).1 = 0 →
    Closed d (onic_pci_probe ⟨QDMA_NET_QUEUE, QDMA_NET_QUEUE, mm_queues⟩ o
      (unprobed onic_cdev_class cdev_minor)).2
  | cycle {s : Priv} (o : Outcomes) : Closed d s → (onic_open d o s).1 = 0 →
    Closed d (onic_stop d (onic_open d o s).2)

theorem for_each_napi_eq (d : Device) (s : Priv) : for_each_napi d s =
    { s with log := s.log ++ List.replicate d.real_num_rx_queues (.use .napi) } := by
  have hloop : ∀ (queues : List Nat) (s : Priv), queues.foldl (fun s _ => s.use .napi) s =
      { s with log := s.log ++ List.replicate queues.length (.use .napi) } := by
    intro queues
    induction queues with
    | nil =>
      intro s
      simp
    | cons q queues ih =>
      intro s
      rw [List.foldl_cons, ih, List.length_cons, List.replicate_succ]
      simp [Priv.use]
  rw [for_each_napi, hloop, List.length_range]

/-- The queues are as they were added, and the napi array is there. -/
structure Ready (s : Priv) : Prop where
  rx : Added s.c2h_descq s.active_rx_queues
  tx : Added s.h2c_descq s.active_tx_queues
  napi : s.napi = true
  allocated : .malloc .napi ∈ s.log
  unfreed : ∀ r, .free r ∉ s.log
  used : ∀ r, .use r ∈ s.log → r = .napi

/-- What `onic_open` does when a queue does not start. -/
theorem onic_open_fails (d : Device) (o : Outcomes) {s : Priv}
    (hfails : (onic_qdma_start o.rx_start o.tx_start s).1 ≠ 0) (hnapi : s.napi = true) :
    (onic_open d o s).1 ≠ 0 ∧
      (NoneOnline (onic_open d o s).2 ↔ NoneOnline (onic_qdma_start o.rx_start o.tx_start s).2) ∧
      (onic_open d o s).2.napi = true ∧
      ∃ events, (onic_open d o s).2.log = s.log ++ events ++ [.free .napi] ∧
        ∀ e ∈ events, IsRelease e := by
  have hstart := onic_qdma_start_queuesOnly o.rx_start o.tx_start s
  cases hcall : onic_qdma_start o.rx_start o.tx_start s with
  | mk ret started =>
    rw [hcall] at hfails hstart
    have htx := tx_queue_release_releases o.tx_remove started started.active_tx_queues
    have hstill : started.napi = true := hstart.napi.trans hnapi
    obtain ⟨mid, hrx, hfree⟩ := rx_queue_release_frees_napi o.rx_remove
      (onic_qdma_tx_queue_release o.tx_remove started started.active_tx_queues)
      (onic_qdma_tx_queue_release o.tx_remove started started.active_tx_queues).active_rx_queues
      (htx.napi.trans hstill)
    have hopen : onic_open d o s = (ret, mid.free .napi) := by
      simp only [onic_open, hcall, if_pos hfails, hfree]
    have hreleases := htx.trans hrx
    rw [hopen]
    refine ⟨hfails, ?_, hreleases.napi.trans hstill, ?_⟩
    · exact forall_congr' fun q => and_congr (not_congr (hreleases.rx_online q))
        (not_congr (hreleases.tx_online q))
    · obtain ⟨events, hlog, hevents⟩ := hreleases.log
      refine ⟨events, ?_, hevents⟩
      rw [← hstart.log, ← hlog]
      rfl

/-- What `onic_open` does when every queue starts. -/
theorem onic_open_succeeds (d : Device) (o : Outcomes) {s : Priv}
    (hstarts : (onic_qdma_start o.rx_start o.tx_start s).1 = 0) :
    ∃ looks, 0 < looks ∧ onic_open d o s = (0, { (onic_qdma_start o.rx_start o.tx_start s).2 with
      log := s.log ++ List.replicate looks (.use .napi) }) := by
  have hlog := (onic_qdma_start_queuesOnly o.rx_start o.tx_start s).log
  have hpos := d.real_num_rx_queues_pos
  simp only [onic_open, if_neg (not_not_intro hstarts), for_each_napi_eq, hlog]
  by_cases hpoll : d.poll_mode = true
  · refine ⟨d.real_num_rx_queues + d.real_num_rx_queues, by omega, ?_⟩
    rw [if_pos hpoll, List.append_assoc, List.replicate_append_replicate]
  · refine ⟨d.real_num_rx_queues, hpos, ?_⟩
    rw [if_neg hpoll]

/-- An `onic_open` that succeeds, and the `onic_stop` after it. -/
theorem Ready.cycle {d : Device} {o : Outcomes} {s : Priv} (hready : Ready s)
    (hopen : (onic_open d o s).1 = 0) : Ready (onic_stop d (onic_open d o s).2) := by
  have hstarts : (onic_qdma_start o.rx_start o.tx_start s).1 = 0 := by
    by_contra hfails
    exact (onic_open_fails d o hfails hready.napi).1 hopen
  obtain ⟨hrx_done, htx_done⟩ := (onic_qdma_start_eq_zero_iff hready.rx hready.tx).mp hstarts
  obtain ⟨-, hrx, htx⟩ := onic_qdma_start_succeeds hready.rx hready.tx hrx_done htx_done
  obtain ⟨looks, -, heq⟩ := onic_open_succeeds d o hstarts
  have hstart := onic_qdma_start_queuesOnly o.rx_start o.tx_start s
  rw [heq, onic_stop, for_each_napi_eq]
  constructor
  case rx =>
    simp only [onic_qdma_stop, hstart.active_rx_queues]
    exact added_of_stop hrx
  case tx =>
    simp only [onic_qdma_stop, hstart.active_tx_queues]
    exact added_of_stop htx
  case napi => exact hstart.napi.trans hready.napi
  case allocated => exact List.mem_append_left _ (List.mem_append_left _ hready.allocated)
  case unfreed =>
    intro r hfree
    simp only [onic_qdma_stop, List.mem_append, List.mem_replicate, reduceCtorEq, and_false,
      or_false] at hfree
    exact hready.unfreed r hfree
  case used =>
    intro r huse
    rcases List.mem_append.mp huse with hopened | hstopped
    · rcases List.mem_append.mp hopened with hbefore | hlook
      · exact hready.used r hbefore
      · exact Event.use.inj (List.mem_replicate.mp hlook).2
    · exact Event.use.inj (List.mem_replicate.mp hstopped).2

/-- The device after a probe that succeeds. -/
theorem QueuesAdded.ready {mm_queues : Nat} {onic_cdev_class : Bool} {cdev_minor : Int} {s : Priv}
    (h : QueuesAdded ⟨QDMA_NET_QUEUE, QDMA_NET_QUEUE, mm_queues⟩
      (unprobed onic_cdev_class cdev_minor) s) : Ready s := by
  obtain ⟨events, hlog, hevents⟩ := h.adds.log
  have hrx := h.adds.active_rx_queues
  have htx := h.adds.active_tx_queues
  simp only [unprobed, List.length_append, List.length_range, List.length_range', Nat.zero_add]
    at hrx htx
  constructor
  case rx =>
    intro q
    have hmem : q ∈ List.range QDMA_NET_QUEUE ++ List.range' QDMA_NET_QUEUE mm_queues ↔
        q < s.active_rx_queues := by
      rw [hrx, List.mem_append, List.mem_range, List.mem_range'_1]
      omega
    simp only [h.adds.rx q, hmem]
    rfl
  case tx =>
    intro q
    have hmem : q ∈ List.range (QDMA_NET_QUEUE + mm_queues) ↔ q < s.active_tx_queues := by
      rw [htx, List.mem_range]
    simp only [h.adds.tx q, hmem]
    rfl
  case napi => exact h.napi
  case allocated => exact h.allocated
  case unfreed =>
    intro r hfree
    rw [hlog] at hfree
    rcases hevents _ hfree with heq | ⟨r', heq⟩
    · cases heq
    · cases heq
  case used =>
    intro r huse
    rw [hlog] at huse
    rcases hevents _ huse with heq | ⟨r', heq⟩
    · exact Event.use.inj heq
    · cases heq

/-- The queues are ready each time that the device is opened. -/
theorem Closed.ready {d : Device} {s : Priv} (hclosed : Closed d s) : Ready s := by
  induction hclosed with
  | fresh active_rx_queues active_tx_queues =>
    exact ⟨fun _ => rfl, fun _ => rfl, rfl, by simp [probed], by simp [probed], by simp [probed]⟩
  | probe o mm_queues onic_cdev_class cdev_minor hdone => exact (probe_adds hdone).ready
  | cycle o _ hopen ih => exact ih.cycle hopen

/-- Every call looks at the napi array or frees it, and none clears the pointer. -/
theorem Call.touches_napi (d : Device) {s : Priv} (hnapi : s.napi = true) (c : Call) :
    (c.run d s).napi = true ∧ ∃ events, (c.run d s).log = s.log ++ events ∧
      (.free .napi ∈ events ∨ .use .napi ∈ events) := by
  have hpos := d.real_num_rx_queues_pos
  cases c with
  | onic_open o =>
    by_cases hstarts : (onic_qdma_start o.rx_start o.tx_start s).1 = 0
    · obtain ⟨looks, hlooks, heq⟩ := onic_open_succeeds d o hstarts
      rw [Call.run, heq]
      refine ⟨(onic_qdma_start_queuesOnly o.rx_start o.tx_start s).napi.trans hnapi,
        List.replicate looks (.use .napi), rfl, .inr ?_⟩
      exact List.mem_replicate.mpr ⟨by omega, rfl⟩
    · obtain ⟨-, -, hstill, events, hlog, -⟩ := onic_open_fails d o hstarts hnapi
      refine ⟨hstill, events ++ [.free .napi], ?_, .inl (by simp)⟩
      rw [Call.run, hlog, List.append_assoc]
  | onic_stop =>
    rw [Call.run, reconic.onic_main.onic_stop, for_each_napi_eq, onic_qdma_stop]
    refine ⟨hnapi, List.replicate d.real_num_rx_queues (.use .napi), rfl, .inr ?_⟩
    exact List.mem_replicate.mpr ⟨by omega, rfl⟩
  | onic_pci_remove o =>
    obtain ⟨mid, hrx, hfree⟩ :=
      rx_queue_release_frees_napi o.rx_remove s s.active_rx_queues hnapi
    have htx := tx_queue_release_releases o.tx_remove (mid.free .napi)
      (mid.free .napi).active_tx_queues
    obtain ⟨events, hlog, -⟩ := hrx.log
    obtain ⟨events', hlog', -⟩ := htx.log
    simp only [Call.run, reconic.onic_main.onic_pci_remove, hfree]
    constructor
    · simp only [Priv.free_napi, onic_destroy_cdev_napi]
      exact htx.napi.trans (hrx.napi.trans hnapi)
    · simp only [Priv.free, onic_destroy_cdev_log] at hlog' ⊢
      rw [hlog', hlog]
      simp only [List.append_assoc]
      exact ⟨_, rfl, .inl (by simp)⟩

/-- A run only adds to the log. -/
theorem run_log_extends (d : Device) (calls : List Call) {s : Priv} (hnapi : s.napi = true) :
    ∃ events, (calls.foldl (Call.run d) s).log = s.log ++ events := by
  induction calls generalizing s with
  | nil => exact ⟨[], (List.append_nil _).symm⟩
  | cons c calls ih =>
    obtain ⟨hstill, events, hlog, -⟩ := c.touches_napi d hnapi
    obtain ⟨events', hlog'⟩ := ih hstill
    refine ⟨events ++ events', ?_⟩
    rw [List.foldl_cons, hlog', hlog, List.append_assoc]

/-- A failed `onic_open` leaves no queue ONLINE exactly when an Rx queue was the one that did not
start, or there is none. -/
theorem Ready.none_online_iff {s : Priv} (hready : Ready s) (d : Device) (o : Outcomes)
    (hfails : (onic_qdma_start o.rx_start o.tx_start s).1 ≠ 0) :
    NoneOnline (onic_open d o s).2 ↔
      s.active_rx_queues = 0 ∨ ∃ q < s.active_rx_queues, o.rx_start q ≠ 0 := by
  obtain ⟨-, honline, -⟩ := onic_open_fails d o hfails hready.napi
  rw [honline]
  by_cases hrx : ∃ q < s.active_rx_queues, o.rx_start q ≠ 0
  · exact iff_of_true (onic_qdma_start_rx_fails hready.rx hready.tx hrx).2 (.inr hrx)
  · rw [or_iff_left hrx]
    push Not at hrx
    have htx : ∃ q < s.active_tx_queues, o.tx_start q ≠ 0 := by
      by_contra hnone
      push Not at hnone
      exact hfails ((onic_qdma_start_eq_zero_iff hready.rx hready.tx).mpr ⟨hrx, hnone⟩)
    exact (onic_qdma_start_tx_fails hready.rx hready.tx hrx htx).2

/-- A failed `onic_open` frees the napi array, and every call after it touches the array. -/
theorem Ready.released_once_iff {s : Priv} (hready : Ready s) (d : Device) (o : Outcomes)
    (hfails : (onic_qdma_start o.rx_start o.tx_start s).1 ≠ 0) (later : List Call) :
    ReleasedOnce (fun r => r = .napi) (later.foldl (Call.run d) (onic_open d o s).2).log ↔
      later = [] := by
  obtain ⟨-, -, hnapi, events, hlog, hevents⟩ := onic_open_fails d o hfails hready.napi
  constructor
  · intro hreleased
    cases later with
    | nil => rfl
    | cons c later =>
      obtain ⟨hstill, touched, hcall, htouch⟩ := c.touches_napi d hnapi
      obtain ⟨rest, hrest⟩ := run_log_extends d later hstill
      rw [List.foldl_cons, hrest, hcall, List.append_assoc] at hreleased
      have hmalloc : .malloc .napi ∈ (onic_open d o s).2.log := by
        rw [hlog]
        simp [hready.allocated]
      have huntouched := hreleased.untouched rfl hmalloc (by simp [hlog])
      rcases htouch with hfree | huse
      · exact absurd (List.mem_append_left _ hfree) huntouched.1
      · exact absurd (List.mem_append_left _ huse) huntouched.2
  · rintro rfl
    have hnot_freed : .free .napi ∉ s.log ++ events := by
      intro hmem
      rcases List.mem_append.mp hmem with hmem | hmem
      · exact hready.unfreed .napi hmem
      · cases hevents _ hmem
    rw [List.foldl_nil, hlog]
    constructor
    · rintro r rfl -
      rw [frees_append, frees_eq_zero hnot_freed]
      rfl
    · apply neverUsedAfterFree_concat
      intro r hfree huse
      -- nothing but the napi array is looked at
      have hnapi_use : r = .napi := by
        rcases List.mem_append.mp huse with hmem | hmem
        · exact hready.used r hmem
        · cases hevents _ hmem
          rfl
      rw [hnapi_use] at hfree
      exact hnot_freed hfree

/-- A failed `onic_open` leaves no queue ONLINE exactly when an Rx queue was the one that did not
start (or there is none), and what it frees is touched by every call after it. -/
theorem open_failure_reusable_iff (d : Device) {s : Priv} (hclosed : Closed d s) (o : Outcomes)
    (hfails : (onic_open d o s).1 ≠ 0) (later : List Call) :
    (NoneOnline (onic_open d o s).2 ∧ ReleasedOnce (fun r => r = .napi)
        (later.foldl (Call.run d) (onic_open d o s).2).log) ↔
      (s.active_rx_queues = 0 ∨ ∃ q < s.active_rx_queues, o.rx_start q ≠ 0) ∧ later = [] := by
  have hready := hclosed.ready
  have hstart_fails : (onic_qdma_start o.rx_start o.tx_start s).1 ≠ 0 := by
    intro hstarts
    obtain ⟨looks, -, heq⟩ := onic_open_succeeds d o hstarts
    exact hfails (by rw [heq])
  exact and_congr (hready.none_online_iff d o hstart_fails)
    (hready.released_once_iff d o hstart_fails later)

def one_net_queue : Device where
  real_num_rx_queues := 1
  poll_mode := false
  real_num_rx_queues_pos := Nat.one_pos

/-- Rx queue 1 does not start. -/
def rx_start_fails : Outcomes where
  rx_start q := if q = 1 then -5 else 0
  tx_start _ := 0
  rx_remove _ := 0
  tx_remove _ := 0

/-- Tx queue 0 does not start. -/
def tx_start_fails : Outcomes where
  rx_start _ := 0
  tx_start q := if q = 0 then -5 else 0
  rx_remove _ := 0
  tx_remove _ := 0

theorem rx_start_failure_alone :
    NoneOnline (onic_open one_net_queue rx_start_fails (probed 2 2)).2 ∧
      ReleasedOnce (fun r => r = .napi)
        (onic_open one_net_queue rx_start_fails (probed 2 2)).2.log :=
  (open_failure_reusable_iff one_net_queue (Closed.fresh 2 2) rx_start_fails (by decide) []).mpr
    ⟨.inr ⟨1, by decide, by decide⟩, rfl⟩

/-- Two Rx queues stay ONLINE, and `onic_pci_remove` frees the napi array again. -/
theorem tx_start_failure_then_remove :
    let failed := onic_open one_net_queue tx_start_fails (probed 2 2)
    failed.1 = -5 ∧ failed.2.c2h_descq 0 = .ONLINE ∧ failed.2.c2h_descq 1 = .ONLINE ∧
      frees (onic_pci_remove tx_start_fails failed.2).log .napi = 2 := by
  decide

end reconic.onic_main
