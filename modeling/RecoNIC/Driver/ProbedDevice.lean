import RecoNIC.Driver.Probe

open lifetimes

namespace reconic.onic_main

/-- What a part of a probe that succeeds adds: queues, and otherwise only acquired resources. -/
structure Adds (rx_queues tx_queues : List Nat) (s s' : Priv) : Prop where
  rx : ∀ q, s'.c2h_descq q = if q ∈ rx_queues then .ENABLED else s.c2h_descq q
  tx : ∀ q, s'.h2c_descq q = if q ∈ tx_queues then .ENABLED else s.h2c_descq q
  active_rx_queues : s'.active_rx_queues = s.active_rx_queues + rx_queues.length
  active_tx_queues : s'.active_tx_queues = s.active_tx_queues + tx_queues.length
  napi : s.napi = true → s'.napi = true
  log : ∃ events, s'.log = s.log ++ events ∧ ∀ e ∈ events, e = .use .napi ∨ ∃ r, e = .malloc r

theorem Adds.refl (s : Priv) : Adds [] [] s s :=
  ⟨by simp, by simp, rfl, rfl, id, [], by simp, by simp⟩

/-- Additions come one after the other. -/
theorem Adds.trans {rx rx' tx tx' : List Nat} {s s' s'' : Priv} (h : Adds rx tx s s')
    (h' : Adds rx' tx' s' s'') : Adds (rx ++ rx') (tx ++ tx') s s'' := by
  obtain ⟨events, hlog, hevents⟩ := h.log
  obtain ⟨events', hlog', hevents'⟩ := h'.log
  refine ⟨fun q => ?_, fun q => ?_, ?_, ?_, fun hnapi => h'.napi (h.napi hnapi),
    events ++ events', ?_, ?_⟩
  · rw [h'.rx, h.rx]
    by_cases hq : q ∈ rx' <;> simp [hq]
  · rw [h'.tx, h.tx]
    by_cases hq : q ∈ tx' <;> simp [hq]
  · rw [h'.active_rx_queues, h.active_rx_queues, List.length_append, Nat.add_assoc]
  · rw [h'.active_tx_queues, h.active_tx_queues, List.length_append, Nat.add_assoc]
  · rw [hlog', hlog, List.append_assoc]
  · intro e hmem
    rcases List.mem_append.mp hmem with hmem | hmem
    · exact hevents e hmem
    · exact hevents' e hmem

/-- What has happened stays in the log. -/
theorem Adds.mem_log {rx tx : List Nat} {s s' : Priv} (h : Adds rx tx s s') {e : Event Resource}
    (hmem : e ∈ s.log) : e ∈ s'.log := by
  obtain ⟨events, hlog, -⟩ := h.log
  rw [hlog]
  exact List.mem_append_left _ hmem

/-- An allocation adds no queue. -/
theorem Adds.malloc (s : Priv) (r : Resource) : Adds [] [] s (s.malloc r) :=
  { Adds.refl s with log := ⟨[.malloc r], rfl, by simp⟩ }

/-- Enabling NAPI adds no queue. -/
theorem Adds.use_napi (s : Priv) : Adds [] [] s (s.use .napi) :=
  { Adds.refl s with log := ⟨[.use .napi], rfl, by simp⟩ }

/-- A call that succeeds has passed each of its checks. -/
theorem passes {p : Prop} [Decidable p] {failed rest : Int × Priv}
    (hdone : (if p then failed else rest).1 = 0) (hfailed : p → failed.1 ≠ 0) :
    ¬p ∧ (if p then failed else rest) = rest ∧ rest.1 = 0 := by
  by_cases hp : p
  · rw [if_pos hp] at hdone
    exact absurd hdone (hfailed hp)
  · rw [if_neg hp] at hdone
    exact ⟨hp, if_neg hp, hdone⟩

/-- A queue that has been added is enabled. -/
theorem qdma_queue_add_succeeds {add : QueueAdd} {q_state : QState}
    (hdone : (qdma_queue_add add q_state).1 = 0) : (qdma_queue_add add q_state).2 = .ENABLED := by
  rw [qdma_queue_add] at hdone ⊢
  split at hdone
  case isTrue hbusy => cases hdone
  case isFalse hfree =>
    rw [if_neg hfree]
    split at hdone
    case isTrue hok => rw [if_pos hok]
    case isFalse herror => exact absurd hdone herror

/-- `onic_qdma_rx_queue_add` that succeeds adds its queue. -/
theorem rx_queue_add_adds {add : Nat → QueueAdd} {s : Priv} {q_no : Nat}
    (hdone : (onic_qdma_rx_queue_add add s q_no).1 = 0) :
    Adds [q_no] [] s (onic_qdma_rx_queue_add add s q_no).2 := by
  simp only [onic_qdma_rx_queue_add] at hdone ⊢
  obtain ⟨hret, hrest, -⟩ := passes hdone id
  have henabled := qdma_queue_add_succeeds (not_not.mp hret)
  rw [hrest]
  refine ⟨fun q => ?_, by simp [Priv.malloc], rfl, rfl, id, [.malloc (.rx_queue q_no)], rfl,
    by simp⟩
  simp only [Priv.malloc, henabled, List.mem_singleton]
  exact Function.update_apply ..

/-- The loop over receive queues that succeeds adds all of them. -/
theorem rx_add_loop_adds {add : Nat → QueueAdd} {net : Bool} {queues : List Nat} {s : Priv}
    (hdone : (rx_add_loop add net s queues).1 = 0) :
    Adds queues [] s (rx_add_loop add net s queues).2 := by
  induction queues generalizing s with
  | nil => exact Adds.refl s
  | cons q_no queues ih =>
    simp only [rx_add_loop] at hdone ⊢
    obtain ⟨hret, hrest, hdone⟩ := passes hdone id
    have hadd := rx_queue_add_adds (not_not.mp hret)
    rw [hrest]
    cases net with
    | false => exact hadd.trans (ih hdone)
    | true =>
      have hentry := (Adds.use_napi (onic_qdma_rx_queue_add add s q_no).2).trans
        (Adds.malloc _ (.napi_entry q_no))
      exact (hadd.trans hentry).trans (ih hdone)

/-- The loop over transmit queues that succeeds adds all of them. -/
theorem tx_add_loop_adds {add : Nat → QueueAdd} {queues : List Nat} {s : Priv}
    (hdone : (tx_add_loop add s queues).1 = 0) :
    Adds [] queues s (tx_add_loop add s queues).2 := by
  induction queues generalizing s with
  | nil => exact Adds.refl s
  | cons q_no queues ih =>
    simp only [tx_add_loop] at hdone ⊢
    obtain ⟨hret, hrest, hdone⟩ := passes hdone id
    have henabled := qdma_queue_add_succeeds (not_not.mp hret)
    rw [hrest]
    refine Adds.trans (?_ : Adds [] [q_no] s _) (ih hdone)
    refine ⟨by simp [Priv.malloc], fun q => ?_, rfl, rfl, id, [.malloc (.tx_queue q_no)], rfl,
      by simp⟩
    simp only [Priv.malloc, henabled, List.mem_singleton]
    exact Function.update_apply ..

/-- `onic_qdma_rx_queue_setup` that succeeds adds the network queues and the memory-mapped ones. -/
theorem rx_queue_setup_adds {c : QueueCounts} {o : ProbeStatus} {s : Priv}
    (hdone : (onic_qdma_rx_queue_setup c o s).1 = 0) :
    (onic_qdma_rx_queue_setup c o s).2.napi = true ∧
      .malloc .napi ∈ (onic_qdma_rx_queue_setup c o s).2.log ∧
      Adds (List.range c.real_num_rx_queues ++ List.range' QDMA_NET_QUEUE c.mm_queues) [] s
        (onic_qdma_rx_queue_setup c o s).2 := by
  have hmalloc : Adds [] [] s { s.malloc .napi with napi := true } :=
    { Adds.malloc s .napi with napi := fun _ => rfl }
  simp only [onic_qdma_rx_queue_setup] at hdone ⊢
  obtain ⟨-, hrest, hdone⟩ := passes hdone fun _ => (by decide : -ENOMEM ≠ 0)
  rw [hrest]
  obtain ⟨hnet_ret, hrest, hdone⟩ := passes hdone id
  rw [hrest]
  obtain ⟨hmm_ret, hrest, -⟩ := passes hdone id
  rw [hrest]
  have hboth := (rx_add_loop_adds (not_not.mp hnet_ret)).trans
    (rx_add_loop_adds (not_not.mp hmm_ret))
  exact ⟨hboth.napi rfl, hboth.mem_log (List.mem_append_right _ (List.mem_singleton_self _)),
    hmalloc.trans hboth⟩

/-- So does `onic_qdma_tx_queue_setup`. -/
theorem tx_queue_setup_adds {c : QueueCounts} {o : ProbeStatus} {s : Priv}
    (hdone : (onic_qdma_tx_queue_setup c o s).1 = 0) :
    Adds [] (List.range (c.real_num_tx_queues + c.mm_queues)) s
      (onic_qdma_tx_queue_setup c o s).2 := by
  simp only [onic_qdma_tx_queue_setup] at hdone ⊢
  obtain ⟨hret, hrest, -⟩ := passes hdone id
  rw [hrest]
  exact tx_add_loop_adds (not_not.mp hret)

/-- The network device with all of its queues. -/
structure QueuesAdded (c : QueueCounts) (s s' : Priv) : Prop where
  napi : s'.napi = true
  allocated : .malloc .napi ∈ s'.log
  adds : Adds (List.range c.real_num_rx_queues ++ List.range' QDMA_NET_QUEUE c.mm_queues)
    (List.range (c.real_num_tx_queues + c.mm_queues)) s s'

/-- What has been added before the queues does not matter. -/
theorem QueuesAdded.after {c : QueueCounts} {s s' s'' : Priv} (h : QueuesAdded c s' s'')
    (hbefore : Adds [] [] s s') : QueuesAdded c s s'' :=
  ⟨h.napi, h.allocated, hbefore.trans h.adds⟩

/-- When the queues are set up all of them have been added. -/
theorem setup_queues_adds {c : QueueCounts} {o : ProbeStatus} {s : Priv}
    (hdone : (onic_pci_probe.setup_queues c o s).1 = 0) :
    QueuesAdded c s (onic_pci_probe.setup_queues c o s).2 := by
  simp only [onic_pci_probe.setup_queues] at hdone ⊢
  obtain ⟨hrx_ret, hrest, hdone⟩ := passes hdone id
  rw [hrest]
  obtain ⟨htx_ret, hrest, -⟩ := passes hdone id
  rw [hrest]
  obtain ⟨hnapi, hmalloc, hrx⟩ := rx_queue_setup_adds (not_not.mp hrx_ret)
  have htx := tx_queue_setup_adds (not_not.mp htx_ret)
  refine ⟨htx.napi hnapi, htx.mem_log hmalloc, ?_⟩
  simpa using hrx.trans htx

/-- `onic_create_cdev` returns zero or an error. -/
theorem create_cdev_nonpos (status : CdevStatus) (s : Priv) (qid : Nat) :
    (onic_create_cdev status s qid).1 ≤ 0 := by
  simp only [onic_create_cdev]
  split
  · exact (by decide : -ENODEV ≤ 0)
  split
  · exact status.alloc_chrdev_region.property
  split
  · exact (by decide : (-1 : Int) ≤ 0)
  split
  · exact status.cdev_add.property
  split
  · exact status.device_create.property
  · exact Int.le_refl 0

/-- A character device adds no queue. -/
theorem create_cdev_adds {status : CdevStatus} {s : Priv} {qid : Nat}
    (hdone : (onic_create_cdev status s qid).1 = 0) :
    Adds [] [] s (onic_create_cdev status s qid).2 := by
  simp only [onic_create_cdev] at hdone ⊢
  obtain ⟨-, hrest, hdone⟩ := passes hdone fun _ => (by decide : -ENODEV ≠ 0)
  rw [hrest]
  obtain ⟨-, hrest, hdone⟩ := passes hdone id
  rw [hrest]
  obtain ⟨-, hrest, hdone⟩ := passes hdone fun _ => (by decide : (-1 : Int) ≠ 0)
  rw [hrest]
  obtain ⟨-, hrest, hdone⟩ := passes hdone fun herror => Int.ne_of_lt herror
  rw [hrest]
  obtain ⟨-, hrest, -⟩ := passes hdone id
  rw [hrest]
  exact ⟨by simp [Priv.malloc], by simp [Priv.malloc], rfl, rfl, by simp [Priv.malloc],
    [.malloc .read_queue_pool, .malloc .write_queue_pool, .malloc .onic_cdev_class,
      .malloc .chrdev_region, .malloc .mm_cdev, .malloc .sysfs_dev],
    by simp [Priv.malloc], by simp⟩

/-- When bringing up succeeds all queues have been added. -/
theorem bring_up_adds {c : QueueCounts} {o : ProbeStatus} {s : Priv}
    (hdone : (onic_pci_probe.bring_up c o s).1 = 0) :
    QueuesAdded c s (onic_pci_probe.bring_up c o s).2 := by
  simp only [onic_pci_probe.bring_up] at hdone ⊢
  obtain ⟨hret, hrest, hdone⟩ := passes hdone fun herror => Int.ne_of_lt herror
  rw [hrest]
  obtain ⟨-, hrest, hdone⟩ := passes hdone fun _ => (by decide : -EBUSY ≠ 0)
  rw [hrest]
  obtain ⟨-, hrest, hdone⟩ := passes hdone id
  rw [hrest]
  have hzero := Int.le_antisymm (create_cdev_nonpos o.cdev _ 0) (Int.not_lt.mp hret)
  have hcdev := (Adds.malloc s .onic_cdev).trans (create_cdev_adds hzero)
  exact (setup_queues_adds hdone).after (hcdev.trans (Adds.malloc _ .registration))

/-- Opening the device adds no queue. -/
theorem qdma_setup_adds {o : ProbeStatus} {s : Priv} (hdone : (onic_qdma_setup o s).1 = 0) :
    Adds [] [] s (onic_qdma_setup o s).2 := by
  simp only [onic_qdma_setup] at hdone ⊢
  obtain ⟨-, hrest, hdone⟩ := passes hdone fun _ => (by decide : -EINVAL ≠ 0)
  rw [hrest]
  obtain ⟨-, hrest, -⟩ := passes hdone fun _ => (by decide : -EINVAL ≠ 0)
  rw [hrest]
  exact Adds.malloc s .qdma_device

/-- A probe that succeeds leaves its queues added and its resources acquired. -/
theorem probe_adds {c : QueueCounts} {o : ProbeStatus} {s : Priv}
    (hdone : (onic_pci_probe c o s).1 = 0) : QueuesAdded c s (onic_pci_probe c o s).2 := by
  simp only [onic_pci_probe, onic_pci_probe.setup_device] at hdone ⊢
  obtain ⟨-, hrest, hdone⟩ := passes hdone fun _ => (by decide : -ENOMEM ≠ 0)
  rw [hrest]
  obtain ⟨-, hrest, hdone⟩ := passes hdone fun _ => (by decide : -ENODEV ≠ 0)
  rw [hrest]
  obtain ⟨-, hrest, hdone⟩ := passes hdone id
  rw [hrest]
  obtain ⟨-, hrest, hdone⟩ := passes hdone fun _ => (by decide : -ENOMEM ≠ 0)
  rw [hrest]
  obtain ⟨-, hrest, hdone⟩ := passes hdone fun _ => (by decide : -ENOMEM ≠ 0)
  rw [hrest]
  obtain ⟨hsetup, hrest, hdone⟩ := passes hdone id
  rw [hrest]
  obtain ⟨-, hrest, hdone⟩ := passes hdone fun _ => (by decide : - EIO ≠ 0)
  rw [hrest]
  have hfirst := (((Adds.malloc s .pinfo).trans (Adds.malloc _ .netdev)).trans
    (Adds.malloc _ .dma_req)).trans (Adds.malloc _ .tx_qstats)
  have hdevice := hfirst.trans (qdma_setup_adds (not_not.mp hsetup))
  exact (bring_up_adds hdone).after (hdevice.trans (Adds.malloc _ .bar_base))

end reconic.onic_main
