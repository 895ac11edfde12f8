import RecoNIC.Driver.NetQueues

open lifetimes

namespace reconic.onic_main

def ENOMEM : Int := 12

def EIO : Int := 5

def EPERM : Int := 1

def EBUSY : Int := 16

/-- What `qdma_queue_add` comes to for a queue that is free: 0 or an error, and whether an error
leaves the queue ENABLED. -/
structure QueueAdd where
  status : Status
  stays_enabled : Bool

def qdma_queue_add (add : QueueAdd) (q_state : QState) : Int × QState :=
  if q_state ≠ .DISABLED then (-EPERM, q_state)
  else if add.status.val = 0 then (0, .ENABLED)
  else (add.status.val, if add.stays_enabled then .ENABLED else .DISABLED)

/-- The numbers of queues. -/
structure QueueCounts where
  real_num_rx_queues : Nat
  real_num_tx_queues : Nat
  mm_queues : Nat

/-- What the functions that probe calls come to. A `Bool` says whether a pointer is not NULL, or
for `enable_cmac` whether the lanes align. The queues are removed twice when adding one fails. -/
structure ProbeStatus where
  config_platform : Bool
  alloc_etherdev_mq : Bool
  num_msix : Int
  dma_req : Bool
  tx_qstats : Bool
  qdma_device_open : Status
  csr_index_setup : Int
  ioremap : Bool
  cdev : CdevStatus
  enable_cmac : Bool
  register_netdev : Status
  napi : Bool
  rx_queue_add : Nat → QueueAdd
  tx_queue_add : Nat → QueueAdd
  rx_remove : Nat → Int
  tx_remove : Nat → Int
  rx_remove_again : Nat → Int
  tx_remove_again : Nat → Int

/-- The counter goes up also when the queue is not added. -/
def onic_qdma_rx_queue_add (add : Nat → QueueAdd) (s : Priv) (q_no : Nat) : Int × Priv :=
  let (ret, q_state) := qdma_queue_add (add q_no) (s.c2h_descq q_no)
  let s := { s with
    c2h_descq := Function.update s.c2h_descq q_no q_state
    active_rx_queues := s.active_rx_queues + 1 }
  if ret ≠ 0 then (ret, s) else (0, s.malloc (.rx_queue q_no))

/-- A loop of `onic_qdma_rx_queue_setup`. The network queues get an entry of the napi array. -/
def rx_add_loop (add : Nat → QueueAdd) (net : Bool) (s : Priv) : List Nat → Int × Priv
  | [] => (0, s)
  | q_no :: queues =>
    let (ret, s) := onic_qdma_rx_queue_add add s q_no
    if ret ≠ 0 then (ret, s)
    else
      rx_add_loop add net (if net then (s.use .napi).malloc (.napi_entry q_no) else s) queues

def onic_qdma_rx_queue_setup (c : QueueCounts) (o : ProbeStatus) (s : Priv) : Int × Priv :=
  if !o.napi then (-ENOMEM, { s with napi := false }) else
  let s := { s.malloc .napi with napi := true }
  let (ret, s) := rx_add_loop o.rx_queue_add true s (List.range c.real_num_rx_queues)
  if ret ≠ 0 then (ret, onic_qdma_rx_queue_release o.rx_remove s s.active_rx_queues) else
  let (ret, s) := rx_add_loop o.rx_queue_add false s (List.range' QDMA_NET_QUEUE c.mm_queues)
  if ret ≠ 0 then (ret, onic_qdma_rx_queue_release o.rx_remove s s.active_rx_queues) else
  (0, s)

/-- The loop of `onic_qdma_tx_queue_setup`. -/
def tx_add_loop (add : Nat → QueueAdd) (s : Priv) : List Nat → Int × Priv
  | [] => (0, s)
  | q_no :: queues =>
    let (ret, q_state) := qdma_queue_add (add q_no) (s.h2c_descq q_no)
    let s := { s with
      h2c_descq := Function.update s.h2c_descq q_no q_state
      active_tx_queues := s.active_tx_queues + 1 }
    if ret ≠ 0 then (ret, s) else tx_add_loop add (s.malloc (.tx_queue q_no)) queues

def onic_qdma_tx_queue_setup (c : QueueCounts) (o : ProbeStatus) (s : Priv) : Int × Priv :=
  let (ret, s) := tx_add_loop o.tx_queue_add s (List.range (c.real_num_tx_queues + c.mm_queues))
  if ret ≠ 0 then (ret, onic_qdma_tx_queue_release o.tx_remove s s.active_tx_queues) else
  (0, s)

/-- Without MSI-X vectors the count is returned, be it 0. -/
def onic_set_num_queue (num_msix : Int) : Int := if num_msix ≤ 0 then num_msix else 0

def onic_qdma_setup (o : ProbeStatus) (s : Priv) : Int × Priv :=
  if o.qdma_device_open.val ≠ 0 then (-EINVAL, s) else
  let s := s.malloc .qdma_device
  if o.csr_index_setup ≠ 0 then (-EINVAL, s.free .qdma_device) else
  (0, s)

/-- The labels of `onic_pci_probe`, each with what follows it. -/
def onic_pci_probe.exit (s : Priv) : Priv := (s.free .pinfo).free .netdev

def onic_pci_probe.destroy_kmem_cache (s : Priv) : Priv := onic_pci_probe.exit (s.free .dma_req)

def onic_pci_probe.close_qdma_device (s : Priv) : Priv :=
  onic_pci_probe.destroy_kmem_cache (s.free .qdma_device)

def onic_pci_probe.destroy_cdev (s : Priv) : Priv :=
  onic_pci_probe.close_qdma_device (onic_destroy_cdev s)

def onic_pci_probe.iounmap_bar (s : Priv) : Priv :=
  onic_pci_probe.destroy_cdev (s.free .bar_base)

/-- `onic_disable_cmac` writes two registers. -/
def onic_pci_probe.disable_cmac (s : Priv) : Priv := onic_pci_probe.iounmap_bar s

def onic_pci_probe.release_rx_queues (o : ProbeStatus) (s : Priv) : Priv :=
  onic_pci_probe.disable_cmac
    (onic_qdma_rx_queue_release o.rx_remove_again s s.active_rx_queues)

def onic_pci_probe.release_queues (o : ProbeStatus) (s : Priv) : Priv :=
  onic_pci_probe.release_rx_queues o
    (onic_qdma_tx_queue_release o.tx_remove_again s s.active_tx_queues)

/-- From the registration of the network device on. -/
def onic_pci_probe.setup_queues (c : QueueCounts) (o : ProbeStatus) (s : Priv) : Int × Priv :=
  let (ret, s) := onic_qdma_rx_queue_setup c o s
  if ret ≠ 0 then (ret, onic_pci_probe.release_rx_queues o (s.free .tx_qstats)) else
  let (ret, s) := onic_qdma_tx_queue_setup c o s
  if ret ≠ 0 then (ret, onic_pci_probe.release_queues o s) else
  (0, s)

/-- From the mapped BAR on. -/
def onic_pci_probe.bring_up (c : QueueCounts) (o : ProbeStatus) (s : Priv) : Int × Priv :=
  let s := s.malloc .onic_cdev
  let (ret, s) := onic_create_cdev o.cdev s 0
  if ret < 0 then (ret, onic_pci_probe.destroy_cdev s) else
  if !o.enable_cmac then (-EBUSY, onic_pci_probe.iounmap_bar s) else
  if o.register_netdev.val ≠ 0 then
    (o.register_netdev.val, onic_pci_probe.disable_cmac s) else
  onic_pci_probe.setup_queues c o (s.malloc .registration)

/-- From the statistics on. -/
def onic_pci_probe.setup_device (c : QueueCounts) (o : ProbeStatus) (s : Priv) : Int × Priv :=
  let (ret, s) := onic_qdma_setup o s
  if ret ≠ 0 then (ret, onic_pci_probe.destroy_kmem_cache s) else
  if !o.ioremap then (- EIO, onic_pci_probe.close_qdma_device s) else
  onic_pci_probe.bring_up c o (s.malloc .bar_base)

def onic_pci_probe (c : QueueCounts) (o : ProbeStatus) (s : Priv) : Int × Priv :=
  if !o.config_platform then (-ENOMEM, s) else
  let s := s.malloc .pinfo
  if !o.alloc_etherdev_mq then (-ENODEV, s) else
  let s := s.malloc .netdev
  let ret := onic_set_num_queue o.num_msix
  if ret ≠ 0 then (ret, onic_pci_probe.exit s) else
  if !o.dma_req then (-ENOMEM, onic_pci_probe.exit s) else
  let s := s.malloc .dma_req
  if !o.tx_qstats then (-ENOMEM, onic_pci_probe.exit s) else
  onic_pci_probe.setup_device c o (s.malloc .tx_qstats)

/-- Before probe: nothing is acquired. The globals of `onic_cdev.c` may be those that an earlier
device has left. -/
def unprobed (onic_cdev_class : Bool) (cdev_minor : Int) : Priv where
  c2h_descq _ := .DISABLED
  h2c_descq _ := .DISABLED
  active_rx_queues := 0
  active_tx_queues := 0
  napi := false
  onic_cdev_class := onic_cdev_class
  cdev_minor := cdev_minor
  log := []

/-- On the way from one state to another the resource is not released. -/
def Spares (r : Resource) (s s' : Priv) : Prop :=
  ∃ events, s'.log = s.log ++ events ∧ .free r ∉ events

section Spares

variable {r : Resource} {s s' s'' : Priv}

theorem Spares.refl (r : Resource) (s : Priv) : Spares r s s :=
  ⟨[], (List.append_nil _).symm, List.not_mem_nil⟩

theorem Spares.trans (h : Spares r s s') (h' : Spares r s' s'') : Spares r s s'' := by
  obtain ⟨events, hlog, hspared⟩ := h
  obtain ⟨events', hlog', hspared'⟩ := h'
  refine ⟨events ++ events', by rw [hlog', hlog, List.append_assoc], ?_⟩
  intro hmem
  exact (List.mem_append.mp hmem).elim hspared hspared'

/-- A step that leaves the log alone. -/
theorem Spares.of_log_eq (r : Resource) (hlog : s'.log = s.log) : Spares r s s' :=
  ⟨[], by rw [hlog, List.append_nil], List.not_mem_nil⟩

/-- Acquiring a resource releases none. -/
theorem Spares.malloc (r : Resource) (s : Priv) (r' : Resource) : Spares r s (s.malloc r') :=
  ⟨[.malloc r'], rfl, by simp⟩

/-- Nor does using one. -/
theorem Spares.use (r : Resource) (s : Priv) (r' : Resource) : Spares r s (s.use r') :=
  ⟨[.use r'], rfl, by simp⟩

/-- Releasing a resource spares the other ones. -/
theorem Spares.free (s : Priv) {r' : Resource} (hother : r ≠ r') : Spares r s (s.free r') :=
  ⟨[.free r'], rfl, by simp [hother]⟩

/-- What is spared is not released more often. -/
theorem Spares.frees_eq (h : Spares r s s') : frees s'.log r = frees s.log r := by
  obtain ⟨events, hlog, hspared⟩ := h
  rw [hlog, frees_append, frees_eq_zero hspared, Nat.add_zero]

/-- A resource that is acquired and spared is leaked. -/
theorem Spares.not_allReleased (h : Spares r s s') (hmalloc : .malloc r ∈ s.log)
    (hfree : .free r ∉ s.log) : ¬AllReleased s'.log := by
  obtain ⟨events, hlog, hspared⟩ := h
  rw [hlog]
  apply not_allReleased_of_leak (List.mem_append_left _ hmalloc)
  intro hmem
  exact (List.mem_append.mp hmem).elim hfree hspared

end Spares

/-- The resources of single queues. -/
def Resource.of_queues : Resource → Bool
  | .napi_entry _ | .rx_queue _ | .tx_queue _ => true
  | _ => false

/-- Releasing what belongs to queues spares what does not. -/
theorem Releases.spares {r : Resource} (hr : r.of_queues = false) {s s' : Priv}
    (h : Releases s s') : Spares r s s' := by
  obtain ⟨events, hlog, hevents⟩ := h.log
  refine ⟨events, hlog, fun hmem => ?_⟩
  cases hevents _ hmem <;> cases hr

/-- `onic_qdma_rx_queue_release` releases the queues and what polls them. -/
theorem rx_queue_release_spares {r : Resource} (hr : r.of_queues = false) (hnapi : r ≠ .napi)
    (rv : Nat → Int) (s : Priv) (num_queues : Nat) :
    Spares r s (onic_qdma_rx_queue_release rv s num_queues) := by
  have hloop := (Releases.foldl (rx_release_turn_releases rv) (List.range num_queues) s).spares hr
  rw [onic_qdma_rx_queue_release]
  split
  · exact hloop.trans (Spares.free _ hnapi)
  · exact hloop

/-- Adding a queue releases nothing. -/
theorem rx_queue_add_spares (r : Resource) (add : Nat → QueueAdd) (s : Priv) (q_no : Nat) :
    Spares r s (onic_qdma_rx_queue_add add s q_no).2 := by
  simp only [onic_qdma_rx_queue_add]
  split
  · exact Spares.of_log_eq r rfl
  · exact (Spares.of_log_eq r rfl).trans (Spares.malloc r _ (.rx_queue q_no))

/-- Nor does adding all receive queues. -/
theorem rx_add_loop_spares (r : Resource) (add : Nat → QueueAdd) (net : Bool) (queues : List Nat)
    (s : Priv) : Spares r s (rx_add_loop add net s queues).2 := by
  induction queues generalizing s with
  | nil => exact Spares.refl r s
  | cons q_no queues ih =>
    have hadd := rx_queue_add_spares r add s q_no
    cases hcall : onic_qdma_rx_queue_add add s q_no with
    | mk ret added =>
      rw [hcall] at hadd
      simp only [rx_add_loop, hcall]
      split
      · exact hadd
      · cases net with
        | false => exact hadd.trans (ih added)
        | true =>
          have hentry := (Spares.use r added .napi).trans
            (Spares.malloc r (added.use .napi) (.napi_entry q_no))
          exact (hadd.trans hentry).trans (ih _)

/-- Nor does adding all transmit queues. -/
theorem tx_add_loop_spares (r : Resource) (add : Nat → QueueAdd) (queues : List Nat) (s : Priv) :
    Spares r s (tx_add_loop add s queues).2 := by
  induction queues generalizing s with
  | nil => exact Spares.refl r s
  | cons q_no queues ih =>
    simp only [tx_add_loop]
    split
    · exact Spares.of_log_eq r rfl
    · refine Spares.trans ?_ (ih _)
      exact ⟨[.malloc (.tx_queue q_no)], rfl, by simp⟩

/-- Adding queues, with the release when that fails, concerns the queues only. -/
theorem rx_queue_setup_spares {r : Resource} (hr : r.of_queues = false) (hother : r ≠ .napi)
    (c : QueueCounts) (o : ProbeStatus) (s : Priv) : Spares r s (onic_qdma_rx_queue_setup c o s).2 := by
  simp only [onic_qdma_rx_queue_setup]
  split
  · exact Spares.of_log_eq r rfl
  · have hnapi : Spares r s { s.malloc .napi with napi := true } := Spares.malloc r s .napi
    have hnet := hnapi.trans (rx_add_loop_spares r o.rx_queue_add true
      (List.range c.real_num_rx_queues) { s.malloc .napi with napi := true })
    split
    · exact hnet.trans (rx_queue_release_spares hr hother ..)
    · have hmm := hnet.trans (rx_add_loop_spares r o.rx_queue_add false
        (List.range' QDMA_NET_QUEUE c.mm_queues) _)
      split
      · exact hmm.trans (rx_queue_release_spares hr hother ..)
      · exact hmm

/-- When a transmit queue cannot be added, queues are released. -/
theorem tx_queue_setup_spares {r : Resource} (hr : r.of_queues = false) (c : QueueCounts)
    (o : ProbeStatus) (s : Priv) : Spares r s (onic_qdma_tx_queue_setup c o s).2 := by
  have hloop := tx_add_loop_spares r o.tx_queue_add
    (List.range (c.real_num_tx_queues + c.mm_queues)) s
  simp only [onic_qdma_tx_queue_setup]
  split
  · exact hloop.trans ((tx_queue_release_releases ..).spares hr)
  · exact hloop

/-- The resources that `onic_create_cdev` and `onic_destroy_cdev` handle. -/
def Resource.of_cdev : Resource → Bool
  | .onic_cdev | .read_queue_pool | .write_queue_pool | .onic_cdev_class | .chrdev_region
  | .mm_cdev | .sysfs_dev => true
  | _ => false

/-- `onic_create_cdev` releases only what belongs to the character device. -/
theorem create_cdev_spares {r : Resource} (hr : r.of_cdev = false) (status : CdevStatus) (s : Priv)
    (qid : Nat) : Spares r s (onic_create_cdev status s qid).2 := by
  have hmm_cdev : r ≠ .mm_cdev := by
    rintro rfl
    cases hr
  have hpools := (Spares.malloc r s .read_queue_pool).trans (Spares.malloc r _ .write_queue_pool)
  have hclass := hpools.trans (Spares.malloc r _ .onic_cdev_class)
  have hregion : Spares r s ({ ((s.malloc .read_queue_pool).malloc .write_queue_pool).malloc
      .onic_cdev_class with onic_cdev_class := true }.malloc .chrdev_region) :=
    hclass.trans (Spares.malloc r _ .chrdev_region)
  have hcdev := hregion.trans (Spares.malloc r _ .mm_cdev)
  simp only [onic_create_cdev]
  split
  · exact hpools
  split
  · exact hclass
  split
  · exact hregion
  split
  · exact hregion
  split
  · exact hcdev.trans (Spares.free _ hmm_cdev)
  · exact hcdev.trans (Spares.malloc r _ .sysfs_dev)

/-- `onic_destroy_cdev` releases only what belongs to the character device. -/
theorem destroy_cdev_spares {r : Resource} (hr : r.of_cdev = false) (s : Priv) :
    Spares r s (onic_destroy_cdev s) := by
  refine ⟨_, onic_destroy_cdev_log s, ?_⟩
  split <;> split <;> cases r <;> simp_all [Resource.of_cdev]

/-- The resources that the labels release besides the queues. -/
def Resource.of_labels : Resource → Bool
  | .pinfo | .netdev | .dma_req | .qdma_device | .bar_base => true
  | r => r.of_cdev

section Labels

variable {r : Resource} (hr : r.of_labels = false)

include hr

/-- Each of the labels releases its own resources, here the cache of requests. -/
theorem destroy_kmem_cache_spares (s : Priv) : Spares r s (onic_pci_probe.destroy_kmem_cache s) := by
  have hcache : r ≠ .dma_req := by rintro rfl; cases hr
  have hpinfo : r ≠ .pinfo := by rintro rfl; cases hr
  have hnetdev : r ≠ .netdev := by rintro rfl; cases hr
  exact ((Spares.free s hcache).trans (Spares.free _ hpinfo)).trans (Spares.free _ hnetdev)

/-- The label `close_qdma_device` releases the device. -/
theorem close_qdma_device_spares (s : Priv) : Spares r s (onic_pci_probe.close_qdma_device s) := by
  have hdevice : r ≠ .qdma_device := by rintro rfl; cases hr
  exact (Spares.free s hdevice).trans (destroy_kmem_cache_spares hr _)

/-- The label `destroy_cdev` releases the character device. -/
theorem destroy_cdev_label_spares (s : Priv) : Spares r s (onic_pci_probe.destroy_cdev s) := by
  have hcdev : r.of_cdev = false := by cases r <;> first | rfl | cases hr
  exact (destroy_cdev_spares hcdev s).trans (close_qdma_device_spares hr _)

/-- The label `iounmap_bar` releases the mapping. -/
theorem iounmap_bar_spares (s : Priv) : Spares r s (onic_pci_probe.iounmap_bar s) := by
  have hbar : r ≠ .bar_base := by rintro rfl; cases hr
  exact (Spares.free s hbar).trans (destroy_cdev_label_spares hr _)

end Labels

/-- Once the network device is registered, it stays so: nothing unregisters it. -/
theorem setup_queues_spares_registration (c : QueueCounts) (o : ProbeStatus) (s : Priv) :
    Spares .registration s (onic_pci_probe.setup_queues c o s).2 := by
  have hrx := rx_queue_setup_spares (r := .registration) rfl (by simp) c o s
  have hlabel : ∀ s, Spares .registration s (onic_pci_probe.release_rx_queues o s) := fun s =>
    (rx_queue_release_spares rfl (by simp) _ s _).trans (iounmap_bar_spares rfl _)
  simp only [onic_pci_probe.setup_queues]
  split
  · exact hrx.trans ((Spares.free _ (by simp)).trans (hlabel _))
  have htx := hrx.trans (tx_queue_setup_spares rfl c o _)
  split
  · have hrelease := (tx_queue_release_releases o.tx_remove_again
      (onic_qdma_tx_queue_setup c o (onic_qdma_rx_queue_setup c o s).2).2
      (onic_qdma_tx_queue_setup c o (onic_qdma_rx_queue_setup c o s).2).2.active_tx_queues).spares
        (r := .registration) rfl
    exact (htx.trans hrelease).trans (hlabel _)
  · exact htx

/-- Every failure behind the BAR leaks the statistics or the registration. -/
theorem bring_up_leaks (c : QueueCounts) (o : ProbeStatus) {s : Priv}
    (hmalloc : .malloc .tx_qstats ∈ s.log) (hstats : .free .tx_qstats ∉ s.log)
    (hregistration : .free .registration ∉ s.log) :
    ¬AllReleased (onic_pci_probe.bring_up c o s).2.log := by
  have hcreate : ∀ r : Resource, r.of_cdev = false →
      Spares r s (onic_create_cdev o.cdev (s.malloc .onic_cdev) 0).2 := fun r hr =>
    (Spares.malloc r s .onic_cdev).trans (create_cdev_spares hr o.cdev _ 0)
  simp only [onic_pci_probe.bring_up]
  split
  · exact ((hcreate .tx_qstats rfl).trans (destroy_cdev_label_spares rfl _)).not_allReleased
      hmalloc hstats
  split
  · exact ((hcreate .tx_qstats rfl).trans (iounmap_bar_spares rfl _)).not_allReleased
      hmalloc hstats
  split
  · exact ((hcreate .tx_qstats rfl).trans (iounmap_bar_spares rfl _)).not_allReleased
      hmalloc hstats
  · apply (setup_queues_spares_registration c o _).not_allReleased
    · simp
    · obtain ⟨events, hlog, hspared⟩ := hcreate .registration rfl
      simp [hlog, hregistration, hspared]

/-- `onic_qdma_setup` releases at most the device. -/
theorem qdma_setup_spares {r : Resource} (hr : r ≠ .qdma_device) (o : ProbeStatus) (s : Priv) :
    Spares r s (onic_qdma_setup o s).2 := by
  simp only [onic_qdma_setup]
  split
  · exact Spares.refl r s
  split
  · exact (Spares.malloc r s .qdma_device).trans (Spares.free _ hr)
  · exact Spares.malloc r s .qdma_device

/-- Every failure behind the statistics leaks them, or the registration. -/
theorem setup_device_leaks (c : QueueCounts) (o : ProbeStatus) {s : Priv}
    (hmalloc : .malloc .tx_qstats ∈ s.log) (hnone : ∀ r, .free r ∉ s.log) :
    ¬AllReleased (onic_pci_probe.setup_device c o s).2.log := by
  have hsetup : ∀ r : Resource, r ≠ .qdma_device → Spares r s (onic_qdma_setup o s).2 :=
    fun r hr => qdma_setup_spares hr o s
  have hstats := hsetup .tx_qstats (by simp)
  simp only [onic_pci_probe.setup_device]
  split
  · exact (hstats.trans (destroy_kmem_cache_spares rfl _)).not_allReleased hmalloc (hnone _)
  split
  · exact (hstats.trans (close_qdma_device_spares rfl _)).not_allReleased hmalloc (hnone _)
  · obtain ⟨events, hlog, hspared⟩ := hstats
    obtain ⟨events', hlog', hspared'⟩ := hsetup .registration (by simp)
    have hregistration : .free .registration ∉ (onic_qdma_setup o s).2.log := by
      simp [hlog', hnone, hspared']
    apply bring_up_leaks
    · simp [hlog, hmalloc]
    · simp [hlog, hnone, hspared]
    · simp [hregistration]

/-- The last label releases what the probe allocates first. -/
theorem exit_allReleased {onic_cdev_class : Bool} {cdev_minor : Int} : AllReleased
    (onic_pci_probe.exit
      (((unprobed onic_cdev_class cdev_minor).malloc .pinfo).malloc .netdev)).log := by
  intro r
  by_cases hpinfo : r = .pinfo
  · subst hpinfo
    simp [onic_pci_probe.exit, unprobed, frees]
  · by_cases hnetdev : r = .netdev
    · subst hnetdev
      simp [onic_pci_probe.exit, unprobed, frees]
    · simp [onic_pci_probe.exit, unprobed, frees, hpinfo, hnetdev, Ne.symm hpinfo,
        Ne.symm hnetdev]

/-- A probe that fails has released everything exactly when the failure is that of
`onic_config_platform`, of `onic_set_num_queue` or of the kmem cache. -/
theorem probe_all_or_nothing_iff (c : QueueCounts) (o : ProbeStatus) (onic_cdev_class : Bool)
    (cdev_minor : Int) :
    AllReleased (onic_pci_probe c o (unprobed onic_cdev_class cdev_minor)).2.log ↔
      o.config_platform = false ∨
        (o.alloc_etherdev_mq = true ∧ (o.num_msix < 0 ∨ o.dma_req = false)) := by
  simp only [onic_pci_probe]
  cases hplatform : o.config_platform with
  | false =>
    refine iff_of_true ?_ (.inl rfl)
    simp [unprobed, AllReleased, frees]
  | true =>
    cases hetherdev : o.alloc_etherdev_mq with
    | false =>
      refine iff_of_false ?_ (by simp)
      exact not_allReleased_of_leak (o := .pinfo) (by simp) (by simp [unprobed])
    | true =>
      simp only [Bool.not_true, Bool.false_eq_true, if_false]
      by_cases hmsix : onic_set_num_queue o.num_msix ≠ 0
      · have hnegative : o.num_msix < 0 := by
          simp only [onic_set_num_queue] at hmsix
          omega
        rw [if_pos hmsix]
        exact iff_of_true exit_allReleased (.inr ⟨trivial, .inl hnegative⟩)
      have hvectors : ¬o.num_msix < 0 := by
        simp only [onic_set_num_queue] at hmsix
        omega
      rw [if_neg hmsix]
      cases hcache : o.dma_req with
      | false => exact iff_of_true exit_allReleased (.inr ⟨trivial, .inr rfl⟩)
      | true =>
        refine iff_of_false ?_ (by simp [hvectors])
        cases hqstats : o.tx_qstats with
        | false =>
          exact not_allReleased_of_leak (o := .dma_req) (by simp [onic_pci_probe.exit])
            (by simp [onic_pci_probe.exit, unprobed])
        | true =>
          apply setup_device_leaks
          · simp
          · simp [unprobed]

/-- Adding receive queues does not change what polls them. -/
theorem rx_add_loop_napi (add : Nat → QueueAdd) (net : Bool) (queues : List Nat) (s : Priv) :
    (rx_add_loop add net s queues).2.napi = s.napi := by
  induction queues generalizing s with
  | nil => rfl
  | cons q_no queues ih =>
    have hadd : (onic_qdma_rx_queue_add add s q_no).2.napi = s.napi := by
      simp only [onic_qdma_rx_queue_add]
      split <;> rfl
    cases hcall : onic_qdma_rx_queue_add add s q_no with
    | mk ret added =>
      rw [hcall] at hadd
      simp only [rx_add_loop, hcall]
      split
      · exact hadd
      · rw [ih]
        cases net <;> exact hadd

/-- The helper releases the queues itself when one of them is not added. -/
theorem rx_queue_setup_fails (c : QueueCounts) (o : ProbeStatus) (s : Priv) (hnapi : o.napi = true)
    (hfails : (onic_qdma_rx_queue_setup c o s).1 ≠ 0) :
    ∃ mid, Spares .napi s mid ∧ mid.napi = true ∧
      (onic_qdma_rx_queue_setup c o s).2 = mid.free .napi := by
  have hrelease : ∀ added, Spares .napi s added → added.napi = true →
      ∃ mid, Spares .napi s mid ∧ mid.napi = true ∧
        onic_qdma_rx_queue_release o.rx_remove added added.active_rx_queues = mid.free .napi := by
    intro added hspares hstill
    obtain ⟨mid, hreleases, hfree⟩ :=
      rx_queue_release_frees_napi o.rx_remove added added.active_rx_queues hstill
    exact ⟨mid, hspares.trans (hreleases.spares rfl), hreleases.napi.trans hstill, hfree⟩
  have hmalloc : Spares .napi s { s.malloc .napi with napi := true } := Spares.malloc .napi s .napi
  have hnet := hmalloc.trans (rx_add_loop_spares .napi o.rx_queue_add true
    (List.range c.real_num_rx_queues) { s.malloc .napi with napi := true })
  have hmm := hnet.trans (rx_add_loop_spares .napi o.rx_queue_add false
    (List.range' QDMA_NET_QUEUE c.mm_queues) _)
  simp only [onic_qdma_rx_queue_setup, hnapi, Bool.not_true, Bool.false_eq_true, if_false]
    at hfails ⊢
  split
  case isTrue => exact hrelease _ hnet (rx_add_loop_napi ..)
  case isFalse hnet_done =>
    split
    case isTrue => exact hrelease _ hmm ((rx_add_loop_napi ..).trans (rx_add_loop_napi ..))
    case isFalse hmm_done =>
      rw [if_neg hnet_done, if_neg hmm_done] at hfails
      exact absurd rfl hfails

/-- Then the label behind it releases them again: whichever Rx queue is not added, the napi array
is freed twice. -/
theorem rx_failure_frees_napi_twice (c : QueueCounts) (o : ProbeStatus) (s : Priv)
    (hnapi : o.napi = true) (hnone : .free .napi ∉ s.log)
    (hfails : (onic_qdma_rx_queue_setup c o s).1 ≠ 0) :
    frees (onic_pci_probe.setup_queues c o s).2.log .napi = 2 := by
  obtain ⟨mid, hspared, hstill, hfree⟩ := rx_queue_setup_fails c o s hnapi hfails
  obtain ⟨mid', hreleases, hagain⟩ := rx_queue_release_frees_napi o.rx_remove_again
    ((mid.free .napi).free .tx_qstats) mid.active_rx_queues hstill
  have hqueues : (onic_pci_probe.setup_queues c o s).2 =
      onic_pci_probe.disable_cmac (mid'.free .napi) := by
    simp only [onic_pci_probe.setup_queues, if_pos hfails, hfree, ← hagain]
    rfl
  have hlabel : Spares .napi (mid'.free .napi) (onic_pci_probe.disable_cmac (mid'.free .napi)) :=
    iounmap_bar_spares rfl _
  have hstats : Spares .napi (mid.free .napi) ((mid.free .napi).free .tx_qstats) :=
    Spares.free _ (by simp)
  have hnapi_freed : ∀ s : Priv, frees (s.free .napi).log .napi = frees s.log .napi + 1 := by
    intro s
    rw [Priv.free_log, frees_append]
    rfl
  rw [hqueues, hlabel.frees_eq, hnapi_freed, (hreleases.spares rfl).frees_eq, hstats.frees_eq,
    hnapi_freed, hspared.frees_eq, frees_eq_zero hnone]

def status_ok : Status := ⟨0, Int.le_refl 0⟩

/-- Every step succeeds but that of adding Rx queue 1. -/
def rx_queue_add_fails : ProbeStatus where
  config_platform := true
  alloc_etherdev_mq := true
  num_msix := 9
  dma_req := true
  tx_qstats := true
  qdma_device_open := status_ok
  csr_index_setup := 0
  ioremap := true
  cdev := ⟨true, status_ok, status_ok, status_ok⟩
  enable_cmac := true
  register_netdev := status_ok
  napi := true
  rx_queue_add q := if q = 1 then ⟨⟨-1, by decide⟩, false⟩ else ⟨status_ok, false⟩
  tx_queue_add _ := ⟨status_ok, false⟩
  rx_remove _ := 0
  tx_remove _ := 0
  rx_remove_again _ := 0
  tx_remove_again _ := 0

/-- The network device stays registered, and the napi array is freed twice. -/
theorem probe_rx_queue_add_fails :
    let failed := onic_pci_probe ⟨2, 2, 1⟩ rx_queue_add_fails (unprobed false 0)
    failed.1 = -1 ∧ .malloc .registration ∈ failed.2.log ∧
      frees failed.2.log .registration = 0 ∧ frees failed.2.log .napi = 2 := by
  decide

end reconic.onic_main
