import RecoNIC.Lifetimes.Log

open lifetimes

namespace reconic.onic_main

/-- `Q_STATE_*` of libqdma. -/
inductive QState where
  | DISABLED | ENABLED | ONLINE
  deriving DecidableEq

/-- What the driver acquires and releases. -/
inductive Resource where
  | pinfo | netdev | dma_req | tx_qstats | qdma_device | bar_base | onic_cdev | read_queue_pool
  | write_queue_pool | onic_cdev_class | chrdev_region | mm_cdev | sysfs_dev | registration | napi
  | napi_entry (q_no : Nat)
  | rx_queue (q_no : Nat)
  | tx_queue (q_no : Nat)
  deriving DecidableEq

/-- `onic_priv` with its queues in libqdma and the globals of `onic_cdev.c`, as far as probe, open,
stop and remove depend on them. Of the pointers it says whether they are set. -/
structure Priv where
  c2h_descq : Nat → QState
  h2c_descq : Nat → QState
  active_rx_queues : Nat
  active_tx_queues : Nat
  napi : Bool
  onic_cdev_class : Bool
  cdev_minor : Int
  log : Log Resource

def Priv.malloc (s : Priv) (r : Resource) : Priv := { s with log := s.log ++ [.malloc r] }

def Priv.use (s : Priv) (r : Resource) : Priv := { s with log := s.log ++ [.use r] }

def Priv.free (s : Priv) (r : Resource) : Priv := { s with log := s.log ++ [.free r] }

@[simp] theorem Priv.malloc_log (s : Priv) (r : Resource) :
    (s.malloc r).log = s.log ++ [.malloc r] := rfl

@[simp] theorem Priv.free_log (s : Priv) (r : Resource) :
    (s.free r).log = s.log ++ [.free r] := rfl

@[simp] theorem Priv.free_napi (s : Priv) (r : Resource) : (s.free r).napi = s.napi := rfl

def ENODEV : Int := 19

def MAX_MINOR_DEV : Nat := 64

/-- What a kernel function returns: 0, or an error number with a minus. -/
abbrev Status := { ret : Int // ret ≤ 0 }

/-- What the kernel functions that `onic_create_cdev` calls return. -/
structure CdevStatus where
  class_create : Bool
  alloc_chrdev_region : Status
  cdev_add : Status
  device_create : Status

/-- A `device_create` that fails is taken back by `cdev_del`; nothing else is. -/
def onic_create_cdev (status : CdevStatus) (s : Priv) (qid : Nat) : Int × Priv :=
  let s := (s.malloc .read_queue_pool).malloc .write_queue_pool
  if !status.class_create then (-ENODEV, { s with onic_cdev_class := false })
  else
    let s := { s.malloc .onic_cdev_class with onic_cdev_class := true }
    if status.alloc_chrdev_region.val ≠ 0 then (status.alloc_chrdev_region.val, s)
    else
      let s := s.malloc .chrdev_region
      if MAX_MINOR_DEV ≤ qid then (-1, s)
      else
        let s := { s with cdev_minor := qid }
        if status.cdev_add.val < 0 then (status.cdev_add.val, s)
        else
          let s := s.malloc .mm_cdev
          if status.device_create.val ≠ 0 then (status.device_create.val, s.free .mm_cdev)
          else (0, s.malloc .sysfs_dev)

def onic_destroy_cdev (s : Priv) : Priv :=
  let s := s.free .mm_cdev
  let s := if 0 ≤ s.cdev_minor then s.free .sysfs_dev else s
  let s := if s.onic_cdev_class then (s.free .onic_cdev_class).free .chrdev_region else s
  ((s.free .read_queue_pool).free .write_queue_pool).free .onic_cdev

/-- What `onic_destroy_cdev` releases, whatever `onic_create_cdev` has acquired. -/
theorem onic_destroy_cdev_log (s : Priv) : (onic_destroy_cdev s).log = s.log ++
    ([.free .mm_cdev] ++ (if 0 ≤ s.cdev_minor then [.free .sysfs_dev] else []) ++
      (if s.onic_cdev_class then [.free .onic_cdev_class, .free .chrdev_region] else []) ++
      [.free .read_queue_pool, .free .write_queue_pool, .free .onic_cdev]) := by
  by_cases hminor : 0 ≤ s.cdev_minor <;> by_cases hclass : s.onic_cdev_class = true <;>
    simp [onic_destroy_cdev, Priv.free, hminor, hclass]

theorem onic_destroy_cdev_napi (s : Priv) : (onic_destroy_cdev s).napi = s.napi := by
  simp only [onic_destroy_cdev, Priv.free_napi, apply_ite Priv.napi, ite_self]

end reconic.onic_main
