import RecoNIC.Ranges.Blocks

open ranges

namespace reconic.qdma_resource_mgmt

/-- A value as a `uint32_t` has it. -/
def uint32 (x : Int) : Nat := (x % 2 ^ 32).toNat

/-- A `uint32_t` value that is stored in an `int`. -/
def int32 (x : Int) : Int := if x % 2 ^ 32 < 2 ^ 31 then x % 2 ^ 32 else x % 2 ^ 32 - 2 ^ 32

theorem int32_of_range {x : Int} (h : 0 ≤ x) (h' : x < 2 ^ 31) : int32 x = x := by
  simp only [int32]
  split <;> omega

/-- What the functions return: `QDMA_SUCCESS`, or the negated error code. -/
inductive Rv where
  | QDMA_SUCCESS
  | QDMA_ERR_NO_MEM
  | QDMA_ERR_RM_RES_EXISTS
  | QDMA_ERR_RM_RES_NOT_EXISTS
  | QDMA_ERR_RM_DEV_EXISTS
  | QDMA_ERR_RM_DEV_NOT_EXISTS
  | QDMA_ERR_RM_NO_QUEUES_LEFT
  | QDMA_ERR_RM_QMAX_CONF_REJECTED
  deriving DecidableEq

@[ext]
structure qdma_resource_entry where
  qbase : Int
  total_q : Nat
  deriving DecidableEq

structure qdma_dev_entry where
  func_id : Nat
  active_h2c_qcnt : Nat
  active_c2h_qcnt : Nat
  active_cmpt_qcnt : Nat
  entry : qdma_resource_entry
  deriving DecidableEq

structure qdma_resource_master where
  dma_device_index : Nat
  pci_bus_start : Nat
  pci_bus_end : Nat
  total_q : Nat
  qbase : Int
  dev_list : List qdma_dev_entry
  free_list : List qdma_resource_entry
  active_qcnt : Nat
  deriving DecidableEq

/-- The outcomes of the allocations to come: one for which none is given succeeds. -/
abbrev Memory := List Bool

def qdma_calloc : Memory → Bool × Memory
  | [] => (true, [])
  | succeeds :: mem => (succeeds, mem)

def qdma_free_entry_create (q_base : Int) (total_q : Nat) (mem : Memory) :
    Option qdma_resource_entry × Memory :=
  (if (qdma_calloc mem).1 then some ⟨q_base, total_q⟩ else none, (qdma_calloc mem).2)

/-- `qdma_list_for_each_safe` of `qdma_submit_to_free_list`: the new node goes before the
first node with a greater base, and after the last node when there is none. -/
def insert_free (new_node : qdma_resource_entry) : List qdma_resource_entry → List qdma_resource_entry
  | [] => [new_node]
  | node :: rest =>
    if node.qbase > new_node.qbase then new_node :: node :: rest
    else node :: insert_free new_node rest

/-- The nodes from `streach_node` on, with contiguous resource chunks merged. -/
def stretch (streach_node : qdma_resource_entry) : List qdma_resource_entry → List qdma_resource_entry
  | [] => [streach_node]
  | node :: rest =>
    if uint32 (streach_node.qbase + streach_node.total_q) = uint32 node.qbase then
      stretch { streach_node with total_q := uint32 (streach_node.total_q + node.total_q) } rest
    else streach_node :: stretch node rest

/-- De-fragment. -/
def defragment : List qdma_resource_entry → List qdma_resource_entry
  | [] => []
  | node :: rest => stretch node rest

/-- The entry of a function is given back to the free list. The entry is as before when no
node can be allocated for it. -/
def qdma_submit_to_free_list (entry : qdma_resource_entry) (head : List qdma_resource_entry)
    (mem : Memory) : qdma_resource_entry × List qdma_resource_entry × Memory :=
  if entry.total_q = 0 then (entry, head, mem)
  else
    match qdma_free_entry_create entry.qbase entry.total_q mem with
    | (none, mem) => (entry, head, mem)
    | (some new_node, mem) => (⟨-1, 0⟩, defragment (insert_free new_node head), mem)

/-- A node of the free list with the nodes before and after it. -/
structure Place where
  before : List qdma_resource_entry
  node : qdma_resource_entry
  after : List qdma_resource_entry
  deriving DecidableEq

def Place.list (p : Place) : List qdma_resource_entry := p.before ++ p.node :: p.after

/-- The list after `qdma_list_del` of the node. -/
def Place.del (p : Place) : List qdma_resource_entry := p.before ++ p.after

/-- Try to honor the requested base: the first node that has all of the queues. -/
def honored_node (qmax : Nat) (qbase : Int) :
    List qdma_resource_entry → List qdma_resource_entry → Option Place
  | _, [] => none
  | before, node :: after =>
    if qbase ≥ node.qbase ∧ uint32 (node.qbase + node.total_q) ≥ uint32 (qbase + qmax) then
      some ⟨before, node, after⟩
    else honored_node qmax qbase (before ++ [node]) after

/-- The loop that finds a best node, with the `best_fit_node` so far. -/
def best_fit_node (qmax : Nat) : Option Place → List qdma_resource_entry →
    List qdma_resource_entry → Option Place
  | best, _, [] => best
  | best, before, node :: after =>
    if node.total_q ≥ qmax ∧ ∀ p ∈ best, p.node.total_q ≥ node.total_q then
      best_fit_node qmax (some ⟨before, node, after⟩) (before ++ [node]) after
    else best_fit_node qmax best (before ++ [node]) after

/-- The label `fragment_free_list`: the part of the node that is requested becomes a node of
its own. Without memory the list is as far as it has been split. -/
def fragment_free_list (qmax : Nat) (qbase : Int) (p : Place) (mem : Memory) :
    Except (List qdma_resource_entry) Place × Memory :=
  if qbase = p.node.qbase ∧ qmax = p.node.total_q then (.ok p, mem)
  else if qbase = p.node.qbase then
    let lqbase := int32 (p.node.qbase + qmax)
    let lqmax := uint32 (p.node.total_q - qmax)
    match qdma_free_entry_create lqbase lqmax mem with
    | (none, mem) => (.error p.list, mem)
    | (some new_entry, mem) =>
      (.ok ⟨p.before, { p.node with total_q := uint32 (p.node.total_q - lqmax) },
        new_entry :: p.after⟩, mem)
  else
    -- both of the other cases begin with a node for the queues below the requested ones
    let lqbase := p.node.qbase
    let lqmax := uint32 (qbase - p.node.qbase)
    match qdma_free_entry_create lqbase lqmax mem with
    | (none, mem) => (.error p.list, mem)
    | (some new_entry, mem) =>
      if qbase > p.node.qbase ∧ uint32 (qbase + qmax) = uint32 (p.node.qbase + p.node.total_q) then
        (.ok ⟨p.before ++ [new_entry], ⟨qbase, qmax⟩, p.after⟩, mem)
      else
        let rest := uint32 (p.node.total_q - lqmax)
        match qdma_free_entry_create (int32 (qbase + qmax)) (uint32 (rest - qmax)) mem with
        | (none, mem) => (.error (p.before ++ new_entry :: ⟨qbase, rest⟩ :: p.after), mem)
        | (some last_entry, mem) =>
          (.ok ⟨p.before ++ [new_entry], ⟨qbase, qmax⟩, last_entry :: p.after⟩, mem)

/-- The best free list entry node that can accommodate the request, and the base that is
taken from it. -/
def find_node (qmax : Nat) (qbase : Int) (free_list : List qdma_resource_entry) :
    Option (Place × Int) :=
  let honored := if qbase ≥ 0 then honored_node qmax qbase [] free_list else none
  match honored with
  | some p => some (p, qbase)
  | none => (best_fit_node qmax none [] free_list).map fun p => (p, p.node.qbase)

def qdma_get_resource_node (qmax : Nat) (qbase : Int) (free_list : List qdma_resource_entry)
    (mem : Memory) : Except (List qdma_resource_entry) Place × Memory :=
  match find_node qmax qbase free_list with
  | none => (.error free_list, mem)
  | some (p, qbase) => fragment_free_list qmax qbase p mem

/-- The entry of a function and the free list after a request. -/
structure Allotment where
  entry : qdma_resource_entry
  free_list : List qdma_resource_entry
  deriving DecidableEq

def qdma_request_q_resource (entry : qdma_resource_entry) (new_qmax : Nat) (new_qbase : Int)
    (free_list : List qdma_resource_entry) (mem : Memory) : Rv × Allotment :=
  let (given_back, free_list, mem) := qdma_submit_to_free_list entry free_list mem
  if new_qmax = 0 then (.QDMA_SUCCESS, ⟨given_back, free_list⟩)
  else
    match qdma_get_resource_node new_qmax new_qbase free_list mem with
    | (.ok p, _) => (.QDMA_SUCCESS, ⟨p.node, p.del⟩)
    | (.error free_list, mem) =>
      -- restore the entry
      match qdma_get_resource_node entry.total_q entry.qbase free_list mem with
      | (.ok p, _) => (.QDMA_ERR_RM_NO_QUEUES_LEFT, ⟨p.node, p.del⟩)
      | (.error free_list, _) => (.QDMA_ERR_RM_NO_QUEUES_LEFT, ⟨⟨-1, 0⟩, free_list⟩)

/-- The first entry of a list that has a property, as a function leaves it, with what the
function returns. -/
def on_first {α β : Type} (p : α → Bool) (f : α → β × α) : List α → Option (β × List α)
  | [] => none
  | a :: l =>
    if p a then some ((f a).1, (f a).2 :: l)
    else (on_first p f l).map fun r => (r.1, a :: r.2)

/-- `master_resource_list`, and the `index` for the next master resource. -/
structure Manager where
  master_resource_list : List qdma_resource_master
  index : Nat
  deriving DecidableEq

def Manager.init : Manager := ⟨[], 0⟩

def qdma_find_master_resource_entry (bus_start bus_end : Nat) (s : Manager) :
    Option qdma_resource_master :=
  s.master_resource_list.find? fun q_resource =>
    q_resource.pci_bus_start = bus_start ∧ q_resource.pci_bus_end = bus_end

def qdma_get_master_resource_entry (dma_device_index : Nat) (s : Manager) :
    Option qdma_resource_master :=
  s.master_resource_list.find? fun q_resource => q_resource.dma_device_index = dma_device_index

def qdma_get_dev_entry (dma_device_index func_id : Nat) (s : Manager) : Option qdma_dev_entry :=
  (qdma_get_master_resource_entry dma_device_index s).bind fun q_resource =>
    q_resource.dev_list.find? fun dev_entry => dev_entry.func_id = func_id

def qdma_master_resource_create (bus_start bus_end : Nat) (q_base : Int) (total_q : Nat)
    (mem : Memory) (s : Manager) : (Rv × Nat) × Manager :=
  match qdma_find_master_resource_entry bus_start bus_end s with
  | some q_resource => ((.QDMA_ERR_RM_RES_EXISTS, q_resource.dma_device_index), s)
  | none =>
    let (q_resource, mem) := qdma_calloc mem
    let (free_entry, _) := qdma_calloc mem
    if q_resource ∧ free_entry then
      ((.QDMA_SUCCESS, s.index),
        ⟨s.master_resource_list ++
          [⟨s.index, bus_start, bus_end, total_q, q_base, [], [⟨q_base, total_q⟩], 0⟩], s.index + 1⟩)
    else ((.QDMA_ERR_NO_MEM, s.index), s)

/-- The master resource stays when a function still has an entry. -/
def qdma_master_resource_destroy (dma_device_index : Nat) (s : Manager) : Manager :=
  match qdma_get_master_resource_entry dma_device_index s with
  | none => s
  | some q_resource =>
    if q_resource.dev_list ≠ [] then s
    else { s with master_resource_list :=
      s.master_resource_list.eraseP fun q_resource => q_resource.dma_device_index = dma_device_index }

/-- What a function does to the master resource of a device, when there is one. -/
def on_master (dma_device_index : Nat) (f : qdma_resource_master → Rv × qdma_resource_master)
    (s : Manager) : Rv × Manager :=
  match on_first (fun q_resource => q_resource.dma_device_index = dma_device_index) f
      s.master_resource_list with
  | none => (.QDMA_ERR_RM_RES_NOT_EXISTS, s)
  | some (rv, master_resource_list) => (rv, { s with master_resource_list })

def create_dev_entry (func_id : Nat) (mem : Memory) (q_resource : qdma_resource_master) :
    Rv × qdma_resource_master :=
  match q_resource.dev_list.find? fun dev_entry => dev_entry.func_id = func_id with
  | some _ => (.QDMA_ERR_RM_DEV_EXISTS, q_resource)
  | none =>
    if (qdma_calloc mem).1 then
      (.QDMA_SUCCESS,
        { q_resource with dev_list := q_resource.dev_list ++ [⟨func_id, 0, 0, 0, ⟨-1, 0⟩⟩] })
    else (.QDMA_ERR_NO_MEM, q_resource)

def qdma_dev_entry_create (dma_device_index func_id : Nat) (mem : Memory) (s : Manager) :
    Rv × Manager :=
  on_master dma_device_index (create_dev_entry func_id mem) s

/-- The function returns nothing: a missing entry is only logged. -/
def destroy_dev_entry (func_id : Nat) (mem : Memory) (q_resource : qdma_resource_master) :
    Rv × qdma_resource_master :=
  match q_resource.dev_list.find? fun dev_entry => dev_entry.func_id = func_id with
  | none => (.QDMA_ERR_RM_DEV_NOT_EXISTS, q_resource)
  | some dev_entry =>
    let (_, free_list, _) := qdma_submit_to_free_list dev_entry.entry q_resource.free_list mem
    (.QDMA_SUCCESS,
      { q_resource with
        dev_list := q_resource.dev_list.eraseP fun dev_entry => dev_entry.func_id = func_id
        free_list })

def qdma_dev_entry_destroy (dma_device_index func_id : Nat) (mem : Memory) (s : Manager) : Manager :=
  (on_master dma_device_index (destroy_dev_entry func_id mem) s).2

/-- What a function does to a device entry, when there is one, and to the rest of the master
resource. -/
def on_dev_entry (func_id : Nat)
    (f : qdma_dev_entry → (Rv × (qdma_resource_master → qdma_resource_master)) × qdma_dev_entry)
    (q_resource : qdma_resource_master) : Rv × qdma_resource_master :=
  match on_first (fun dev_entry => dev_entry.func_id = func_id) f q_resource.dev_list with
  | none => (.QDMA_ERR_RM_DEV_NOT_EXISTS, q_resource)
  | some ((rv, g), dev_list) => (rv, g { q_resource with dev_list })

def qdma_dev_entry.active (dev_entry : qdma_dev_entry) : Bool :=
  dev_entry.active_h2c_qcnt ≠ 0 ∨ dev_entry.active_c2h_qcnt ≠ 0 ∨ dev_entry.active_cmpt_qcnt ≠ 0

/-- With an active queue on the device no new configuration is allowed. -/
def update_dev_entry (func_id qmax : Nat) (qbase : Int) (mem : Memory)
    (q_resource : qdma_resource_master) : Rv × qdma_resource_master :=
  on_dev_entry func_id (fun dev_entry =>
    if dev_entry.active then ((.QDMA_ERR_RM_QMAX_CONF_REJECTED, id), dev_entry)
    else
      let (rv, allotment) :=
        qdma_request_q_resource dev_entry.entry qmax qbase q_resource.free_list mem
      ((rv, fun q_resource => { q_resource with free_list := allotment.free_list }),
        { dev_entry with entry := allotment.entry })) q_resource

/-- The base that the function writes back to its caller is that of the entry, see
`qdma_dev_qinfo_get`. -/
def qdma_dev_update (dma_device_index func_id qmax : Nat) (qbase : Int) (mem : Memory)
    (s : Manager) : Rv × Manager :=
  on_master dma_device_index (update_dev_entry func_id qmax qbase mem) s

def qdma_dev_qinfo_get (dma_device_index func_id : Nat) (s : Manager) :
    Except Rv (Int × Nat) :=
  match qdma_get_master_resource_entry dma_device_index s with
  | none => .error .QDMA_ERR_RM_RES_NOT_EXISTS
  | some _ =>
    match qdma_get_dev_entry dma_device_index func_id s with
    | none => .error .QDMA_ERR_RM_DEV_NOT_EXISTS
    | some dev_entry => .ok (dev_entry.entry.qbase, dev_entry.entry.total_q)

/-- The test of `qdma_dev_is_queue_in_range`. -/
def in_range (entry : qdma_resource_entry) (qid_hw : Nat) : Bool :=
  entry.total_q ≠ 0 ∧ qid_hw < uint32 (entry.qbase + entry.total_q) ∧ int32 qid_hw ≥ entry.qbase

inductive qdma_dev_q_range where
  | QDMA_DEV_Q_IN_RANGE
  | QDMA_DEV_Q_OUT_OF_RANGE
  deriving DecidableEq

def qdma_dev_is_queue_in_range (dma_device_index func_id qid_hw : Nat) (s : Manager) :
    qdma_dev_q_range :=
  match qdma_get_dev_entry dma_device_index func_id s with
  | none => .QDMA_DEV_Q_OUT_OF_RANGE
  | some dev_entry =>
    if in_range dev_entry.entry qid_hw then .QDMA_DEV_Q_IN_RANGE else .QDMA_DEV_Q_OUT_OF_RANGE

inductive qdma_dev_q_type where
  | QDMA_DEV_Q_TYPE_H2C
  | QDMA_DEV_Q_TYPE_C2H
  | QDMA_DEV_Q_TYPE_CMPT
  | QDMA_DEV_Q_TYPE_MAX
  deriving DecidableEq

/-- The count of a queue type, if the type has one. -/
def qdma_dev_entry.qcnt (dev_entry : qdma_dev_entry) : qdma_dev_q_type → Option Nat
  | .QDMA_DEV_Q_TYPE_H2C => some dev_entry.active_h2c_qcnt
  | .QDMA_DEV_Q_TYPE_C2H => some dev_entry.active_c2h_qcnt
  | .QDMA_DEV_Q_TYPE_CMPT => some dev_entry.active_cmpt_qcnt
  | .QDMA_DEV_Q_TYPE_MAX => none

def qdma_dev_entry.set_qcnt (dev_entry : qdma_dev_entry) (n : Nat) :
    qdma_dev_q_type → qdma_dev_entry
  | .QDMA_DEV_Q_TYPE_H2C => { dev_entry with active_h2c_qcnt := n }
  | .QDMA_DEV_Q_TYPE_C2H => { dev_entry with active_c2h_qcnt := n }
  | .QDMA_DEV_Q_TYPE_CMPT => { dev_entry with active_cmpt_qcnt := n }
  | .QDMA_DEV_Q_TYPE_MAX => dev_entry

def increment_active_queue (func_id : Nat) (q_type : qdma_dev_q_type)
    (q_resource : qdma_resource_master) : Rv × qdma_resource_master :=
  on_dev_entry func_id (fun dev_entry =>
    match dev_entry.qcnt q_type with
    | none => ((.QDMA_ERR_RM_DEV_NOT_EXISTS, id), dev_entry)
    | some active_qcnt =>
      if dev_entry.entry.total_q < uint32 (active_qcnt + 1) then
        ((.QDMA_ERR_RM_NO_QUEUES_LEFT, id), dev_entry)
      else
        ((.QDMA_SUCCESS, fun q_resource =>
          { q_resource with active_qcnt := uint32 (q_resource.active_qcnt + 1) }),
          dev_entry.set_qcnt (uint32 (active_qcnt + 1)) q_type)) q_resource

def qdma_dev_increment_active_queue (dma_device_index func_id : Nat) (q_type : qdma_dev_q_type)
    (s : Manager) : Rv × Manager :=
  on_master dma_device_index (increment_active_queue func_id q_type) s

/-- The count of the function does not go below zero. That of the master resource is
decremented at every call. -/
def decrement_active_queue (func_id : Nat) (q_type : qdma_dev_q_type)
    (q_resource : qdma_resource_master) : Rv × qdma_resource_master :=
  on_dev_entry func_id (fun dev_entry =>
    let count_down := fun q_resource : qdma_resource_master =>
      { q_resource with active_qcnt := uint32 (q_resource.active_qcnt - 1) }
    match dev_entry.qcnt q_type with
    | none => ((.QDMA_ERR_RM_DEV_NOT_EXISTS, count_down), dev_entry)
    | some active_qcnt =>
      ((.QDMA_SUCCESS, count_down), dev_entry.set_qcnt (active_qcnt - 1) q_type)) q_resource

def qdma_dev_decrement_active_queue (dma_device_index func_id : Nat) (q_type : qdma_dev_q_type)
    (s : Manager) : Rv × Manager :=
  on_master dma_device_index (decrement_active_queue func_id q_type) s

/-- A call of the resource manager. Each runs under the resource lock. -/
inductive Call where
  | qdma_master_resource_create (bus_start bus_end : Nat) (q_base : Int) (total_q : Nat)
  | qdma_master_resource_destroy (dma_device_index : Nat)
  | qdma_dev_entry_create (dma_device_index func_id : Nat)
  | qdma_dev_entry_destroy (dma_device_index func_id : Nat)
  | qdma_dev_update (dma_device_index func_id qmax : Nat) (qbase : Int)
  | qdma_dev_increment_active_queue (dma_device_index func_id : Nat) (q_type : qdma_dev_q_type)
  | qdma_dev_decrement_active_queue (dma_device_index func_id : Nat) (q_type : qdma_dev_q_type)
  deriving DecidableEq

def Call.execute (mem : Memory) (s : Manager) : Call → Manager
  | .qdma_master_resource_create bus_start bus_end q_base total_q =>
    (qdma_resource_mgmt.qdma_master_resource_create bus_start bus_end q_base total_q mem s).2
  | .qdma_master_resource_destroy dma_device_index =>
    qdma_resource_mgmt.qdma_master_resource_destroy dma_device_index s
  | .qdma_dev_entry_create dma_device_index func_id =>
    (qdma_resource_mgmt.qdma_dev_entry_create dma_device_index func_id mem s).2
  | .qdma_dev_entry_destroy dma_device_index func_id =>
    qdma_resource_mgmt.qdma_dev_entry_destroy dma_device_index func_id mem s
  | .qdma_dev_update dma_device_index func_id qmax qbase =>
    (qdma_resource_mgmt.qdma_dev_update dma_device_index func_id qmax qbase mem s).2
  | .qdma_dev_increment_active_queue dma_device_index func_id q_type =>
    (qdma_resource_mgmt.qdma_dev_increment_active_queue dma_device_index func_id q_type s).2
  | .qdma_dev_decrement_active_queue dma_device_index func_id q_type =>
    (qdma_resource_mgmt.qdma_dev_decrement_active_queue dma_device_index func_id q_type s).2

/-- The manager after calls from any functions, each with the outcomes of its allocations. -/
def Manager.run (s : Manager) (calls : List (Memory × Call)) : Manager :=
  calls.foldl (fun s call => call.2.execute call.1 s) s

end reconic.qdma_resource_mgmt
