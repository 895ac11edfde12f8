import RecoNIC.Bits.Numerals
import RecoNIC.Rdma.Buffers
import RecoNIC.Rdma.ReceiveQueue
import RecoNIC.Rdma.SendQueue

open bits
open reconic.rdma_buff (RdmaBuff RnDev)

namespace reconic.rdma_api

def AXI_BAR_SIZE : BitVec 64 := 0x000000ffffffffff#64

def ADDR_MASK : BitVec 32 := 0xffffffff#32

def get_win_size : BitVec 64 := AXI_BAR_SIZE

/-- `win_size_t`. -/
structure WinSize where
  win_size_lsb : BitVec 32
  win_size_msb : BitVec 32
  deriving DecidableEq

/-- The window size that `config_rn_dev_axib_bdf` stores in `rn_dev->winSize`. -/
def win_size : WinSize where
  win_size_lsb := (get_win_size &&& 0x00000000ffffffff#64).setWidth 32
  win_size_msb := ((get_win_size &&& 0xffffffff00000000#64) >>> 32).setWidth 32

theorem low_word_toNat (x : BitVec 64) :
    ((x &&& 0x00000000ffffffff#64).setWidth 32).toNat = x.toNat % 2 ^ 32 := by
  rw [BitVec.toNat_setWidth, and_mask_toNat x _ 32 (by decide), Nat.mod_mod]

theorem high_word_toNat (x : BitVec 64) :
    (((x &&& 0xffffffff00000000#64) >>> 32).setWidth 32).toNat = x.toNat / 2 ^ 32 := by
  have hlow := and_mask_toNat x 0x00000000ffffffff#64 32 (by decide)
  have hsplit := and_split_toNat x 0xffffffff00000000#64 0x00000000ffffffff#64 (by decide) (by decide)
  have hbound := x.isLt
  rw [BitVec.toNat_setWidth, BitVec.toNat_ushiftRight, Nat.shiftRight_eq_div_pow]
  omega

theorem shifted_word_toNat (x : BitVec 64) :
    (((x >>> 32) &&& 0x00000000ffffffff#64).setWidth 32).toNat = x.toNat / 2 ^ 32 := by
  have hbound := x.isLt
  rw [BitVec.toNat_setWidth, and_mask_toNat _ _ 32 (by decide), BitVec.toNat_ushiftRight,
    Nat.shiftRight_eq_div_pow]
  omega

/-- Why a call does not return: it uses an entry of `qps_ptr` that is not there or NULL,
it exits the program, it still polls a register, or it frees a block twice. -/
inductive Stop where
  | out_of_bounds
  | null_pointer
  | exit
  | polling
  | double_free
  deriving DecidableEq

theorem bind_ok {α β : Type} {first : Except Stop α} {f : α → Except Stop β} {result : β}
    (hbind : first >>= f = .ok result) : ∃ value, first = .ok value ∧ f value = .ok result := by
  cases first with
  | error stop => cases hbind
  | ok value => exact ⟨value, rfl, hbind⟩

theorem bind_error {α β : Type} {first : Except Stop α} {f : α → Except Stop β} {stop : Stop}
    (hbind : first >>= f = .error stop) :
    first = .error stop ∨ ∃ value, first = .ok value ∧ f value = .error stop := by
  cases first with
  | error reason =>
    cases hbind
    exact .inl rfl
  | ok value => exact .inr ⟨value, rfl, hbind⟩

/-- No entry outside of `qps_ptr` is used. -/
def Inside {α : Type} (outcome : Except Stop α) : Prop := outcome ≠ .error .out_of_bounds

theorem exit_ne : Stop.exit ≠ .out_of_bounds := by decide

theorem polling_ne : Stop.polling ≠ .out_of_bounds := by decide

theorem null_pointer_ne : Stop.null_pointer ≠ .out_of_bounds := by decide

theorem double_free_ne : Stop.double_free ≠ .out_of_bounds := by decide

/-- A call that returns has stayed in the table. -/
theorem inside_ok {α : Type} (result : α) : Inside (.ok result) := by
  simp [Inside]

/-- So has one that ends otherwise than by leaving it. -/
theorem inside_error {α : Type} {stop : Stop} (hstop : stop ≠ .out_of_bounds) :
    Inside (.error stop : Except Stop α) :=
  fun houtside => hstop (Except.error.inj houtside)

/-- How calls may end: with a good result, or for a reason other than `qps_ptr`. -/
def Ends {α : Type} (good : α → Prop) : Except Stop α → Prop
  | .ok result => good result
  | .error stop => stop ≠ .out_of_bounds

/-- A call that ends well stays in the table. -/
theorem Ends.inside {α : Type} {good : α → Prop} {outcome : Except Stop α}
    (hends : Ends good outcome) : Inside outcome := by
  cases outcome with
  | ok result => exact inside_ok result
  | error stop => exact inside_error hends

/-- What is good may be weakened. -/
theorem Ends.mono {α : Type} {good good' : α → Prop} {outcome : Except Stop α}
    (hends : Ends good outcome) (hgood : ∀ result, good result → good' result) :
    Ends good' outcome := by
  cases outcome with
  | ok result => exact hgood result hends
  | error stop => exact hends

/-- A queue pair, `rdma_qp_t`. The two sequence numbers are unset after `malloc`. Of its
protection domain it has the pointer. -/
structure QueuePair where
  qpid : BitVec 32
  pd_entry : BitVec 64
  sq : RdmaBuff
  cq : RdmaBuff
  rq : RdmaBuff
  sq_psn : Option (BitVec 32)
  last_rq_psn : Option (BitVec 32)
  send : RdmaQp
  receive : RdmaRq
  deriving DecidableEq

/-- `rdma_dev_t`. The table `qps_ptr` is as long as `create_rdma_dev` has made it. -/
structure RdmaDev where
  rn_dev : RnDev
  axil_ctl : BitVec 64
  num_qp : BitVec 32
  qps_ptr : List (Option QueuePair)
  winSize : WinSize
  deriving DecidableEq

/-- `rdma_dev->qps_ptr[qpid]`, when the pointer is then followed. -/
def RdmaDev.qp (rdma_dev : RdmaDev) (qpid : BitVec 32) : Except Stop QueuePair :=
  match rdma_dev.qps_ptr[qpid.toNat]? with
  | none => .error .out_of_bounds
  | some none => .error .null_pointer
  | some (some qp) => .ok qp

/-- `rdma_dev->qps_ptr[qpid] = qp`. -/
def RdmaDev.set_qp (rdma_dev : RdmaDev) (qpid : BitVec 32) (qp : QueuePair) : Except Stop RdmaDev :=
  if qpid.toNat < rdma_dev.qps_ptr.length then
    .ok { rdma_dev with qps_ptr := rdma_dev.qps_ptr.set qpid.toNat (some qp) }
  else .error .out_of_bounds

/-- An entry that could be set is in the table. -/
theorem set_qp_ok {rdma_dev rdma_dev' : RdmaDev} {qpid : BitVec 32} {qp : QueuePair}
    (hset : rdma_dev.set_qp qpid qp = .ok rdma_dev') :
    qpid.toNat < rdma_dev.qps_ptr.length ∧
      rdma_dev' = { rdma_dev with qps_ptr := rdma_dev.qps_ptr.set qpid.toNat (some qp) } := by
  rw [RdmaDev.set_qp] at hset
  split at hset
  case isTrue hinside =>
    cases hset
    exact ⟨hinside, rfl⟩
  case isFalse => cases hset

end reconic.rdma_api
