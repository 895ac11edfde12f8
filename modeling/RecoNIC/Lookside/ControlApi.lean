import Mathlib.Data.List.Basic
import Mathlib.Tactic.Common

namespace reconic.control_api

/-- A compute control command, `ctl_cmd_t`. -/
structure CtlCmd where
  ctl_cmd_size : BitVec 32
  a_baseaddr : BitVec 32
  b_baseaddr : BitVec 32
  c_baseaddr : BitVec 32
  a_row : BitVec 16
  a_col : BitVec 16
  b_col : BitVec 16
  work_id : BitVec 16
  deriving DecidableEq

/-- The register accesses a host program has made, oldest first: the address
and the word of every 32-bit store. -/
structure Mmio where
  writes : List (BitVec 64 × BitVec 32)

def write32_data (bus : Mmio) (pcie_axil_base offset : BitVec 64) (value : BitVec 32) : Mmio where
  writes := bus.writes ++ [(pcie_axil_base + offset, value)]

/-- The words stored at one address, oldest first. -/
def Mmio.wordsAt (bus : Mmio) (addr : BitVec 64) : List (BitVec 32) :=
  bus.writes.filterMap fun w => if w.1 = addr then some w.2 else none

def gen_ctl_cmd (a_baseaddr b_baseaddr c_baseaddr ctl_cmd_size : BitVec 32)
    (a_row a_col b_col work_id : BitVec 16) : CtlCmd where
  ctl_cmd_size := ctl_cmd_size
  a_baseaddr := a_baseaddr
  b_baseaddr := b_baseaddr
  c_baseaddr := c_baseaddr
  a_row := a_row
  a_col := a_col
  b_col := b_col
  work_id := work_id

/-- The element that carries two 16-bit fields. -/
def ctl_cmd_element (high low : BitVec 16) : BitVec 32 :=
  ((high.setWidth 32 <<< 16) &&& 0xffff0000#32) ||| (low.setWidth 32 &&& 0x0000ffff#32)

def issue_ctl_cmd (bus : Mmio) (axil_base : BitVec 64) (offset : BitVec 32) (ctl_cmd : CtlCmd) :
    Mmio :=
  let offset := offset.setWidth 64
  let bus := write32_data bus axil_base offset ctl_cmd.ctl_cmd_size
  let bus := write32_data bus axil_base offset ctl_cmd.a_baseaddr
  let bus := write32_data bus axil_base offset ctl_cmd.b_baseaddr
  let bus := write32_data bus axil_base offset ctl_cmd.c_baseaddr
  let bus := write32_data bus axil_base offset (ctl_cmd_element ctl_cmd.a_row ctl_cmd.a_col)
  write32_data bus axil_base offset (ctl_cmd_element ctl_cmd.b_col ctl_cmd.work_id)

/-- The words of one command in the order in which they are stored. -/
def CtlCmd.words (ctl_cmd : CtlCmd) : List (BitVec 32) :=
  [ctl_cmd.ctl_cmd_size, ctl_cmd.a_baseaddr, ctl_cmd.b_baseaddr, ctl_cmd.c_baseaddr,
    ctl_cmd_element ctl_cmd.a_row ctl_cmd.a_col, ctl_cmd_element ctl_cmd.b_col ctl_cmd.work_id]

/-- Issuing a command appends its words to what has been stored at the FIFO's
address. -/
theorem issue_ctl_cmd_words (bus : Mmio) (axil_base : BitVec 64) (offset : BitVec 32)
    (ctl_cmd : CtlCmd) :
    (issue_ctl_cmd bus axil_base offset ctl_cmd).wordsAt (axil_base + offset.setWidth 64) =
      bus.wordsAt (axil_base + offset.setWidth 64) ++ ctl_cmd.words := by
  simp [issue_ctl_cmd, write32_data, Mmio.wordsAt, CtlCmd.words]

/-- Issuing commands one after the other stores the concatenation of their words. -/
theorem issue_all_words (axil_base : BitVec 64) (offset : BitVec 32) (cmds : List CtlCmd)
    (bus : Mmio) :
    (cmds.foldl (fun bus cmd => issue_ctl_cmd bus axil_base offset cmd) bus).wordsAt
        (axil_base + offset.setWidth 64) =
      bus.wordsAt (axil_base + offset.setWidth 64) ++ cmds.flatMap CtlCmd.words := by
  induction cmds generalizing bus with
  | nil => simp
  | cons cmd cmds ih => simp [ih, issue_ctl_cmd_words]

end reconic.control_api
