import RecoNIC.Clocked.Machine
import RecoNIC.Lookside.Framing

open clocked reconic.cl_box reconic.framing

namespace reconic.compute_logic_wrapper

/-- The states of the scheduling process. Its register has two bits, of which one
encoding is not named in the source. -/
inductive KernelState where
  | CL_IDLE
  | CL_BOX_ACTIVE
  | CL_KERNEL_ACTIVE
  | unnamed
  deriving DecidableEq

inductive CompState where
  | COMPUTE_IDLE
  | COMPUTE_BUSY
  deriving DecidableEq

/-- The `ap_vld` outputs of `cl_box`. -/
structure Valids where
  a_baseaddr : Bool
  b_baseaddr : Bool
  c_baseaddr : Bool
  a_row : Bool
  a_col : Bool
  b_col : Bool
  work_id : Bool
  deriving DecidableEq

def Valids.all (b : Bool) : Valids := ⟨b, b, b, b, b, b, b⟩

def Valids.zip (f : Bool → Bool → Bool) (u v : Valids) : Valids where
  a_baseaddr := f u.a_baseaddr v.a_baseaddr
  b_baseaddr := f u.b_baseaddr v.b_baseaddr
  c_baseaddr := f u.c_baseaddr v.c_baseaddr
  a_row := f u.a_row v.a_row
  a_col := f u.a_col v.a_col
  b_col := f u.b_col v.b_col
  work_id := f u.work_id v.work_id

/-- The inputs of `mmult` that are captured when their `ap_vld` is high. -/
structure Scalars where
  a_row : BitVec 32
  a_col : BitVec 32
  b_col : BitVec 32
  work_id : BitVec 32
  deriving DecidableEq

/-- The parameter registers of the wrapper. -/
structure Params where
  a_baseaddr_reg : BitVec 64
  b_baseaddr_reg : BitVec 64
  c_baseaddr_reg : BitVec 64
  a_row_reg : BitVec 32
  a_col_reg : BitVec 32
  b_col_reg : BitVec 32
  work_id_reg : BitVec 32
  deriving DecidableEq

def Params.scalars (p : Params) : Scalars := ⟨p.a_row_reg, p.a_col_reg, p.b_col_reg, p.work_id_reg⟩

/-- The parameter registers after an edge at which `cl_box` drives `args` with
the given `ap_vld` outputs. -/
def Params.load (p : Params) (args : Args) (vld : Valids) : Params where
  a_baseaddr_reg := if vld.a_baseaddr then args.a_baseaddr.setWidth 64 else p.a_baseaddr_reg
  b_baseaddr_reg := if vld.b_baseaddr then args.b_baseaddr.setWidth 64 else p.b_baseaddr_reg
  c_baseaddr_reg := if vld.c_baseaddr then args.c_baseaddr.setWidth 64 else p.c_baseaddr_reg
  a_row_reg := if vld.a_row then args.a_row else p.a_row_reg
  a_col_reg := if vld.a_col then args.a_col else p.a_col_reg
  b_col_reg := if vld.b_col then args.b_col else p.b_col_reg
  work_id_reg := if vld.work_id then args.work_id else p.work_id_reg

/-- A run of `cl_box` that has not ended: the words it has read from the command
stream, and the outputs it has pulsed. -/
structure BoxRun where
  words : List (BitVec 32)
  pulsed : Valids

/-- The registers of the scheduler on `axis_aclk`, the words in the command FIFO,
and the two engines. -/
structure Sched where
  kernel_state : KernelState
  cl_box_start : Bool
  params : Params
  ap_start : Bool
  new_req_reg : Bool
  comp_state : CompState
  ctl_cmd_afifo : List (BitVec 32)
  cl_box : Option BoxRun
  mmult_running : Bool
  mmult_scalars : Scalars

/-- What a cycle leaves open: the words that arrive in the command FIFO, and the
pace of the engines. -/
structure SchedInput where
  arrivals : List (BitVec 32)
  box_read : Bool
  box_vld : Valids
  box_finish : Bool
  kernel_finish : Bool

/-- The run `cl_box` is in, or begins in this cycle. -/
def box_run (s : Sched) : BoxRun := s.cl_box.getD ⟨[], Valids.all false⟩

def cl_box_active (s : Sched) : Bool := s.cl_box.isSome || s.cl_box_start

def cl_box_idle (s : Sched) : Bool := !s.cl_box.isSome && !s.cl_box_start

/-- `parse_ctl_cmd` is waiting for its next word. -/
def wants_word (words : List (BitVec 32)) : Bool :=
  match parse_ctl_cmd words with
  | .error .stream_empty => true
  | .error .out_of_bounds => false
  | .ok _ => false

def ctl_cmd_fifo_rd_en (s : Sched) (i : SchedInput) : Bool :=
  cl_box_active s && i.box_read && wants_word (box_run s).words && !s.ctl_cmd_afifo.isEmpty

/-- The words read from the FIFO in a cycle. -/
def words_read (s : Sched) (i : SchedInput) : List (BitVec 32) :=
  if ctl_cmd_fifo_rd_en s i then s.ctl_cmd_afifo.take 1 else []

/-- The words the run has read, that of this cycle included. -/
def words_seen (s : Sched) (i : SchedInput) : List (BitVec 32) :=
  (box_run s).words ++ words_read s i

/-- The values on the outputs of `cl_box`, from the cycle in which it has its last word. -/
def box_args (s : Sched) (i : SchedInput) : Option Args :=
  if cl_box_active s then
    match parse_ctl_cmd (words_seen s i) with
    | .ok (args, _) => some args
    | .error _ => none
  else none

/-- An output may be pulsed in any cycle in which its value is there; what has not
been pulsed before the last cycle of the run is pulsed then. -/
def ap_vld (s : Sched) (i : SchedInput) : Valids :=
  Valids.zip (fun vld pulsed => (box_args s i).isSome && (vld || i.box_finish && !pulsed)) i.box_vld
    (box_run s).pulsed

def cl_box_done (s : Sched) (i : SchedInput) : Bool := (box_args s i).isSome && i.box_finish

def ap_active (s : Sched) : Bool := s.mmult_running || s.ap_start

def ap_idle (s : Sched) : Bool := !s.mmult_running && !s.ap_start

def ap_done (s : Sched) (i : SchedInput) : Bool := ap_active s && i.kernel_finish

def ap_ready (s : Sched) (i : SchedInput) : Bool := ap_done s i

/-- A run of `mmult` starts in this cycle. -/
def mmult_starts (s : Sched) : Bool := !s.mmult_running && s.ap_start

/-- The captured inputs `mmult` works with in this cycle. -/
def scalars_in_use (s : Sched) : Scalars :=
  if s.new_req_reg then s.params.scalars else s.mmult_scalars

/-- The scheduling process of `control_command_processor`: `kernel_state` and
`cl_box_start` after an edge. -/
def kernel_fsm (kernel_state : KernelState)
    (box_idle box_done kernel_idle kernel_done ctl_cmd_afifo_empty : Bool) : KernelState × Bool :=
  match kernel_state with
  | .CL_IDLE =>
    if box_idle && kernel_idle && !ctl_cmd_afifo_empty then (.CL_BOX_ACTIVE, true)
    else (.CL_IDLE, false)
  | .CL_BOX_ACTIVE =>
    if box_done && kernel_done then (.CL_IDLE, false)
    else if box_done && !kernel_done then (.CL_KERNEL_ACTIVE, false)
    else (.CL_BOX_ACTIVE, true)
  | .CL_KERNEL_ACTIVE => (if kernel_done then .CL_IDLE else .CL_KERNEL_ACTIVE, false)
  | .unnamed => (.CL_IDLE, false)

/-- The compute process of `compute_logic_wrapper`: `comp_state` and `ap_start`
after an edge. -/
def comp_fsm (comp_state : CompState) (idle new_req ready done : Bool) : CompState × Bool :=
  match comp_state with
  | .COMPUTE_IDLE =>
    if idle && new_req then (.COMPUTE_BUSY, true) else (.COMPUTE_IDLE, false)
  | .COMPUTE_BUSY => (if done then .COMPUTE_IDLE else .COMPUTE_BUSY, !ready)

def sched_reset : Sched where
  kernel_state := .CL_IDLE
  cl_box_start := false
  params := ⟨0, 0, 0, 0, 0, 0, 0⟩
  ap_start := false
  new_req_reg := false
  comp_state := .COMPUTE_IDLE
  ctl_cmd_afifo := []
  cl_box := none
  mmult_running := false
  mmult_scalars := ⟨0, 0, 0, 0⟩

/-- One edge of `axis_aclk`. -/
def sched_step (s : Sched) (i : SchedInput) : Sched where
  kernel_state :=
    (kernel_fsm s.kernel_state (cl_box_idle s) (cl_box_done s i) (ap_idle s) (ap_done s i)
      s.ctl_cmd_afifo.isEmpty).1
  cl_box_start :=
    (kernel_fsm s.kernel_state (cl_box_idle s) (cl_box_done s i) (ap_idle s) (ap_done s i)
      s.ctl_cmd_afifo.isEmpty).2
  params :=
    match box_args s i with
    | some args => s.params.load args (ap_vld s i)
    | none => s.params
  ap_start := (comp_fsm s.comp_state (ap_idle s) (cl_box_done s i) (ap_ready s i) (ap_done s i)).2
  new_req_reg := cl_box_done s i
  comp_state := (comp_fsm s.comp_state (ap_idle s) (cl_box_done s i) (ap_ready s i) (ap_done s i)).1
  ctl_cmd_afifo :=
    (if ctl_cmd_fifo_rd_en s i then s.ctl_cmd_afifo.drop 1 else s.ctl_cmd_afifo) ++ i.arrivals
  cl_box :=
    if cl_box_active s && !cl_box_done s i then
      some ⟨words_seen s i, Valids.zip (fun pulsed vld => pulsed || vld) (box_run s).pulsed (ap_vld s i)⟩
    else none
  mmult_running := ap_active s && !ap_done s i
  mmult_scalars := scalars_in_use s

def schedMachine : Machine Sched SchedInput where
  reset := sched_reset
  step := sched_step

end reconic.compute_logic_wrapper
