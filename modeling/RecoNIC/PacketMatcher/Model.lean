import RecoNIC.Clocked.Fifo
import RecoNIC.Tables.Keyed

open clocked tables

namespace reconic.packet_matcher

def FIFO_WRITE_DEPTH : Nat := 64

abbrev NUM_TABLE_ENTRY : Nat := 32

def TABLE_OP_WRITE : BitVec 8 := 2

def TABLE_OP_DELETE : BitVec 8 := 3

/-- The key of a table entry. -/
structure Key where
  sfa : BitVec 32
  pktid_ext : BitVec 2
  idx_ext : BitVec 5
  deriving DecidableEq

/-- An entry that is empty, after reset or a deletion. Its key is reserved. -/
def reset_entry : Slot Key (BitVec 32) := ⟨⟨0xffffffff, 0b11, 0b11111⟩, 0xffffffff⟩

abbrev MatchTable := Table NUM_TABLE_ENTRY Key (BitVec 32)

/-- A table configuration request. -/
structure Request where
  key : Key
  start_addr : BitVec 32
  config_op : BitVec 8
  deriving DecidableEq

/-- What the entry of a request is to be. -/
def Request.entry (request : Request) : Slot Key (BitVec 32) := ⟨request.key, request.start_addr⟩

/-- The fields of `metadata_in`. -/
structure MetaIn where
  index : BitVec 32
  sfa : BitVec 32
  dfa : BitVec 32
  pktid_ext : BitVec 2
  idx_ext : BitVec 5
  pkt_type : BitVec 8
  pktlen : BitVec 16
  remote_offs : BitVec 56
  return_code : BitVec 6
  ptl_list : BitVec 2
  response_len : BitVec 12
  deriving DecidableEq

def MetaIn.key (metadata : MetaIn) : Key := ⟨metadata.sfa, metadata.pktid_ext, metadata.idx_ext⟩

def MetaIn.zero : MetaIn := ⟨0, 0, 0, 0, 0, 0, 0, 0, 0, 0, 0⟩

/-- The registers of `metadata_out`, which has the start address besides. -/
structure MetaOut where
  metadata : MetaIn
  start_addr : BitVec 32
  deriving DecidableEq

def MetaOut.zero : MetaOut := ⟨MetaIn.zero, 0⟩

inductive LookupState where
  | TABLE_LOOKUP
  | WAIT_TLAST
  deriving DecidableEq

inductive RdConfigState where
  | RD_CONFIG_IDLE
  | RD_CONFIG_READ
  deriving DecidableEq

/-- The input pins. Whether a beat is taken is up to `axis_packet_reg_buffer`, so that
`s_axis_tready` is one of them. -/
structure Input where
  config_in : Request
  config_in_vld : Bool
  metadata_in : MetaIn
  metadata_in_valid : Bool
  s_axis_tvalid : Bool
  s_axis_tlast : Bool
  s_axis_tready : Bool

/-- The two stages that take a request into the clock domain of the packets. -/
structure Cdc where
  request_0 : Request
  request_1 : Request
  config_vld_0 : Bool
  config_vld_1 : Bool
  single_cycle : Bool

structure Regs where
  table : MatchTable
  table_idx : Fin NUM_TABLE_ENTRY
  table_ptr : Fin NUM_TABLE_ENTRY
  meta_out : MetaOut
  lookup_state : LookupState
  rd_config_state : RdConfigState
  table_config_req_fifo : Fifo Request FIFO_WRITE_DEPTH
  cdc : Cdc

def req_empty (s : Regs) : Bool := s.table_config_req_fifo.empty

/-- What the combinational block of the read FSM drives: `req_rd_en` and the next state. -/
def rdConfigControl (s : Regs) : Bool × RdConfigState :=
  match s.rd_config_state with
  | .RD_CONFIG_IDLE => if !req_empty s then (true, .RD_CONFIG_READ) else (false, .RD_CONFIG_IDLE)
  | .RD_CONFIG_READ => if !req_empty s then (true, .RD_CONFIG_IDLE) else (false, .RD_CONFIG_READ)

def req_rd_en (s : Regs) : Bool := (rdConfigControl s).1

def config_vld_200mhz (s : Regs) : Bool := s.cdc.config_vld_1 && s.cdc.single_cycle

/-- The word on the write port of the FIFO. -/
def requestWrite (s : Regs) : List Request :=
  if config_vld_200mhz s then [s.cdc.request_1] else []

/-- The bits of `table_lookup_from_pkt` that are set. -/
def table_lookup_from_pkt (s : Regs) (i : Input) : List (Fin NUM_TABLE_ENTRY) :=
  if i.metadata_in_valid then s.table.hits i.metadata_in.key else []

/-- The bits of `table_lookup_from_config` that are set. -/
def table_lookup_from_config (s : Regs) : List (Fin NUM_TABLE_ENTRY) :=
  match s.table_config_req_fifo.dout with
  | none => []
  | some request => s.table.hits request.key

/-- A beat is taken. -/
def beat (i : Input) : Bool := i.s_axis_tready && i.s_axis_tvalid

/-- What a cycle does to the table, to `table_idx`, `table_ptr` and `meta_out`. -/
structure Update where
  op : Op NUM_TABLE_ENTRY Key (BitVec 32)
  table_idx : Fin NUM_TABLE_ENTRY
  table_ptr : Fin NUM_TABLE_ENTRY
  meta_out : MetaOut

/-- The new entry for a request, at `table_ptr`. -/
def insertRequest (s : Regs) (request : Request) (meta_out : MetaOut) : Update :=
  ⟨.insert s.table_ptr request.entry, s.table_ptr, s.table_ptr + 1, meta_out⟩

/-- The case statement on `table_lookup_from_pkt`. Its 32 arms for a hit do the same, each for
its entry, and a value with more than one bit takes the default arm. -/
def lookupPacket (s : Regs) (i : Input) : Update :=
  let meta_out : MetaOut := ⟨i.metadata_in, 0⟩
  match table_lookup_from_pkt s i with
  | [] =>
    match s.table_config_req_fifo.dout with
    | none => ⟨.keep, s.table_idx, s.table_ptr, MetaOut.zero⟩
    | some request =>
      if !(i.metadata_in_valid && i.metadata_in.key = request.key) then
        ⟨.keep, s.table_idx, s.table_ptr, MetaOut.zero⟩
      else if request.config_op = TABLE_OP_WRITE then
        insertRequest s request { meta_out with start_addr := request.start_addr }
      else ⟨.keep, s.table_idx, s.table_ptr, meta_out⟩
  | [k] => ⟨.keep, k, s.table_ptr, { meta_out with start_addr := (s.table k).value }⟩
  | _ => ⟨.keep, 0, s.table_ptr, meta_out⟩

/-- A cycle with a beat. -/
def packetBeat (s : Regs) (i : Input) : Update :=
  match s.lookup_state with
  | .TABLE_LOOKUP => lookupPacket s i
  | .WAIT_TLAST => ⟨.keep, s.table_idx, s.table_ptr, ⟨i.metadata_in, 0⟩⟩

/-- A cycle without a beat, with the case statement on `table_lookup_from_config`. -/
def configRequest (s : Regs) : Update :=
  match s.table_config_req_fifo.dout with
  | none => ⟨.keep, s.table_idx, s.table_ptr, s.meta_out⟩
  | some request =>
    match table_lookup_from_config s with
    | [] =>
      if request.config_op = TABLE_OP_WRITE then insertRequest s request s.meta_out
      else ⟨.keep, s.table_idx, s.table_ptr, s.meta_out⟩
    | [k] =>
      let op : Op NUM_TABLE_ENTRY Key (BitVec 32) :=
        if request.config_op = TABLE_OP_WRITE then .update k request.start_addr
        else if request.config_op = TABLE_OP_DELETE then .clear k
        else .keep
      ⟨op, k, s.table_ptr, s.meta_out⟩
    | _ => ⟨.keep, 0, s.table_ptr, s.meta_out⟩

def update (s : Regs) (i : Input) : Update :=
  if beat i then packetBeat s i else configRequest s

def lookup_nextstate (s : Regs) (i : Input) : LookupState :=
  if beat i then (if i.s_axis_tlast then .TABLE_LOOKUP else .WAIT_TLAST) else s.lookup_state

def cdc_next (s : Regs) (i : Input) : Cdc :=
  { request_0 := i.config_in
    request_1 := s.cdc.request_0
    config_vld_0 := i.config_in_vld
    config_vld_1 := s.cdc.config_vld_0
    single_cycle := !s.cdc.config_vld_1 }

/-- `packet_matcher` out of reset. -/
def machine : Machine Regs Input where
  reset :=
    { table := fun _ => reset_entry
      table_idx := 0
      table_ptr := 0
      meta_out := MetaOut.zero
      lookup_state := .TABLE_LOOKUP
      rd_config_state := .RD_CONFIG_IDLE
      table_config_req_fifo := Fifo.clear Request FIFO_WRITE_DEPTH
      cdc := ⟨⟨⟨0, 0, 0⟩, 0, 0⟩, ⟨⟨0, 0, 0⟩, 0, 0⟩, false, false, true⟩ }
  step s i :=
    { table := (update s i).op.apply reset_entry s.table
      table_idx := (update s i).table_idx
      table_ptr := (update s i).table_ptr
      meta_out := (update s i).meta_out
      lookup_state := lookup_nextstate s i
      rd_config_state := (rdConfigControl s).2
      table_config_req_fifo := s.table_config_req_fifo.clock (requestWrite s) (req_rd_en s)
      cdc := cdc_next s i }

end reconic.packet_matcher
