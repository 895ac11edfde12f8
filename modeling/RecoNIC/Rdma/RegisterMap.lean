import Mathlib.Logic.Basic
import Mathlib.Tactic.Common

namespace reconic.rdma_api

def RN_RDMA_BASE_ADDRESS : BitVec 32 := 0x00040000#32

/-- The global control status registers, `RN_RDMA_GCSR_*`. -/
inductive Gcsr where
  | XRNICCONF | XRNICADCONF | MACXADDLSB | MACXADDMSB | IPV6XADD1 | IPV6XADD2 | IPV6XADD3
  | IPV6XADD4 | IPV4XADD | ERRBUFBA | ERRBUFBAMSB | ERRBUFSZ | ERRBUFWPTR | IPKTERRQBA
  | IPKTERRQBAMSB | IPKTERRQSZ | IPKTERRQWPTR | DATBUFBA | DATBUFBAMSB | DATBUFSZ | INSRRPKTCNT
  | INAMPKTCNT | OUTIOPKTCNT | LSTINPKT | LSTOUTPKT | ININVDUPCNT | INNCKPKTSTS | OUTRNRPKTSTS
  | WQEPROCSTS | QPMSTS | INTEN | OUTAMPKTCNT | INALLDRPPKTCNT | INNAKPKTCNT | OUTNAKPKTCNT
  | RESPHNDSTS | RETRYCNTSTS | INCNPPKTCNT | OUTCNPPKTCNT | OUTRDRSPPKTCNT | INTSTS | RQINTSTS1
  | RQINTSTS2 | RQINTSTS3 | RQINTSTS4 | RQINTSTS5 | RQINTSTS6 | RQINTSTS7 | RQINTSTS8
  | CQINTSTS1 | CQINTSTS2 | CQINTSTS3 | CQINTSTS4 | CQINTSTS5 | CQINTSTS6 | CQINTSTS7
  | CQINTSTS8 | RESPERRPKTBA | RESPERRPKTBAMSB | RESPERRSZ | RESPERRSZMSB | STATCURSQPTRi
  | STATMSN
  deriving DecidableEq

def Gcsr.offset : Gcsr → BitVec 32
  | .XRNICCONF => 0x00020000#32
  | .XRNICADCONF => 0x00020004#32
  | .MACXADDLSB => 0x00020010#32
  | .MACXADDMSB => 0x00020014#32
  | .IPV6XADD1 => 0x00020020#32
  | .IPV6XADD2 => 0x00020024#32
  | .IPV6XADD3 => 0x00020028#32
  | .IPV6XADD4 => 0x0002002C#32
  | .IPV4XADD => 0x00020070#32
  | .ERRBUFBA => 0x00020060#32
  | .ERRBUFBAMSB => 0x00020064#32
  | .ERRBUFSZ => 0x00020068#32
  | .ERRBUFWPTR => 0x0002006C#32
  | .IPKTERRQBA => 0x00020088#32
  | .IPKTERRQBAMSB => 0x0002008C#32
  | .IPKTERRQSZ => 0x00020090#32
  | .IPKTERRQWPTR => 0x00020094#32
  | .DATBUFBA => 0x000200A0#32
  | .DATBUFBAMSB => 0x000200A4#32
  | .DATBUFSZ => 0x000200A8#32
  | .INSRRPKTCNT => 0x00020100#32
  | .INAMPKTCNT => 0x00020104#32
  | .OUTIOPKTCNT => 0x00020108#32
  | .LSTINPKT => 0x00020110#32
  | .LSTOUTPKT => 0x00020114#32
  | .ININVDUPCNT => 0x00020118#32
  | .INNCKPKTSTS => 0x0002011C#32
  | .OUTRNRPKTSTS => 0x00020120#32
  | .WQEPROCSTS => 0x00020124#32
  | .QPMSTS => 0x0002012C#32
  | .INTEN => 0x00020180#32
  | .OUTAMPKTCNT => 0x0002010C#32
  | .INALLDRPPKTCNT => 0x00020130#32
  | .INNAKPKTCNT => 0x00020134#32
  | .OUTNAKPKTCNT => 0x00020138#32
  | .RESPHNDSTS => 0x0002013C#32
  | .RETRYCNTSTS => 0x00020140#32
  | .INCNPPKTCNT => 0x00020174#32
  | .OUTCNPPKTCNT => 0x00020178#32
  | .OUTRDRSPPKTCNT => 0x0002017C#32
  | .INTSTS => 0x00020184#32
  | .RQINTSTS1 => 0x00020190#32
  | .RQINTSTS2 => 0x00020194#32
  | .RQINTSTS3 => 0x00020198#32
  | .RQINTSTS4 => 0x0002019c#32
  | .RQINTSTS5 => 0x000201a0#32
  | .RQINTSTS6 => 0x000201a4#32
  | .RQINTSTS7 => 0x000201a8#32
  | .RQINTSTS8 => 0x000201ac#32
  | .CQINTSTS1 => 0x000201b0#32
  | .CQINTSTS2 => 0x000201b4#32
  | .CQINTSTS3 => 0x000201b8#32
  | .CQINTSTS4 => 0x000201bc#32
  | .CQINTSTS5 => 0x000201c0#32
  | .CQINTSTS6 => 0x000201c4#32
  | .CQINTSTS7 => 0x000201c8#32
  | .CQINTSTS8 => 0x000201cc#32
  | .RESPERRPKTBA => 0x000200B0#32
  | .RESPERRPKTBAMSB => 0x000200B4#32
  | .RESPERRSZ => 0x000200B8#32
  | .RESPERRSZMSB => 0x000200BC#32
  | .STATCURSQPTRi => 0x0002028C#32
  | .STATMSN => 0x00020284#32

def Gcsr.address (register : Gcsr) : BitVec 32 := RN_RDMA_BASE_ADDRESS + register.offset

/-- The registers of a protection domain, `RN_RDMA_PDT_*`. -/
inductive Pdt where
  | PDPDNUM | VIRTADDRLSB | VIRTADDRMSB | BUFBASEADDRLSB | BUFBASEADDRMSB | BUFRKEY | WRRDBUFLEN
  | ACCESSDESC
  deriving DecidableEq

def Pdt.offset : Pdt → BitVec 32
  | .PDPDNUM => 0x00000000#32
  | .VIRTADDRLSB => 0x00000004#32
  | .VIRTADDRMSB => 0x00000008#32
  | .BUFBASEADDRLSB => 0x0000000C#32
  | .BUFBASEADDRMSB => 0x00000010#32
  | .BUFRKEY => 0x00000014#32
  | .WRRDBUFLEN => 0x00000018#32
  | .ACCESSDESC => 0x0000001C#32

def Pdt.address (register : Pdt) : BitVec 32 := RN_RDMA_BASE_ADDRESS + register.offset

/-- The control status registers of a queue pair, `RN_RDMA_QCSR_*`. -/
inductive Qcsr where
  | QPCONFi | QPADVCONFi | RQBAi | RQBAMSBi | SQBAi | SQBAMSBi | CQBAi | CQBAMSBi | RQWPTRDBADDi
  | RQWPTRDBADDMSBi | CQDBADDi | CQDBADDMSBi | CQHEADi | RQCIi | SQPIi | QDEPTHi | SQPSNi
  | LSTRQREQi | DESTQPCONFi | MACDESADDLSBi | MACDESADDMSBi | IPDESADDR1i | IPDESADDR2i
  | IPDESADDR3i | IPDESADDR4i | STATSSNi | STATMSNi | STATQPi | STATCURSQPTRi | STATRESPSNi
  | STATRQBUFCAi | STATWQEi | STATRQPIDBi | PDi | STATRQBUFCAMSBi
  deriving DecidableEq

def Qcsr.offset : Qcsr → BitVec 32
  | .QPCONFi => 0x00020200#32
  | .QPADVCONFi => 0x00020204#32
  | .RQBAi => 0x00020208#32
  | .RQBAMSBi => 0x000202C0#32
  | .SQBAi => 0x00020210#32
  | .SQBAMSBi => 0x000202C8#32
  | .CQBAi => 0x00020218#32
  | .CQBAMSBi => 0x000202D0#32
  | .RQWPTRDBADDi => 0x00020220#32
  | .RQWPTRDBADDMSBi => 0x00020224#32
  | .CQDBADDi => 0x00020228#32
  | .CQDBADDMSBi => 0x0002022C#32
  | .CQHEADi => 0x00020230#32
  | .RQCIi => 0x00020234#32
  | .SQPIi => 0x00020238#32
  | .QDEPTHi => 0x0002023C#32
  | .SQPSNi => 0x00020240#32
  | .LSTRQREQi => 0x00020244#32
  | .DESTQPCONFi => 0x00020248#32
  | .MACDESADDLSBi => 0x00020250#32
  | .MACDESADDMSBi => 0x00020254#32
  | .IPDESADDR1i => 0x00020260#32
  | .IPDESADDR2i => 0x00020264#32
  | .IPDESADDR3i => 0x00020268#32
  | .IPDESADDR4i => 0x0002026C#32
  | .STATSSNi => 0x00020280#32
  | .STATMSNi => 0x00020284#32
  | .STATQPi => 0x00020288#32
  | .STATCURSQPTRi => 0x0002028C#32
  | .STATRESPSNi => 0x00020290#32
  | .STATRQBUFCAi => 0x00020294#32
  | .STATWQEi => 0x00020298#32
  | .STATRQPIDBi => 0x0002029C#32
  | .PDi => 0x000202B0#32
  | .STATRQBUFCAMSBi => 0x000202D8#32

def Qcsr.address (register : Qcsr) : BitVec 32 := RN_RDMA_BASE_ADDRESS + register.offset

def get_rdma_per_q_config_addr (offset qpid : BitVec 32) : BitVec 32 := offset + 0x100#32 * (qpid - 1#32)

def get_rdma_pd_config_addr (offset pd_num : BitVec 32) : BitVec 32 := offset + 0x100#32 * pd_num

end reconic.rdma_api
