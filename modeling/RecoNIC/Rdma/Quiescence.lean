import RecoNIC.Mmio.Course
import RecoNIC.Rdma.Configuration

open mmio

namespace reconic.rdma_api

abbrev Qcsr.of (register : Qcsr) (qpid : BitVec 32) : BitVec 32 :=
  get_rdma_per_q_config_addr register.address qpid

/-- STATQP[10:9], which tell that the send queue and the outstanding queue are empty. -/
def empty_bits (statqp : BitVec 32) : BitVec 32 := (statqp >>> 9) &&& 0x3#32

/-- A write that clears the enable bit QPCONF[0]. -/
def ClearsEnable (qpid : BitVec 32) (access : Access) : Prop :=
  ∃ value, access = .write (Qcsr.QPCONFi.of qpid) value ∧ value.getLsbD 0 = false

/-- A read of STATQP among the accesses has both bits. -/
def SeesEmpty (qpid : BitVec 32) (accesses : List Access) : Prop :=
  ∃ statqp, .read (Qcsr.STATQPi.of qpid) statqp ∈ accesses ∧ empty_bits statqp = 3

/-- A pair of reads among the accesses has CQHEAD equal to SQPI. -/
def SeesDrained (qpid : BitVec 32) (accesses : List Access) : Prop :=
  ∃ value, [.read (Qcsr.CQHEADi.of qpid) value, .read (Qcsr.SQPIi.of qpid) value] <:+: accesses

/-- A read of STATQP has had both bits set, and a pair of reads has had CQHEAD equal to SQPI. -/
structure Quiescent (qpid : BitVec 32) (before : List Access) : Prop where
  empty : SeesEmpty qpid before
  drained : SeesDrained qpid before

/-- The queue pair is disabled only in quiescence. -/
def WaitsForQuiescence (qpid : BitVec 32) (accesses : List Access) : Prop :=
  Guarded (Quiescent qpid) (ClearsEnable qpid) accesses

/-- The first value of STATQP with one of the two bits has both, if there is one within the turns. -/
def EmptyTogether (turns : Nat) (statqp : Nat → BitVec 32) : Prop :=
  ∀ n < turns, (∀ k < n, empty_bits (statqp k) = 0) → empty_bits (statqp n) ≠ 0 →
    empty_bits (statqp n) = 3

/-- CQHEAD and SQPI differ in each of the first pairs of reads. -/
def NeverDrained (turns : Nat) (cq_head sq_pi : Nat → BitVec 32) : Prop :=
  ∀ n < turns, cq_head n ≠ sq_pi n

/-- When a recovery keeps to the rule. -/
def RecoveryWaits (turns : Nat) (qpid : BitVec 32) (supply : Supply) : Prop :=
  EmptyTogether turns (supply (Qcsr.STATQPi.of qpid)) ∨
    NeverDrained 100001 (supply (Qcsr.CQHEADi.of qpid)) (supply (Qcsr.SQPIi.of qpid))

/-- When `destroy_rdma_qp` keeps to the rule: it reads STATQP once before it recovers. -/
def DestroyWaits (turns : Nat) (qpid : BitVec 32) (supply : Supply) : Prop :=
  empty_bits (supply (Qcsr.STATQPi.of qpid) 0) = 3 ∨
    RecoveryWaits turns qpid (supply.drop (Qcsr.STATQPi.of qpid) 1)

/-- Registers of one queue pair at different offsets are different. -/
theorem Qcsr.of_ne (qpid : BitVec 32) (register other : Qcsr)
    (hother : register.address ≠ other.address) : register.of qpid ≠ other.of qpid :=
  fun hsame => hother ((BitVec.add_left_inj _).mp hsame)

/-- A register of a queue pair has the last byte of its offset, whatever the queue pair. -/
theorem Qcsr.of_toNat_mod (register : Qcsr) (qpid : BitVec 32) :
    (register.of qpid).toNat % 256 = register.address.toNat % 256 := by
  have hstride : (0x100#32).toNat = 256 := rfl
  rw [Qcsr.of, get_rdma_per_q_config_addr, BitVec.toNat_add, BitVec.toNat_mul, hstride]
  omega

/-- `XRNICADCONF` is no register of a queue pair. -/
theorem xrnicadconf_ne (qpid : BitVec 32) : Gcsr.XRNICADCONF.address ≠ Qcsr.QPCONFi.of qpid := by
  intro hsame
  have hbyte := Qcsr.of_toNat_mod .QPCONFi qpid
  rw [← hsame] at hbyte
  exact absurd hbyte (by decide)

/-- A read does not clear the enable bit. -/
theorem read_not_clears (qpid offset value : BitVec 32) : ¬ClearsEnable qpid (.read offset value) := by
  rintro ⟨_, hwrite, -⟩
  cases hwrite

/-- Nor does a write to another register. -/
theorem write_not_clears {qpid offset : BitVec 32} (value : BitVec 32)
    (hother : offset ≠ Qcsr.QPCONFi.of qpid) : ¬ClearsEnable qpid (.write offset value) := by
  rintro ⟨_, hwrite, -⟩
  exact hother (Access.write.inj hwrite).1

/-- What comes later does not change what has been waited for. -/
theorem Quiescent.append {qpid : BitVec 32} (before later : List Access)
    (hquiescent : Quiescent qpid before) : Quiescent qpid (before ++ later) := by
  obtain ⟨⟨statqp, hread, hempty⟩, value, hpair⟩ := hquiescent
  exact ⟨⟨statqp, List.mem_append_left _ hread, hempty⟩, value,
    hpair.trans (List.infix_append' [] before later)⟩

/-- One turn of the loop that waits for empty queues. -/
theorem empty_together_succ (turns : Nat) (statqp : Nat → BitVec 32) :
    EmptyTogether (turns + 1) statqp ↔
      if empty_bits (statqp 0) ≠ 0 then empty_bits (statqp 0) = 3
      else EmptyTogether turns fun k => statqp (1 + k) := by
  split
  case isTrue hsome =>
    refine ⟨fun hall => hall 0 (by omega) (by omega) hsome, fun hboth n _ hbefore _ => ?_⟩
    obtain rfl | hlater := Nat.eq_zero_or_pos n
    · exact hboth
    · exact absurd (hbefore 0 hlater) hsome
  case isFalse hnone =>
    rw [not_not] at hnone
    refine ⟨fun hall n hn hbefore => hall (1 + n) (by omega) fun k hk => ?_,
      fun hall n hn hbefore hsome => ?_⟩
    · cases k with
      | zero => exact hnone
      | succ k => exact Nat.add_comm k 1 ▸ hbefore k (by omega)
    · cases n with
      | zero => exact absurd hnone hsome
      | succ n =>
        rw [Nat.add_comm n 1] at hsome ⊢
        exact hall n (by omega) (fun k hk => hbefore (1 + k) (by omega)) hsome

/-- One turn of the loop that waits for completions. -/
theorem never_drained_succ (turns : Nat) (cq_head sq_pi : Nat → BitVec 32) :
    NeverDrained (turns + 1) cq_head sq_pi ↔
      cq_head 0 ≠ sq_pi 0 ∧ NeverDrained turns (fun k => cq_head (1 + k)) fun k => sq_pi (1 + k) := by
  refine ⟨fun hall => ⟨hall 0 (by omega), fun n hn => hall (1 + n) (by omega)⟩, fun hall n hn => ?_⟩
  cases n with
  | zero => exact hall.1
  | succ n => exact Nat.add_comm n 1 ▸ hall.2 n (by omega)

/-- The accesses are reads of certain registers. -/
def OnlyReads (qpid : BitVec 32) (registers : List Qcsr) (accesses : List Access) : Prop :=
  ∀ access ∈ accesses, ∃ register ∈ registers, ∃ value, access = .read (register.of qpid) value

theorem OnlyReads.nil (qpid : BitVec 32) (registers : List Qcsr) : OnlyReads qpid registers [] :=
  List.forall_mem_nil _

/-- Reads do not clear the enable bit. -/
theorem OnlyReads.not_clears {qpid : BitVec 32} {registers : List Qcsr} {accesses : List Access}
    (hreads : OnlyReads qpid registers accesses) : ∀ access ∈ accesses, ¬ClearsEnable qpid access := by
  intro access haccess
  obtain ⟨register, -, value, rfl⟩ := hreads access haccess
  exact read_not_clears qpid _ value

/-- One more read of such a register. -/
theorem OnlyReads.cons {qpid : BitVec 32} {registers : List Qcsr} {accesses : List Access}
    (hreads : OnlyReads qpid registers accesses) {register : Qcsr} (hregister : register ∈ registers)
    (value : BitVec 32) : OnlyReads qpid registers (.read (register.of qpid) value :: accesses) :=
  List.forall_mem_cons.mpr ⟨⟨register, hregister, value, rfl⟩, hreads⟩

/-- What has been seen drained stays so with accesses before it. -/
theorem SeesDrained.after {qpid : BitVec 32} {accesses : List Access}
    (hsees : SeesDrained qpid accesses) (first : List Access) : SeesDrained qpid (first ++ accesses) := by
  obtain ⟨value, hpair⟩ := hsees
  exact ⟨value, hpair.trans (List.suffix_append first accesses).isInfix⟩

/-- What has been seen drained stays so with accesses behind it. -/
theorem SeesDrained.append {qpid : BitVec 32} {accesses : List Access}
    (hsees : SeesDrained qpid accesses) (later : List Access) :
    SeesDrained qpid (accesses ++ later) := by
  obtain ⟨value, hpair⟩ := hsees
  exact ⟨value, hpair.trans (List.prefix_append accesses later).isInfix⟩

/-- Empty queues are seen in the first accesses or in those behind them. -/
theorem sees_empty_append (qpid : BitVec 32) (first second : List Access) :
    SeesEmpty qpid (first ++ second) ↔ SeesEmpty qpid first ∨ SeesEmpty qpid second := by
  simp only [SeesEmpty, List.mem_append, or_and_right, exists_or]

/-- A read of the status sees them empty when both bits are set. -/
theorem sees_empty_read (qpid statqp : BitVec 32) :
    SeesEmpty qpid [.read (Qcsr.STATQPi.of qpid) statqp] ↔ empty_bits statqp = 3 := by
  simp only [SeesEmpty, List.mem_singleton, Access.read.injEq, true_and, exists_eq_left]

/-- Reads of other registers see nothing of it. -/
theorem OnlyReads.not_sees_empty {qpid : BitVec 32} {registers : List Qcsr} {accesses : List Access}
    (hreads : OnlyReads qpid registers accesses)
    (hother : ∀ register ∈ registers, register.address ≠ Qcsr.STATQPi.address) :
    ¬SeesEmpty qpid accesses := by
  rintro ⟨statqp, hread, -⟩
  obtain ⟨register, hregister, value, hsame⟩ := hreads _ hread
  exact Qcsr.of_ne qpid register .STATQPi (hother register hregister) (Access.read.inj hsame).1.symm

/-- The first loop reads STATQP only. Where it leaves, the value with one of the bits is its
last, and those before have none. -/
theorem wait_empty_course (qpid : BitVec 32) (turns : Nat) (supply : Supply) :
    let course := (wait_empty qpid turns).course supply
    OnlyReads qpid [.STATQPi] course.accesses ∧
      ((course.outcome = .error .polling ∧ EmptyTogether turns (supply (Qcsr.STATQPi.of qpid))) ∨
        course.outcome = .ok () ∧
          (∃ n, course.supply = supply.drop (Qcsr.STATQPi.of qpid) n) ∧
          (SeesEmpty qpid course.accesses ↔ EmptyTogether turns (supply (Qcsr.STATQPi.of qpid)))) := by
  induction turns generalizing supply with
  | zero =>
    exact ⟨OnlyReads.nil qpid _, .inl ⟨rfl, fun n hn => absurd hn (Nat.not_lt_zero n)⟩⟩
  | succ turns ih =>
    rw [empty_together_succ, wait_empty, course_read, ← empty_bits]
    by_cases hsome : empty_bits (supply (Qcsr.STATQPi.of qpid) 0) ≠ 0
    · rw [if_pos hsome, if_pos hsome, course_pure]
      refine ⟨?_, .inr ⟨rfl, ⟨1, rfl⟩, sees_empty_read qpid _⟩⟩
      exact (OnlyReads.nil qpid _).cons (by simp) _
    · rw [if_neg hsome, if_neg hsome]
      obtain ⟨hreads, hend⟩ := ih (supply.drop (Qcsr.STATQPi.of qpid) 1)
      rw [Supply.drop_self] at hend
      refine ⟨hreads.cons (by simp) _, hend.imp id fun ⟨hok, ⟨n, hsupply⟩, hsees⟩ => ?_⟩
      have hnow : ¬empty_bits (supply (Qcsr.STATQPi.of qpid) 0) = 3 := by
        intro hboth
        exact hsome (hboth ▸ by decide)
      refine ⟨hok, ⟨1 + n, by rw [Course.after_supply, hsupply, Supply.drop_drop]⟩, ?_⟩
      rw [Course.after_accesses, sees_empty_append, sees_empty_read, ← hsees]
      exact or_iff_right hnow

/-- The second loop reads pairs of CQHEAD and SQPI. Where it leaves, the last pair is equal. -/
theorem wait_drained_course (qpid : BitVec 32) (turns : Nat) (supply : Supply) :
    let course := (wait_drained qpid turns).course supply
    let never := NeverDrained turns (supply (Qcsr.CQHEADi.of qpid)) (supply (Qcsr.SQPIi.of qpid))
    OnlyReads qpid [.CQHEADi, .SQPIi] course.accesses ∧
      ((course.outcome = .error .exit ∧ never) ∨
        course.outcome = .ok () ∧ ¬never ∧ SeesDrained qpid course.accesses) := by
  induction turns generalizing supply with
  | zero =>
    exact ⟨OnlyReads.nil qpid _, .inl ⟨rfl, fun n hn => absurd hn (Nat.not_lt_zero n)⟩⟩
  | succ turns ih =>
    have hother := Qcsr.of_ne qpid .SQPIi .CQHEADi (by decide)
    rw [never_drained_succ, wait_drained, course_read, course_read, Course.after_after,
      Supply.drop_of_ne supply hother]
    by_cases hsame : supply (Qcsr.CQHEADi.of qpid) 0 = supply (Qcsr.SQPIi.of qpid) 0
    · rw [if_pos hsame, course_pure, hsame]
      refine ⟨?_, .inr ⟨rfl, fun hnever => hnever.1 rfl, _, List.infix_refl _⟩⟩
      exact ((OnlyReads.nil qpid _).cons (by simp) _).cons (by simp) _
    · rw [if_neg hsame]
      obtain ⟨hreads, hend⟩ := ih ((supply.drop (Qcsr.CQHEADi.of qpid) 1).drop (Qcsr.SQPIi.of qpid) 1)
      rw [Supply.drop_self, Supply.drop_of_ne _ hother.symm, Supply.drop_self,
        Supply.drop_of_ne supply hother] at hend
      refine ⟨(hreads.cons (by simp) _).cons (by simp) _, ?_⟩
      rw [and_iff_right hsame]
      exact hend.imp id fun ⟨hok, hdiffer, hsees⟩ => ⟨hok, hdiffer, hsees.after _⟩

/-- How a queue pair is disabled. -/
theorem disable_first (qpid value : BitVec 32) {written : BitVec 32}
    (hclears : written.getLsbD 0 = false) (later : List Access) :
    BeforeFirst (ClearsEnable qpid)
      (.read (Qcsr.QPCONFi.of qpid) value :: .write (Qcsr.QPCONFi.of qpid) written :: later)
      [.read (Qcsr.QPCONFi.of qpid) value] := by
  refine ⟨?_, .write (Qcsr.QPCONFi.of qpid) written, later, rfl, written, rfl, hclears⟩
  exact List.forall_mem_singleton.mpr (read_not_clears qpid _ value)

/-- A recovery stops before it has written anything, or it disables the queue pair after a pair
of reads with CQHEAD equal to SQPI. -/
theorem recovery_course (turns : Nat) (qpid : BitVec 32) (supply : Supply) :
    let course := (rdma_qp_fatal_recovery turns qpid).course supply
    ((∃ reason, course.outcome = .error reason) ∧
        (∀ access ∈ course.accesses, ¬ClearsEnable qpid access) ∧ RecoveryWaits turns qpid supply) ∨
      ∃ before, BeforeFirst (ClearsEnable qpid) course.accesses before ∧ SeesDrained qpid before ∧
        (SeesEmpty qpid before ↔ RecoveryWaits turns qpid supply) := by
  have hcq_head := Qcsr.of_ne qpid .CQHEADi .STATQPi (by decide)
  have hsq_pi := Qcsr.of_ne qpid .SQPIi .STATQPi (by decide)
  obtain ⟨hreads, hend⟩ := wait_empty_course qpid turns supply
  rw [rdma_qp_fatal_recovery]
  obtain ⟨hstop, htogether⟩ | ⟨hok, ⟨n, hsupply⟩, hsees⟩ := hend
  · left
    rw [Program.course_bind_error _ hstop]
    exact ⟨⟨_, rfl⟩, hreads.not_clears, .inl htogether⟩
  rw [Program.course_bind_ok _ hok, hsupply]
  obtain ⟨hpairs, hend⟩ := wait_drained_course qpid 100001 (supply.drop (Qcsr.STATQPi.of qpid) n)
  rw [Supply.drop_of_ne _ hcq_head, Supply.drop_of_ne _ hsq_pi] at hend
  obtain ⟨hstop, hnever⟩ | ⟨hok', hdrained, hsees'⟩ := hend
  · left
    rw [Program.course_bind_error _ hstop]
    exact ⟨⟨_, rfl⟩, List.forall_mem_append.mpr ⟨hreads.not_clears, hpairs.not_clears⟩, .inr hnever⟩
  · right
    rw [Program.course_bind_ok _ hok', course_read, course_write]
    generalize hvalue : ((wait_drained qpid 100001).course
      (supply.drop (Qcsr.STATQPi.of qpid) n)).supply (Qcsr.QPCONFi.of qpid) 0 = value
    have hread : OnlyReads qpid [.QPCONFi] [.read (Qcsr.QPCONFi.of qpid) value] :=
      (OnlyReads.nil qpid _).cons (by simp) value
    have hclears : (value &&& ~~~1#32).getLsbD 0 = false := by simp
    refine ⟨_, ((disable_first qpid value hclears _).after hpairs.not_clears).after hreads.not_clears,
      (hsees'.append _).after _, ?_⟩
    have hpairs_other := hpairs.not_sees_empty (by decide)
    have hread_other := hread.not_sees_empty (by decide)
    rw [sees_empty_append, sees_empty_append, or_iff_left hread_other, or_iff_left hpairs_other,
      hsees, RecoveryWaits, or_iff_left hdrained]

/-- What a part of the teardown does: it stops before it disables the queue pair, or disables
it in quiescence just when `Waits` holds. -/
def Decides {α : Type} (qpid : BitVec 32) (course : Course Stop α) (Waits : Prop) : Prop :=
  ((∃ reason, course.outcome = .error reason) ∧
      (∀ access ∈ course.accesses, ¬ClearsEnable qpid access) ∧ Waits) ∨
    ∃ before, BeforeFirst (ClearsEnable qpid) course.accesses before ∧
      (Quiescent qpid before ↔ Waits)

/-- What decides a course decides whether it waits. -/
theorem Decides.waits_iff {α : Type} {qpid : BitVec 32} {course : Course Stop α} {Waits : Prop}
    (hdecides : Decides qpid course Waits) : WaitsForQuiescence qpid course.accesses ↔ Waits := by
  obtain ⟨-, hnone, hwaits⟩ | ⟨before, hbefore, hwaits⟩ := hdecides
  · exact iff_of_true (guarded_of_none hnone) hwaits
  · rw [WaitsForQuiescence, guarded_iff_first Quiescent.append hbefore, hwaits]

/-- An equivalent condition decides as well. -/
theorem Decides.congr {α : Type} {qpid : BitVec 32} {course : Course Stop α} {Waits Waits' : Prop}
    (hdecides : Decides qpid course Waits) (hiff : Waits ↔ Waits') : Decides qpid course Waits' :=
  propext hiff ▸ hdecides

/-- What follows does not change the decision. -/
theorem Decides.bind {α β : Type} {qpid : BitVec 32} {program : Program Stop α} {supply : Supply}
    {first : List Access} {Waits : Prop}
    (hdecides : Decides qpid ((program.course supply).after first) Waits)
    (f : α → Program Stop β) : Decides qpid (((program >>= f).course supply).after first) Waits := by
  obtain ⟨⟨reason, hstop⟩, hnone, hwaits⟩ | ⟨before, hbefore, hwaits⟩ := hdecides
  · rw [program.course_bind_error f hstop]
    exact .inl ⟨⟨reason, rfl⟩, hnone, hwaits⟩
  · obtain ⟨later, hlater⟩ := program.course_bind_accesses f supply
    refine .inr ⟨before, ?_, hwaits⟩
    rw [Course.after_accesses, hlater, ← List.append_assoc]
    exact hbefore.append later

/-- Whether `rdma_qp_fatal_recovery` waits is decided by what its loops read. -/
theorem recovery_decides (turns : Nat) (qpid : BitVec 32) (supply : Supply) :
    Decides qpid ((rdma_qp_fatal_recovery turns qpid).course supply)
      (RecoveryWaits turns qpid supply) := by
  refine (recovery_course turns qpid supply).imp id ?_
  rintro ⟨before, hbefore, hdrained, hempty⟩
  exact ⟨before, hbefore, fun hquiescent => hempty.mp hquiescent.empty,
    fun hwaits => ⟨hempty.mpr hwaits, hdrained⟩⟩

/-- A recovery after reads, which may have seen the queues empty. -/
theorem recovery_decides_after (turns : Nat) (qpid : BitVec 32) (supply : Supply)
    {registers : List Qcsr} {first : List Access} (hreads : OnlyReads qpid registers first) :
    Decides qpid (((rdma_qp_fatal_recovery turns qpid).course supply).after first)
      (SeesEmpty qpid first ∨ RecoveryWaits turns qpid supply) := by
  obtain ⟨hstop, hnone, hwaits⟩ | ⟨before, hbefore, hdrained, hempty⟩ :=
    recovery_course turns qpid supply
  · exact .inl ⟨hstop, List.forall_mem_append.mpr ⟨hreads.not_clears, hnone⟩, .inr hwaits⟩
  · refine .inr ⟨first ++ before, hbefore.after hreads.not_clears, ?_⟩
    rw [← hempty, ← sees_empty_append]
    exact ⟨fun hquiescent => hquiescent.empty, fun hsees => ⟨hsees, hdrained.after first⟩⟩

/-- The checks disable the queue pair in a recovery, or they have seen it in quiescence. -/
theorem check_status_course (turns : Nat) (qp : QueuePair) (supply : Supply) :
    let course := (qp.check_status turns).course supply
    Decides qp.qpid course (DestroyWaits turns qp.qpid supply) ∨
      course.outcome = .ok () ∧ OnlyReads qp.qpid [.STATQPi, .CQHEADi, .SQPIi] course.accesses ∧
        Quiescent qp.qpid course.accesses ∧ DestroyWaits turns qp.qpid supply := by
  have hstatus (statqp : BitVec 32) :
      OnlyReads qp.qpid [.STATQPi, .CQHEADi, .SQPIi] [.read (Qcsr.STATQPi.of qp.qpid) statqp] :=
    (OnlyReads.nil _ _).cons (by simp) statqp
  rw [QueuePair.check_status, course_read]
  by_cases hcheck : ¬(supply (Qcsr.STATQPi.of qp.qpid) 0 &&& 0x000000ff#32 = 0 ∧
      (supply (Qcsr.STATQPi.of qp.qpid) 0 >>> 9) &&& 0x00000003#32 = 0x3#32)
  · left
    rw [if_pos hcheck, DestroyWaits, ← sees_empty_read]
    exact (recovery_decides_after turns qp.qpid _ (hstatus _)).bind _
  · have hempty : SeesEmpty qp.qpid
        [.read (Qcsr.STATQPi.of qp.qpid) (supply (Qcsr.STATQPi.of qp.qpid) 0)] :=
      (sees_empty_read ..).mpr (not_not.mp hcheck).2
    have hwaits : DestroyWaits turns qp.qpid supply := .inl ((sees_empty_read ..).mp hempty)
    rw [if_neg hcheck]
    have hother := Qcsr.of_ne qp.qpid .SQPIi .CQHEADi (by decide)
    rw [course_pure_bind, course_read, course_read, Course.after_after, Course.after_after,
      List.append_assoc, Supply.drop_of_ne _ hother]
    have hreads (cq_head sq_pi : BitVec 32) : OnlyReads qp.qpid [.STATQPi, .CQHEADi, .SQPIi]
        ([.read (Qcsr.STATQPi.of qp.qpid) (supply (Qcsr.STATQPi.of qp.qpid) 0)] ++
          ([.read (Qcsr.CQHEADi.of qp.qpid) cq_head] ++ [.read (Qcsr.SQPIi.of qp.qpid) sq_pi])) :=
      (((OnlyReads.nil _ _).cons (by simp) sq_pi).cons (by simp) cq_head).cons (by simp) _
    have hsees (later : List Access) : SeesEmpty qp.qpid
        ([.read (Qcsr.STATQPi.of qp.qpid) (supply (Qcsr.STATQPi.of qp.qpid) 0)] ++ later) :=
      (sees_empty_append ..).mpr (.inl hempty)
    split
    case isTrue hdiffer =>
      left
      exact (recovery_decides_after turns qp.qpid _ (hreads _ _)).congr
        (iff_of_true (.inl (hsees _)) hwaits)
    case isFalse hsame =>
      right
      have hpair (value : BitVec 32) : SeesDrained qp.qpid
          ([.read (Qcsr.CQHEADi.of qp.qpid) value] ++ [.read (Qcsr.SQPIi.of qp.qpid) value]) :=
        ⟨value, List.infix_refl _⟩
      rw [not_not.mp hsame, course_pure]
      simp only [Course.after_accesses, List.append_nil]
      exact ⟨rfl, hreads _ _, ⟨hsees _, (hpair _).after _⟩, hwaits⟩

/-- So it is for `destroy_rdma_qp`. -/
theorem destroy_decides (turns : Nat) (freed : List (BitVec 64)) (qp : QueuePair) (supply : Supply) :
    Decides qp.qpid ((qp.destroy_rdma_qp turns freed).course supply)
      (DestroyWaits turns qp.qpid supply) := by
  obtain hdecides | ⟨hok, hreads, hquiescent, hwaits⟩ := check_status_course turns qp supply
  · have hbefore : Decides qp.qpid (((qp.check_status turns).course supply).after []) _ := hdecides
    exact hbefore.bind _
  · right
    have hoverride (value value' : BitVec 32) :
        ∀ access ∈ ([.read Gcsr.XRNICADCONF.address value, .write Gcsr.XRNICADCONF.address value'] :
          List Access), ¬ClearsEnable qp.qpid access := by
      simp only [List.forall_mem_cons]
      exact ⟨read_not_clears qp.qpid _ value, write_not_clears value' (xrnicadconf_ne qp.qpid),
        List.forall_mem_nil _⟩
    have hreset (supply : Supply) : ∃ before,
        BeforeFirst (ClearsEnable qp.qpid) (qp.reset_registers.course supply).accesses before := by
      rw [QueuePair.reset_registers, course_read, course_write, course_read, course_write]
      refine ⟨_, (disable_first qp.qpid _ ?_ _).after (hoverride _ _)⟩
      simp
    rw [QueuePair.destroy_rdma_qp, Program.course_bind_ok _ hok]
    generalize ((qp.check_status turns).course supply).supply = rest
    obtain ⟨before, hbefore⟩ := hreset rest
    obtain ⟨later, hlater⟩ := qp.reset_registers.course_bind_accesses
      (fun _ => Program.of (destroy_rdma_pd_entry freed qp.pd_entry)) rest
    rw [Course.after_accesses, hlater]
    exact ⟨_, (hbefore.append later).after hreads.not_clears,
      iff_of_true (Quiescent.append _ _ hquiescent) hwaits⟩

/-- The teardown waits for quiescence exactly when the two bits of STATQP come together, as far
as a recovery looks at them, or the recovery never ends. -/
theorem teardown_waits_iff (turns : Nat) (freed : List (BitVec 64)) (qp : QueuePair)
    (supply : Supply) :
    (WaitsForQuiescence qp.qpid ((rdma_qp_fatal_recovery turns qp.qpid).course supply).accesses ↔
      RecoveryWaits turns qp.qpid supply) ∧
    (WaitsForQuiescence qp.qpid ((qp.destroy_rdma_qp turns freed).course supply).accesses ↔
      DestroyWaits turns qp.qpid supply) :=
  ⟨(recovery_decides turns qp.qpid supply).waits_iff, (destroy_decides turns freed qp supply).waits_iff⟩

/-- A queue pair whose send queue is empty, and whose outstanding queue is not, is disabled. -/
theorem one_bit_disables :
    let qp : QueuePair := ⟨2, 0, ⟨0, 0, 0⟩, ⟨0, 0, 0⟩, ⟨0, 0, 0⟩, none, none, ⟨16, 0, 0, 0⟩, ⟨0, 16, 0, 0⟩⟩
    let supply : Supply := fun offset _ => if offset = Qcsr.STATQPi.of 2 then 0x200 else 0
    ¬WaitsForQuiescence 2 ((rdma_qp_fatal_recovery 1 2).course supply).accesses ∧
      ¬WaitsForQuiescence 2 ((qp.destroy_rdma_qp 1 []).course supply).accesses := by
  intro qp supply
  have hrecovery (supply : Supply) (hsupply : ∀ offset n, supply offset n =
      if offset = Qcsr.STATQPi.of 2 then 0x200 else 0) : ¬RecoveryWaits 1 2 supply := by
    rintro (htogether | hnever)
    · have hfirst := htogether 0 (by decide) (by simp)
      rw [hsupply, if_pos rfl] at hfirst
      exact absurd (hfirst (by decide)) (by decide)
    · refine hnever 0 (by decide) ?_
      rw [hsupply, hsupply, if_neg (by decide), if_neg (by decide)]
  rw [(recovery_decides 1 2 supply).waits_iff, (destroy_decides 1 [] qp supply).waits_iff]
  refine ⟨hrecovery supply fun _ _ => rfl, ?_⟩
  rintro (hboth | hwaits)
  · exact absurd hboth (by decide)
  · refine hrecovery _ (fun offset n => ?_) hwaits
    by_cases hsame : offset = Qcsr.STATQPi.of 2
    · subst hsame
      rw [Supply.drop_self]
    · rw [Supply.drop_of_ne _ hsame]

end reconic.rdma_api
