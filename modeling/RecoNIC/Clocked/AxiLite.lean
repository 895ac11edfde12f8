import Mathlib.Data.List.Chain
import Mathlib.Tactic.Common

namespace clocked.axi_lite

/-- The write channels of an AXI4-Lite interface during one cycle. -/
structure WritePins (Addr Data : Type) where
  awvalid : Bool
  awready : Bool
  awaddr : Addr
  wvalid : Bool
  wready : Bool
  wdata : Data
  bvalid : Bool
  bready : Bool

def WritePins.aw_taken {Addr Data : Type} (p : WritePins Addr Data) : Bool := p.awvalid && p.awready

def WritePins.w_taken {Addr Data : Type} (p : WritePins Addr Data) : Bool := p.wvalid && p.wready

def WritePins.b_taken {Addr Data : Type} (p : WritePins Addr Data) : Bool := p.bvalid && p.bready

/-- The addresses accepted so far, oldest first. -/
def addresses {Addr Data : Type} (h : List (WritePins Addr Data)) : List Addr :=
  h.flatMap fun p => if p.aw_taken then [p.awaddr] else []

/-- The data words accepted so far, oldest first. -/
def words {Addr Data : Type} (h : List (WritePins Addr Data)) : List Data :=
  h.flatMap fun p => if p.w_taken then [p.wdata] else []

/-- How many responses the master has accepted. -/
def responses {Addr Data : Type} (h : List (WritePins Addr Data)) : Nat :=
  h.countP WritePins.b_taken

/-- The writes of which both halves have been accepted. The channels are
ordered, so the halves belong together by position. -/
def completed {Addr Data : Type} (h : List (WritePins Addr Data)) : List (Addr × Data) :=
  (addresses h).zip (words h)

/-- What a master keeps from one cycle to the next: an address or a word that
was offered and not accepted stays on offer. -/
def WritePins.keeps {Addr Data : Type} (p q : WritePins Addr Data) : Prop :=
  (p.awvalid = true → p.awready = false → q.awvalid = true ∧ q.awaddr = p.awaddr) ∧
    (p.wvalid = true → p.wready = false → q.wvalid = true ∧ q.wdata = p.wdata)

instance {Addr Data : Type} [DecidableEq Addr] [DecidableEq Data] (p q : WritePins Addr Data) :
    Decidable (p.keeps q) :=
  inferInstanceAs (Decidable (_ ∧ _))

/-- The master side of the write channels follows the protocol. -/
def WriteMaster {Addr Data : Type} (h : List (WritePins Addr Data)) : Prop :=
  List.IsChain WritePins.keeps h

instance {Addr Data : Type} [DecidableEq Addr] [DecidableEq Data]
    (h : List (WritePins Addr Data)) : Decidable (WriteMaster h) :=
  inferInstanceAs (Decidable (List.IsChain _ h))

/-- The word that was offered in the last cycle and not accepted. -/
def waiting_word {Addr Data : Type} (h : List (WritePins Addr Data)) : Option Data :=
  h.getLast?.bind fun p => if p.wvalid && !p.wready then some p.wdata else none

/-- Which halves of the write in progress have been accepted. A response ends
the write when both were accepted in earlier cycles. -/
@[ext] structure Outstanding where
  aw_done : Bool
  w_done : Bool
  deriving DecidableEq

def Outstanding.none : Outstanding := ⟨false, false⟩

def Outstanding.next {Addr Data : Type} (o : Outstanding) (p : WritePins Addr Data) : Outstanding :=
  if o.aw_done && o.w_done && p.b_taken then .none
  else ⟨o.aw_done || p.aw_taken, o.w_done || p.w_taken⟩

def outstanding {Addr Data : Type} (h : List (WritePins Addr Data)) : Outstanding :=
  h.foldl Outstanding.next .none

/-- The master offers neither half of a write again before the response, and it
is always ready for the response. -/
def Outstanding.permits {Addr Data : Type} (o : Outstanding) (p : WritePins Addr Data) : Prop :=
  (o.aw_done = true → p.awvalid = false) ∧ (o.w_done = true → p.wvalid = false) ∧
    p.bready = true

instance {Addr Data : Type} (o : Outstanding) (p : WritePins Addr Data) : Decidable (o.permits p) :=
  inferInstanceAs (Decidable (_ ∧ _ ∧ _))

def Outstanding.permits_all {Addr Data : Type} : Outstanding → List (WritePins Addr Data) → Prop
  | _, [] => True
  | o, p :: rest => o.permits p ∧ (o.next p).permits_all rest

def Outstanding.decide_permits_all {Addr Data : Type} : (o : Outstanding) →
    (h : List (WritePins Addr Data)) → Decidable (o.permits_all h)
  | _, [] => isTrue trivial
  | o, p :: rest =>
    have := (o.next p).decide_permits_all rest
    inferInstanceAs (Decidable (o.permits p ∧ (o.next p).permits_all rest))

instance {Addr Data : Type} (o : Outstanding) (h : List (WritePins Addr Data)) :
    Decidable (o.permits_all h) :=
  o.decide_permits_all h

/-- A protocol-conforming master with at most one write outstanding that holds
its response channel ready. -/
structure SingleWriteMaster {Addr Data : Type} (h : List (WritePins Addr Data)) : Prop where
  conforming : WriteMaster h
  single : Outstanding.none.permits_all h

@[simp] theorem addresses_nil {Addr Data : Type} :
    addresses ([] : List (WritePins Addr Data)) = [] := rfl

@[simp] theorem words_nil {Addr Data : Type} : words ([] : List (WritePins Addr Data)) = [] := rfl

@[simp] theorem responses_nil {Addr Data : Type} :
    responses ([] : List (WritePins Addr Data)) = 0 := rfl

@[simp] theorem addresses_snoc {Addr Data : Type} (h : List (WritePins Addr Data))
    (p : WritePins Addr Data) :
    addresses (h ++ [p]) = addresses h ++ if p.aw_taken then [p.awaddr] else [] := by
  simp [addresses]

@[simp] theorem words_snoc {Addr Data : Type} (h : List (WritePins Addr Data))
    (p : WritePins Addr Data) :
    words (h ++ [p]) = words h ++ if p.w_taken then [p.wdata] else [] := by
  simp [words]

@[simp] theorem responses_snoc {Addr Data : Type} (h : List (WritePins Addr Data))
    (p : WritePins Addr Data) :
    responses (h ++ [p]) = responses h + p.b_taken.toNat := by
  cases hb : p.b_taken <;> simp [responses, hb]

@[simp] theorem outstanding_snoc {Addr Data : Type} (h : List (WritePins Addr Data))
    (p : WritePins Addr Data) : outstanding (h ++ [p]) = (outstanding h).next p := by
  simp [outstanding]

/-- Until the response what has been taken is outstanding. -/
theorem Outstanding.next_unanswered {Addr Data : Type} {o : Outstanding} {p : WritePins Addr Data}
    (h : p.b_taken = false) : o.next p = ⟨o.aw_done || p.aw_taken, o.w_done || p.w_taken⟩ := by
  simp [Outstanding.next, h]

/-- With the response nothing is outstanding. -/
theorem Outstanding.next_answered {Addr Data : Type} {p : WritePins Addr Data}
    (h : p.b_taken = true) : (⟨true, true⟩ : Outstanding).next p = .none := by
  simp [Outstanding.next, h]

/-- A response while the write is not handed over completely changes nothing. -/
theorem Outstanding.next_unfinished {Addr Data : Type} {o : Outstanding} {p : WritePins Addr Data}
    (h : o.w_done = false) : o.next p = ⟨o.aw_done || p.aw_taken, p.w_taken⟩ := by
  simp [Outstanding.next, h]

@[simp] theorem waiting_word_snoc {Addr Data : Type} (h : List (WritePins Addr Data))
    (p : WritePins Addr Data) :
    waiting_word (h ++ [p]) = if p.wvalid && !p.wready then some p.wdata else none := by
  simp [waiting_word]

/-- As many writes are complete as the shorter channel has seen. -/
theorem completed_length {Addr Data : Type} (h : List (WritePins Addr Data)) :
    (completed h).length = min (addresses h).length (words h).length :=
  List.length_zip

/-- A master keeps the rules from the beginning on. -/
theorem WriteMaster.initial {Addr Data : Type} {h : List (WritePins Addr Data)}
    {p : WritePins Addr Data} (hmaster : WriteMaster (h ++ [p])) : WriteMaster h :=
  hmaster.left_of_append

/-- A conforming master goes on offering a word that waits. -/
theorem WriteMaster.word_held {Addr Data : Type} {h : List (WritePins Addr Data)}
    {p : WritePins Addr Data} (hmaster : WriteMaster (h ++ [p])) {data : Data}
    (hwaiting : waiting_word h = some data) : p.wvalid = true ∧ p.wdata = data := by
  obtain ⟨_, _, hkeeps⟩ := List.isChain_append.mp hmaster
  obtain ⟨last, hlast, hoffer⟩ := Option.bind_eq_some_iff.mp hwaiting
  obtain ⟨_, hword⟩ := hkeeps last (Option.mem_def.mpr hlast) p rfl
  by_cases hwait : last.wvalid && !last.wready
  · rw [if_pos hwait] at hoffer
    cases hoffer
    simp only [Bool.and_eq_true, Bool.not_eq_true'] at hwait
    exact hword hwait.1 hwait.2
  · rw [if_neg hwait] at hoffer
    cases hoffer

/-- What the master may do in a cycle depends on the cycles before it. -/
theorem Outstanding.permits_all_snoc {Addr Data : Type} (o : Outstanding)
    (h : List (WritePins Addr Data)) (p : WritePins Addr Data) :
    o.permits_all (h ++ [p]) ↔ o.permits_all h ∧ (h.foldl Outstanding.next o).permits p := by
  induction h generalizing o with
  | nil => simp [Outstanding.permits_all]
  | cons q rest ih => simp only [List.cons_append, Outstanding.permits_all, ih, List.foldl_cons, and_assoc]

/-- So does one with a single write at a time. -/
theorem SingleWriteMaster.initial {Addr Data : Type} {h : List (WritePins Addr Data)}
    {p : WritePins Addr Data} (hmaster : SingleWriteMaster (h ++ [p])) : SingleWriteMaster h where
  conforming := hmaster.conforming.initial
  single := ((Outstanding.permits_all_snoc _ h p).mp hmaster.single).1

/-- Its last cycle is one that is permitted. -/
theorem SingleWriteMaster.last {Addr Data : Type} {h : List (WritePins Addr Data)}
    {p : WritePins Addr Data} (hmaster : SingleWriteMaster (h ++ [p])) :
    (outstanding h).permits p :=
  ((Outstanding.permits_all_snoc _ h p).mp hmaster.single).2

/-- The read channels of an AXI4-Lite interface during one cycle. -/
structure ReadPins (Addr Data : Type) where
  arvalid : Bool
  arready : Bool
  araddr : Addr
  rvalid : Bool
  rready : Bool
  rdata : Data

def ReadPins.ar_taken {Addr Data : Type} (p : ReadPins Addr Data) : Bool := p.arvalid && p.arready

def ReadPins.r_taken {Addr Data : Type} (p : ReadPins Addr Data) : Bool := p.rvalid && p.rready

/-- The data words the master has received, oldest first. -/
def results {Addr Data : Type} (h : List (ReadPins Addr Data)) : List Data :=
  h.flatMap fun p => if p.r_taken then [p.rdata] else []

@[simp] theorem results_snoc {Addr Data : Type} (h : List (ReadPins Addr Data))
    (p : ReadPins Addr Data) :
    results (h ++ [p]) = results h ++ if p.r_taken then [p.rdata] else [] := by
  simp [results]

end clocked.axi_lite
