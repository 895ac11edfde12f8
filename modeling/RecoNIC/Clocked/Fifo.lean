import RecoNIC.Clocked.Machine

namespace clocked

/-- An ideal first-word-fall-through FIFO. It never holds more than `depth`
words, so a full FIFO has no other way out than discarding a write. -/
structure Fifo (α : Type) (depth : Nat) where
  contents : List α
  bounded : contents.length ≤ depth

@[ext] theorem Fifo.ext {α : Type} {depth : Nat} {q r : Fifo α depth}
    (h : q.contents = r.contents) : q = r := by
  cases q
  cases r
  cases h
  rfl

/-- The FIFO after its reset. -/
def Fifo.clear (α : Type) (depth : Nat) : Fifo α depth where
  contents := []
  bounded := Nat.zero_le depth

def Fifo.empty {α : Type} {depth : Nat} (q : Fifo α depth) : Bool := q.contents.isEmpty

def Fifo.full {α : Type} {depth : Nat} (q : Fifo α depth) : Bool :=
  decide (depth ≤ q.contents.length)

/-- The programmable full flag for a threshold. -/
def Fifo.prog_full {α : Type} {depth : Nat} (q : Fifo α depth) (thresh : Nat) : Bool :=
  decide (thresh ≤ q.contents.length)

/-- The word on the output pins. There is one exactly when the FIFO is not empty. -/
def Fifo.dout {α : Type} {depth : Nat} (q : Fifo α depth) : Option α := q.contents.head?

/-- Of the words presented for writing during a cycle, those there is room
for. A synchronous FIFO is presented at most one word a cycle; on the other side
of a clock crossing several may arrive between two edges of the reader. -/
def Fifo.accepted {α : Type} {depth : Nat} (q : Fifo α depth) (wr : List α) : List α :=
  wr.take (depth - q.contents.length)

/-- The word a read request removes. A request to an empty FIFO removes nothing. -/
def Fifo.popped {α : Type} {depth : Nat} (q : Fifo α depth) (rd : Bool) : List α :=
  if rd then q.contents.take 1 else []

/-- What a read request leaves in the FIFO. -/
def Fifo.kept {α : Type} {depth : Nat} (q : Fifo α depth) (rd : Bool) : List α :=
  if rd then q.contents.drop 1 else q.contents

/-- One clock edge. The flags are those of the cycle before the edge: a read
makes no room for a write of the same cycle. -/
def Fifo.clock {α : Type} {depth : Nat} (q : Fifo α depth) (wr : List α) (rd : Bool) :
    Fifo α depth where
  contents := q.kept rd ++ q.accepted wr
  bounded := by
    have hbound := q.bounded
    have hkept : (q.kept rd).length ≤ q.contents.length := by
      cases rd <;> simp [Fifo.kept]
    simp only [Fifo.accepted, List.length_append, List.length_take]
    omega

@[simp] theorem Fifo.clear_contents (α : Type) (depth : Nat) :
    (Fifo.clear α depth).contents = [] := rfl

@[simp] theorem Fifo.empty_eq_true {α : Type} {depth : Nat} (q : Fifo α depth) :
    q.empty = true ↔ q.contents = [] := by
  simp [Fifo.empty]

@[simp] theorem Fifo.empty_eq_false {α : Type} {depth : Nat} (q : Fifo α depth) :
    q.empty = false ↔ q.contents ≠ [] := by
  simp [Fifo.empty]

@[simp] theorem Fifo.full_eq_true {α : Type} {depth : Nat} (q : Fifo α depth) :
    q.full = true ↔ depth ≤ q.contents.length := by
  simp [Fifo.full]

@[simp] theorem Fifo.full_eq_false {α : Type} {depth : Nat} (q : Fifo α depth) :
    q.full = false ↔ q.contents.length < depth := by
  simp [Fifo.full]

@[simp] theorem Fifo.accepted_nil {α : Type} {depth : Nat} (q : Fifo α depth) :
    q.accepted [] = [] := by
  simp [Fifo.accepted]

/-- What does not fit any more is dropped from the end. -/
theorem Fifo.accepted_initial {α : Type} {depth : Nat} (q : Fifo α depth) (wr : List α) :
    q.accepted wr <+: wr :=
  List.take_prefix _ _

/-- A single word written to a FIFO that is not full is stored. -/
theorem Fifo.accepted_of_not_full {α : Type} {depth : Nat} {q : Fifo α depth} (a : α)
    (h : q.contents.length < depth) : q.accepted [a] = [a] := by
  apply List.take_of_length_le
  simp only [List.length_singleton]
  omega

/-- Words written to a full FIFO are all discarded. -/
theorem Fifo.accepted_of_full {α : Type} {depth : Nat} {q : Fifo α depth} (wr : List α)
    (h : depth ≤ q.contents.length) : q.accepted wr = [] := by
  simp [Fifo.accepted, Nat.sub_eq_zero_of_le h]

@[simp] theorem Fifo.popped_false {α : Type} {depth : Nat} (q : Fifo α depth) :
    q.popped false = [] := rfl

/-- What is read comes from the front. -/
theorem Fifo.popped_initial {α : Type} {depth : Nat} (q : Fifo α depth) (rd : Bool) :
    q.popped rd <+: q.contents := by
  cases rd with
  | false => exact List.nil_prefix
  | true => exact List.take_prefix 1 q.contents

@[simp] theorem Fifo.kept_false {α : Type} {depth : Nat} (q : Fifo α depth) :
    q.kept false = q.contents := rfl

@[simp] theorem Fifo.kept_true {α : Type} {depth : Nat} (q : Fifo α depth) :
    q.kept true = q.contents.tail := by
  simp [Fifo.kept]

/-- A clock edge appends to what is kept. -/
theorem Fifo.clock_contents {α : Type} {depth : Nat} (q : Fifo α depth) (wr : List α) (rd : Bool) :
    (q.clock wr rd).contents = q.kept rd ++ q.accepted wr := rfl

/-- A FIFO grows by at most what is presented to it. -/
theorem Fifo.clock_length_le {α : Type} {depth : Nat} (q : Fifo α depth) (wr : List α) (rd : Bool) :
    (q.clock wr rd).contents.length ≤ q.contents.length + wr.length := by
  have hkept : (q.kept rd).length ≤ q.contents.length := by
    cases rd <;> simp
  have haccepted := (q.accepted_initial wr).length_le
  rw [Fifo.clock_contents, List.length_append]
  omega

/-- Conservation over one edge: what was stored and what comes in is what goes
out and what stays, in order. -/
theorem Fifo.clock_conserves {α : Type} {depth : Nat} (q : Fifo α depth) (wr : List α) (rd : Bool) :
    q.contents ++ q.accepted wr = q.popped rd ++ (q.clock wr rd).contents := by
  have hread : q.popped rd ++ q.kept rd = q.contents := by
    cases rd <;> simp only [Fifo.popped, Fifo.kept, if_true, List.take_append_drop]
    rfl
  rw [Fifo.clock_contents, ← List.append_assoc, hread]

/-- Conservation over runs. In a machine that clocks a FIFO in every cycle, the
words read so far followed by the words stored are the words accepted so far. -/
theorem Fifo.stream_law {State Input α : Type} {depth : Nat} (m : Machine State Input)
    (q : State → Fifo α depth) (wr : Cycle State Input → List α) (rd : Cycle State Input → Bool)
    (hreset : q m.reset = Fifo.clear α depth)
    (hstep : ∀ s i, q (m.step s i) = (q s).clock (wr ⟨s, i⟩) (rd ⟨s, i⟩)) (inputs : List Input) :
    (m.trace inputs).flatMap (fun c => (q c.state).popped (rd c)) ++ (q (m.run inputs)).contents =
      (m.trace inputs).flatMap (fun c => (q c.state).accepted (wr c)) := by
  apply m.free_history_induction (fun h s =>
    h.flatMap (fun c => (q c.state).popped (rd c)) ++ (q s).contents =
      h.flatMap (fun c => (q c.state).accepted (wr c)))
  · simp [hreset]
  · intro h s i ih
    rw [hstep]
    simp only [List.flatMap_append, List.flatMap_singleton, List.append_assoc]
    rw [← Fifo.clock_conserves, ← List.append_assoc, ih]

end clocked
