import RecoNIC.Lookside.Scheduler

open clocked

namespace reconic.compute_logic_wrapper

/-- The compute process of the wrapper, and a kernel with `ap_ctrl_hs` behind it: how
many of its runs have not ended, and whether the latest of them is still to give its
`ap_ready`. -/
structure Handshake where
  comp_state : CompState
  ap_start : Bool
  in_flight : Nat
  taking : Bool
  deriving DecidableEq

/-- What a cycle leaves open: the requests, and the pace of the kernel. A kernel may start
a run before the runs in flight have ended (`overlap`), give its `ap_ready` early
(`ready`), and end its oldest run (`finish`). -/
structure HandshakeInput where
  cl_box_done : Bool
  overlap : Bool
  ready : Bool
  finish : Bool
  deriving DecidableEq

namespace Handshake

/-- A kernel that sees `ap_start` after its `ap_ready` starts a run as soon as it can. -/
def starts (s : Handshake) (i : HandshakeInput) : Bool :=
  s.ap_start && !s.taking && (s.in_flight == 0 || i.overlap)

/-- The runs in flight in this cycle. -/
def runs (s : Handshake) (i : HandshakeInput) : Nat := s.in_flight + (s.starts i).toNat

def ap_idle (s : Handshake) : Bool := s.in_flight == 0 && !s.ap_start

def ap_done (s : Handshake) (i : HandshakeInput) : Bool := decide (0 < s.runs i) && i.finish

/-- A run gives its `ap_ready` once, in any of its cycles and in its last one at the
latest. -/
def ap_ready (s : Handshake) (i : HandshakeInput) : Bool :=
  (s.taking || s.starts i) && (i.ready || (s.ap_done i && s.runs i == 1))

def step (s : Handshake) (i : HandshakeInput) : Handshake where
  comp_state := (comp_fsm s.comp_state s.ap_idle i.cl_box_done (s.ap_ready i) (s.ap_done i)).1
  ap_start := (comp_fsm s.comp_state s.ap_idle i.cl_box_done (s.ap_ready i) (s.ap_done i)).2
  in_flight := s.runs i - (s.ap_done i).toNat
  taking := (s.taking || s.starts i) && !s.ap_ready i

end Handshake

def handshakeMachine : Machine Handshake HandshakeInput where
  reset := ⟨.COMPUTE_IDLE, false, 0, false⟩
  step := Handshake.step

/-- The requests made so far. -/
def requests (h : List (Cycle Handshake HandshakeInput)) : Nat :=
  h.countP fun c => c.input.cl_box_done

/-- The kernel runs started so far. -/
def started (h : List (Cycle Handshake HandshakeInput)) : Nat :=
  h.countP fun c => c.state.starts c.input

/-- Requests come only when the kernel is idle. -/
def IssuedWhenIdle (c : Cycle Handshake HandshakeInput) : Prop :=
  c.input.cl_box_done = true → c.state.ap_idle = true

/-- A kernel that gives its `ap_ready` together with its `ap_done` in this cycle. -/
def ReadyWithDone (c : Cycle Handshake HandshakeInput) : Prop :=
  c.state.ap_ready c.input = true → c.state.ap_done c.input = true

instance (c : Cycle Handshake HandshakeInput) : Decidable (IssuedWhenIdle c) :=
  inferInstanceAs (Decidable (_ → _))

instance (c : Cycle Handshake HandshakeInput) : Decidable (ReadyWithDone c) :=
  inferInstanceAs (Decidable (_ → _))

theorem requests_snoc (h : List (Cycle Handshake HandshakeInput))
    (c : Cycle Handshake HandshakeInput) :
    requests (h ++ [c]) = requests h + c.input.cl_box_done.toNat := by
  cases hrequest : c.input.cl_box_done <;> simp [requests, hrequest]

theorem started_snoc (h : List (Cycle Handshake HandshakeInput))
    (c : Cycle Handshake HandshakeInput) :
    started (h ++ [c]) = started h + (c.state.starts c.input).toNat := by
  cases hstarts : c.state.starts c.input <;> simp [started, hstarts]

/-- Between two edges the kernel is idle, its run is about to start, or its one run has
not given its `ap_ready`. -/
inductive OneRunEach (h : List (Cycle Handshake HandshakeInput)) (s : Handshake) : Prop where
  | idle (state : s.comp_state = .COMPUTE_IDLE) (ap_start : s.ap_start = false)
      (in_flight : s.in_flight = 0) (taking : s.taking = false) (even : started h = requests h)
  | requested (state : s.comp_state = .COMPUTE_BUSY) (ap_start : s.ap_start = true)
      (in_flight : s.in_flight = 0) (taking : s.taking = false)
      (due : started h + 1 = requests h)
  | running (state : s.comp_state = .COMPUTE_BUSY) (ap_start : s.ap_start = true)
      (in_flight : s.in_flight = 1) (taking : s.taking = true) (even : started h = requests h)

theorem OneRunEach.step {h : List (Cycle Handshake HandshakeInput)} {s : Handshake}
    (hinv : OneRunEach h s) (i : HandshakeInput) (hissued : IssuedWhenIdle ⟨s, i⟩)
    (htogether : ReadyWithDone ⟨s, i⟩) : OneRunEach (h ++ [⟨s, i⟩]) (s.step i) := by
  obtain ⟨cl_box_done, overlap, ready, finish⟩ := i
  cases hinv with
  | idle hstate hstart hflight htaking heven =>
    cases cl_box_done with
    | false =>
      apply OneRunEach.idle <;>
        simp [Handshake.step, Handshake.starts, Handshake.runs, Handshake.ap_idle, Handshake.ap_done,
          comp_fsm, requests_snoc, started_snoc, hstate, hstart, hflight, htaking, heven]
    | true =>
      apply OneRunEach.requested <;>
        simp [Handshake.step, Handshake.starts, Handshake.runs, Handshake.ap_idle, Handshake.ap_done,
          comp_fsm, requests_snoc, started_snoc, hstate, hstart, hflight, htaking, heven]
  | requested hstate hstart hflight htaking hdue =>
    have hquiet : cl_box_done = false := by
      simpa [IssuedWhenIdle, Handshake.ap_idle, hstart] using hissued
    cases finish with
    | false =>
      have hlate : ready = false := by
        simpa [ReadyWithDone, Handshake.ap_ready, Handshake.ap_done, Handshake.starts,
          Handshake.runs, hstart, hflight, htaking] using htogether
      apply OneRunEach.running <;>
        simp [Handshake.step, Handshake.starts, Handshake.runs, Handshake.ap_done,
          Handshake.ap_ready, comp_fsm, requests_snoc, started_snoc, hstate, hstart, hflight,
          htaking, hquiet, hlate, hdue]
    | true =>
      apply OneRunEach.idle <;>
        simp [Handshake.step, Handshake.starts, Handshake.runs, Handshake.ap_done,
          Handshake.ap_ready, comp_fsm, requests_snoc, started_snoc, hstate, hstart, hflight,
          htaking, hquiet, hdue]
  | running hstate hstart hflight htaking heven =>
    have hquiet : cl_box_done = false := by
      simpa [IssuedWhenIdle, Handshake.ap_idle, hstart] using hissued
    cases finish with
    | false =>
      have hlate : ready = false := by
        simpa [ReadyWithDone, Handshake.ap_ready, Handshake.ap_done, Handshake.starts,
          Handshake.runs, hstart, hflight, htaking] using htogether
      apply OneRunEach.running <;>
        simp [Handshake.step, Handshake.starts, Handshake.runs, Handshake.ap_done,
          Handshake.ap_ready, comp_fsm, requests_snoc, started_snoc, hstate, hstart, hflight,
          htaking, hquiet, hlate, heven]
    | true =>
      apply OneRunEach.idle <;>
        simp [Handshake.step, Handshake.starts, Handshake.runs, Handshake.ap_done,
          Handshake.ap_ready, comp_fsm, requests_snoc, started_snoc, hstate, hstart, hflight,
          htaking, hquiet, heven]

theorem in_step (inputs : List HandshakeInput)
    (hissued : ∀ c ∈ handshakeMachine.trace inputs, IssuedWhenIdle c)
    (htogether : ∀ c ∈ handshakeMachine.trace inputs, ReadyWithDone c) :
    OneRunEach (handshakeMachine.trace inputs) (handshakeMachine.run inputs) := by
  apply handshakeMachine.history_induction
    (fun h => (∀ c ∈ h, IssuedWhenIdle c) ∧ ∀ c ∈ h, ReadyWithDone c) OneRunEach
  · intro h c ⟨hissued, htogether⟩
    exact ⟨fun d hd => hissued d (List.mem_append_left _ hd),
      fun d hd => htogether d (List.mem_append_left _ hd)⟩
  · exact .idle rfl rfl rfl rfl rfl
  · intro h s i ⟨hissued, htogether⟩ hinv
    have hlast : (⟨s, i⟩ : Cycle Handshake HandshakeInput) ∈ h ++ [⟨s, i⟩] := by simp
    exact hinv.step i (hissued _ hlast) (htogether _ hlast)
  · exact ⟨hissued, htogether⟩

/-- As long as the kernel gives each `ap_ready` together with the `ap_done` of the run,
the runs started by the end of a cycle are the requests made before it: every request
starts one run, in the cycle after it, and nothing else does. -/
theorem one_run_per_request (inputs : List HandshakeInput)
    (hissued : ∀ c ∈ handshakeMachine.trace inputs, IssuedWhenIdle c)
    (htogether : ∀ c ∈ handshakeMachine.trace inputs, ReadyWithDone c) (i : HandshakeInput) :
    started (handshakeMachine.trace (inputs ++ [i])) =
      requests (handshakeMachine.trace inputs) := by
  rw [Machine.trace_snoc, started_snoc]
  cases in_step inputs hissued htogether with
  | idle hstate hstart hflight htaking heven => simpa [Handshake.starts, hstart] using heven
  | requested hstate hstart hflight htaking hdue =>
    simpa [Handshake.starts, hstart, hflight, htaking] using hdue
  | running hstate hstart hflight htaking heven => simpa [Handshake.starts, htaking] using heven

/-- A request, and a run of three cycles. -/
def three_cycle_run : List HandshakeInput :=
  [⟨true, false, false, false⟩, ⟨false, false, false, false⟩, ⟨false, false, false, false⟩,
    ⟨false, false, false, true⟩, ⟨false, false, false, false⟩]

theorem one_run_per_request_three_cycles :
    started (handshakeMachine.trace (three_cycle_run ++ [⟨false, false, false, false⟩])) =
      requests (handshakeMachine.trace three_cycle_run) :=
  one_run_per_request three_cycle_run (by decide) (by decide) ⟨false, false, false, false⟩

/-- When the `ap_ready` of a run is over before its `ap_done`, the wrapper has raised
`ap_start` again by then, and the kernel starts another run. -/
theorem Handshake.restarts (s : Handshake) (i next : HandshakeInput)
    (hstate : s.comp_state = .COMPUTE_BUSY) (hflight : s.runs i = 1)
    (hdone : s.ap_done i = true) (hover : s.taking = false) (hnone : s.starts i = false) :
    (s.step i).starts next = true := by
  have hlow : s.ap_ready i = false := by simp [Handshake.ap_ready, hover, hnone]
  have hstart : (s.step i).ap_start = true := by simp [Handshake.step, comp_fsm, hstate, hlow]
  have hfree : (s.step i).taking = false := by simp [Handshake.step, hover, hnone]
  have hempty : (s.step i).in_flight = 0 := by simp [Handshake.step, hflight, hdone]
  rw [Handshake.starts, hstart, hfree, hempty]
  rfl

/-- One request to a kernel whose `ap_ready` comes one cycle before its `ap_done`. -/
def early_ready : List HandshakeInput :=
  [⟨true, false, false, false⟩, ⟨false, false, true, false⟩, ⟨false, false, false, true⟩]

/-- The one request starts a second run. -/
theorem early_ready_runs_twice :
    (∀ c ∈ handshakeMachine.trace early_ready, IssuedWhenIdle c) ∧
      requests (handshakeMachine.trace early_ready) = 1 ∧
      started (handshakeMachine.trace (early_ready ++ [⟨false, false, false, false⟩])) = 2 := by
  decide

end reconic.compute_logic_wrapper
