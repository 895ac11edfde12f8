import RecoNIC.HostPath.Arbiter

open clocked ring arbitration

namespace reconic.rr_arbiter

section QueueStore

variable {N : Nat}

/-- The requests that a queue stores, the first one in front. -/
def Queue.Stores (q : Queue N) (groups : List (Finset (Fin N))) : Prop :=
  ∃ log read, log.drop read = groups ∧ read ≤ log.length ∧
    Holds N q.q_mem log read log.length ∧ q.q_wptr = log.length % N ∧ q.q_rptr = read % N ∧
    q.q_cnt = groups.length

/-- `q_empty` tells whether requests are stored. -/
theorem Queue.Stores.empty_iff {q : Queue N} {groups : List (Finset (Fin N))} (h : q.Stores groups) :
    q.q_empty = true ↔ groups = [] := by
  obtain ⟨log, read, -, -, -, -, -, hcnt⟩ := h
  rw [Queue.q_empty, decide_eq_true_eq, hcnt, List.length_eq_zero_iff]

/-- The first request stored is the one that is read. -/
theorem Queue.Stores.dout {q : Queue N} {g : Finset (Fin N)} {groups : List (Finset (Fin N))}
    (h : q.Stores (g :: groups)) : q.q_dout = g := by
  obtain ⟨log, read, hdrop, hread, hholds, -, hrptr, -⟩ := h
  have hlt : read < log.length := by
    by_contra hge
    rw [List.drop_eq_nil_of_le (by omega)] at hdrop
    cases hdrop
  have hfirst := congrArg List.head? hdrop
  rw [List.head?_drop, List.head?_cons] at hfirst
  rw [Queue.q_dout, hrptr, List.getD_eq_getElem?_getD, hholds.item read (Nat.le_refl _) hlt, hfirst]
  rfl

/-- With a power of two the pointers go round the queue. -/
theorem advance_mod (hN : 2 ^ Nat.clog 2 N = N) (position : Nat) :
    Queue.advance N (position % N) = (position + 1) % N := by
  rw [Queue.advance, hN, Nat.mod_add_mod]

/-- One clock edge of a queue that has room for what is written, and something to read. -/
theorem Queue.Stores.next (hN : 2 ^ Nat.clog 2 N = N) {q : Queue N} {groups : List (Finset (Fin N))}
    (h : q.Stores groups) {q_wr_en q_rd_en : Bool} (hroom : q_wr_en = true → groups.length < N)
    (hread : q_rd_en = true → groups ≠ []) (q_din : Finset (Fin N)) :
    (q.step q_wr_en q_rd_en q_din).Stores
      (groups.drop (if q_rd_en then 1 else 0) ++ if q_wr_en then [q_din] else []) := by
  have hempty := h.empty_iff
  obtain ⟨log, read, hdrop, hle, hholds, hwptr, hrptr, hcnt⟩ := h
  have hlength := congrArg List.length hdrop
  rw [List.length_drop] at hlength
  have hfull : q_wr_en = true → q.q_full = false := by
    intro hwr
    have := hroom hwr
    rw [Queue.q_full, decide_eq_false_iff_not, hcnt]
    omega
  have hput : q_wr_en = true → Holds N (q.q_mem.set q.q_wptr q_din) (log ++ [q_din]) read
      (log ++ [q_din]).length := by
    intro hwr
    have := hroom hwr
    rw [hwptr, List.length_append, List.length_singleton]
    refine (hholds.extend (Nat.le_refl _) [q_din]).put hle (by omega) ?_
    rw [List.getElem?_append_right (Nat.le_refl _), Nat.sub_self]
    rfl
  have hgroups : q_rd_en = true → q.q_empty = false ∧ read < log.length := by
    intro hrd
    have hne := hread hrd
    have hpos := List.length_pos_iff.mpr hne
    exact ⟨Bool.eq_false_iff.mpr fun he => hne (hempty.mp he), by omega⟩
  cases hwr : q_wr_en with
  | true =>
    cases hrd : q_rd_en with
    | true =>
      obtain ⟨hne, hlt⟩ := hgroups hrd
      refine ⟨log ++ [q_din], read + 1, ?_, by simp; omega, ?_, ?_, ?_, ?_⟩
      · rw [List.drop_append_of_le_length (by omega), ← hdrop, List.drop_drop]
        rfl
      · simpa [Queue.step, hne] using (hput hwr).from_later (Nat.le_add_right read 1)
      · simp [Queue.step, hwptr, advance_mod hN]
      · simp [Queue.step, hne, hrptr, advance_mod hN]
      · simp [Queue.step, hne, hcnt]
        omega
    | false =>
      refine ⟨log ++ [q_din], read, ?_, by simp; omega, ?_, ?_, ?_, ?_⟩
      · rw [List.drop_append_of_le_length hle, hdrop]
        rfl
      · simpa [Queue.step, hfull hwr] using hput hwr
      · simp [Queue.step, hfull hwr, hwptr, advance_mod hN]
      · simpa [Queue.step, hfull hwr] using hrptr
      · simp [Queue.step, hfull hwr, hcnt]
  | false =>
    cases hrd : q_rd_en with
    | true =>
      obtain ⟨hne, hlt⟩ := hgroups hrd
      refine ⟨log, read + 1, ?_, by omega, ?_, ?_, ?_, ?_⟩
      · rw [← hdrop, List.drop_drop]
        simp
      · simpa [Queue.step, hne] using hholds.from_later (Nat.le_add_right read 1)
      · simpa [Queue.step, hne] using hwptr
      · simp [Queue.step, hne, hrptr, advance_mod hN]
      · simp [Queue.step, hne, hcnt]
    | false => exact ⟨log, read, by simpa using hdrop, hle, hholds, hwptr, hrptr,
        by simpa [Queue.step] using hcnt⟩

end QueueStore

section Waiting

variable {N : Nat} {s : Regs N} {order : List (Fin N)} {queue : List (Finset (Fin N))}

/-- The pending requests that have not been granted access yet. -/
def unserved (s : Regs N) : Finset (Fin N) :=
  match s.state with
  | .S_IDLE => s.pending
  | .S_BUSY => s.pending \ s.granted

/-- The registers of an arbiter: each channel waits at most once, and the priorities are an order
of the channels. -/
structure Waits (s : Regs N) (order : List (Fin N)) (queue : List (Finset (Fin N))) : Prop where
  stores : s.q.Stores queue
  prio : s.prio = order.map fun k => {k}
  order : order.Perm (List.finRange N)
  queued : s.queued = members (s.pending :: queue)
  disjoint : (s.pending :: queue).Pairwise Disjoint
  nonempty : ∀ g ∈ queue, g.Nonempty
  busy : s.state = .S_BUSY → ∃ k ∈ s.pending, s.granted = {k}

theorem Waits.nodup (h : Waits s order queue) : order.Nodup :=
  h.order.nodup_iff.mpr (List.nodup_finRange N)

/-- Every channel has its place in the order. -/
theorem Waits.all (h : Waits s order queue) (k : Fin N) : k ∈ order :=
  h.order.mem_iff.mpr (List.mem_finRange k)

/-- The loop finds the first requested channel of the order. -/
theorem Waits.arbitrate_eq (h : Waits s order queue) {valid_req : Finset (Fin N)}
    (hne : valid_req.Nonempty) :
    ∃ before after k, order = before ++ k :: after ∧ (∀ j ∈ before, j ∉ valid_req) ∧
      k ∈ valid_req ∧
      arbitrate valid_req s.prio = ({k}, (before ++ after ++ [k]).map fun k => {k}) := by
  have hsome : ∃ k ∈ order, k ∈ valid_req := by
    obtain ⟨k, hk⟩ := hne
    exact ⟨k, h.all k, hk⟩
  have htest : ∀ j : Fin N, decide (valid_req ∩ {j} ≠ ∅) = decide (j ∈ valid_req) := by
    intro j
    by_cases hj : j ∈ valid_req <;> simp [hj]
  obtain ⟨before, k, after, horder, hk, hbefore⟩ :
      ∃ before k after, order = before ++ k :: after ∧ k ∈ valid_req ∧ ∀ j ∈ before, j ∉ valid_req := by
    obtain ⟨j, hj, hvalid⟩ := hsome
    obtain ⟨k, hfind⟩ := Option.isSome_iff_exists.mp
      ((List.find?_isSome (p := fun k => decide (k ∈ valid_req))).mpr ⟨j, hj, decide_eq_true hvalid⟩)
    obtain ⟨hk, before, after, horder, hbefore⟩ := List.find?_eq_some_iff_append.mp hfind
    exact ⟨before, k, after, horder, by simpa using hk, by simpa using hbefore⟩
  refine ⟨before, after, k, horder, hbefore, hk, ?_⟩
  have hindex : s.prio.findIdx? (fun p => decide (valid_req ∩ p ≠ ∅)) = some before.length := by
    rw [h.prio, horder, List.findIdx?_map, List.findIdx?_append]
    simp only [Function.comp_def, htest]
    rw [List.findIdx?_eq_none_iff.mpr (by simpa using hbefore), List.findIdx?_cons,
      decide_eq_true hk]
    simp
  have hget : s.prio.getD before.length ∅ = {k} := by
    rw [h.prio, horder]
    simp
  have herase : s.prio.eraseIdx before.length = (before ++ after).map fun k => {k} := by
    rw [h.prio, horder, List.map_append, List.map_append, List.eraseIdx_append_of_length_le (by simp)]
    simp
  rw [arbitrate, hindex]
  dsimp only
  rw [hget, herase, Finset.inter_singleton_of_mem hk]
  simp

/-- A request that is not queued yet is not among those that wait. -/
theorem Waits.fresh (h : Waits s order queue) (req : Finset (Fin N)) :
    Disjoint (q_din s req) (members (s.pending :: queue)) := by
  rw [q_din, h.queued]
  exact Finset.sdiff_disjoint

/-- There is room in the queue for the requests that arrive. -/
theorem Waits.room (h : Waits s order queue) {req : Finset (Fin N)} (hne : q_din s req ≠ ∅) :
    queue.length < N := by
  have hall : ((q_din s req) :: queue).Pairwise Disjoint := by
    have hdisjoint := h.disjoint
    rw [List.pairwise_cons] at hdisjoint ⊢
    refine ⟨fun g hg => ?_, hdisjoint.2⟩
    exact disjoint_members.mp (h.fresh req) g (List.mem_cons_of_mem _ hg)
  have hle := length_le_card hall (by
    rintro g (_ | ⟨_, hg⟩)
    · exact Finset.nonempty_iff_ne_empty.mpr hne
    · exact h.nonempty g hg)
  have hcard := Finset.card_le_univ (members (q_din s req :: queue))
  rw [Fintype.card_fin] at hcard
  rw [List.length_cons] at hle
  omega

/-- What arrives in a cycle. -/
def arrival (s : Regs N) (req : Finset (Fin N)) : List (Finset (Fin N)) :=
  if q_din s req ≠ ∅ then [q_din s req] else []

/-- The requests that arrive are those that are new. -/
theorem members_arrival (s : Regs N) (req : Finset (Fin N)) :
    members (arrival s req) = q_din s req := by
  unfold arrival
  split
  · simp
  · next h =>
    rw [not_not] at h
    rw [h, members_nil]

/-- The requests that wait before a cycle, with those that arrive in it. -/
theorem Waits.requests (h : Waits s order queue) (req : Finset (Fin N)) :
    members (s.pending :: queue ++ arrival s req) = s.queued ∪ req := by
  rw [members_append, ← h.queued, members_arrival, q_din, Finset.union_sdiff_self_eq_union]

/-- The requests that arrive wait in a group of their own. -/
theorem Waits.disjoint_arrival (h : Waits s order queue) (req : Finset (Fin N)) :
    (s.pending :: queue ++ arrival s req).Pairwise Disjoint := by
  rw [List.pairwise_append]
  refine ⟨h.disjoint, ?_, fun g hg g' hg' => ?_⟩
  · unfold arrival
    split <;> simp
  · unfold arrival at hg'
    split at hg'
    · rw [List.mem_singleton.mp hg']
      exact (disjoint_members.mp (h.fresh req) g hg).symm
    · cases hg'

/-- Each group that waits has a request. -/
theorem Waits.nonempty_arrival (h : Waits s order queue) (req : Finset (Fin N)) :
    ∀ g ∈ queue ++ arrival s req, g.Nonempty := by
  intro g hg
  rcases List.mem_append.mp hg with hg | hg
  · exact h.nonempty g hg
  · unfold arrival at hg
    split at hg
    · next hne =>
      rw [List.mem_singleton.mp hg]
      exact Finset.nonempty_iff_ne_empty.mpr hne
    · cases hg

/-- What an idle arbiter chooses from, and the requests that are in the queue then. -/
structure Candidates (s : Regs N) (req : Finset (Fin N)) (before queue : List (Finset (Fin N))) :
    Prop where
  stores : (s.q.step (q_wr_en s req) (q_rd_en s) (q_din s req)).Stores queue
  turns : ∀ order groups, arbitration.turns order (before ++ groups) =
    arbitration.turns order (valid_req s req :: queue ++ groups)
  queued : members (valid_req s req :: queue) = s.queued ∪ req
  disjoint : (valid_req s req :: queue).Pairwise Disjoint
  nonempty : ∀ g ∈ queue, g.Nonempty
  none : valid_req s req = ∅ → s.pending = ∅ ∧ queue = []

/-- An idle arbiter takes its candidates from the first group that waits. -/
theorem Waits.candidates (hN : 2 ^ Nat.clog 2 N = N) (h : Waits s order queue)
    (hidle : s.state = .S_IDLE) (req : Finset (Fin N)) :
    ∃ queue', Candidates s req (s.pending :: queue ++ arrival s req) queue' := by
  have hempty := h.stores.empty_iff
  have hrequests := h.requests req
  have hdisjoint := h.disjoint_arrival req
  have hnonempty := h.nonempty_arrival req
  have hroom : q_wr_en s req = true → queue.length < N := by
    intro hwr
    simp only [q_wr_en, Bool.and_eq_true, decide_eq_true_eq] at hwr
    exact h.room hwr.1
  have hread : q_rd_en s = true → queue ≠ [] := by
    intro hrd hnone
    simp [q_rd_en, hempty.mpr hnone] at hrd
  have hnext := h.stores.next hN hroom hread (q_din s req)
  by_cases hpending : s.pending = ∅
  · have hrd : q_rd_en s = !s.q.q_empty := by simp [q_rd_en, hidle, hpending]
    cases hqueue : queue with
    | nil =>
      have he := hempty.mpr hqueue
      have hvalid : valid_req s req = q_din s req := by simp [valid_req, hpending, he]
      rw [hqueue] at hnext hrequests hdisjoint
      refine ⟨[], by simpa [q_wr_en, hrd, he, hpending] using hnext, ?_, ?_, by simp, by simp,
        fun _ => ⟨hpending, rfl⟩⟩
      · intro order groups
        rw [hvalid, hpending, arrival]
        split
        · simp
        · next hnone =>
          rw [not_not] at hnone
          simp [hnone]
      · rw [hvalid, ← hrequests, hpending]
        simp [members_arrival]
    | cons g rest =>
      have he : s.q.q_empty = false :=
        Bool.eq_false_iff.mpr fun he => by rw [hempty.mp he] at hqueue; cases hqueue
      have hvalid : valid_req s req = g := by
        rw [hqueue] at h
        simp [valid_req, hpending, he, h.stores.dout]
      rw [hqueue] at hnext hrequests hdisjoint hnonempty
      have hwr : q_wr_en s req = decide (q_din s req ≠ ∅) := by simp [q_wr_en, he]
      refine ⟨rest ++ arrival s req, ?_, ?_, ?_, ?_, ?_, ?_⟩
      · rw [hrd, he, hwr] at hnext
        rw [hrd, he, hwr]
        simpa [arrival] using hnext
      · intro order groups
        rw [hvalid, hpending]
        simp
      · rw [hvalid, ← hrequests, hpending]
        simp
      · rw [hvalid]
        simp only [List.cons_append, List.pairwise_cons] at hdisjoint
        exact List.pairwise_cons.mpr hdisjoint.2
      · exact fun g' hg' => hnonempty g' (List.mem_cons_of_mem _ hg')
      · intro hnone
        have := hnonempty g List.mem_cons_self
        rw [← hvalid, hnone] at this
        simp at this
  · have hvalid : valid_req s req = s.pending := by simp [valid_req, hpending]
    have hrd : q_rd_en s = false := by simp [q_rd_en, hpending]
    have hwr : q_wr_en s req = decide (q_din s req ≠ ∅) := by simp [q_wr_en, hpending]
    refine ⟨queue ++ arrival s req, ?_, ?_, ?_, ?_, hnonempty, ?_⟩
    · rw [hrd, hwr] at hnext
      rw [hrd, hwr]
      simpa [arrival] using hnext
    · intro order groups
      rw [hvalid]
      simp
    · rw [hvalid, ← hrequests]
      rfl
    · rw [hvalid]
      exact hdisjoint
    · exact fun hnone => absurd (hvalid ▸ hnone) hpending

/-- A channel only finishes when it has been granted access. -/
def Finishes (c : Cycle (Regs N) (Input N)) : Prop :=
  c.input.fin ⊆ c.input.req ∩ grant c.state c.input.req c.input.ready

instance (c : Cycle (Regs N) (Input N)) : Decidable (Finishes c) :=
  inferInstanceAs (Decidable ((_ : Finset (Fin N)) ⊆ _))

/-- Access goes to one channel at most. -/
theorem grant_subset {k : Fin N} {req : Finset (Fin N)} {ready : Bool}
    (hidle : s.state = .S_IDLE → choice s req ⊆ {k}) (hbusy : s.state = .S_BUSY → s.granted ⊆ {k}) :
    grant s req ready ⊆ {k} := by
  unfold grant
  split
  · split
    · next hstate => exact hidle hstate
    · next hstate => exact hbusy hstate
  · exact Finset.empty_subset _

/-- The channel with access has finished, or none has. -/
theorem Finishes.cases {i : Input N} (h : Finishes ⟨s, i⟩) {k : Fin N}
    (hgrant : grant s i.req i.ready ⊆ {k}) :
    i.fin ∩ grant s i.req i.ready = i.fin ∧ i.req ∩ grant s i.req i.ready ∩ i.fin = i.fin ∧
      (i.fin = ∅ ∨ i.fin = {k}) := by
  refine ⟨Finset.inter_eq_left.mpr (h.trans Finset.inter_subset_right),
    Finset.inter_eq_right.mpr h, ?_⟩
  exact Finset.subset_singleton_iff.mp ((h.trans Finset.inter_subset_right).trans hgrant)

/-- Who has finished waits no longer. -/
theorem members_erase {g : Finset (Fin N)} {groups : List (Finset (Fin N))} {k : Fin N}
    (hk : k ∈ g) (hdisjoint : (g :: groups).Pairwise Disjoint) :
    members (g :: groups) \ {k} = members (g.erase k :: groups) := by
  have hother : k ∉ members groups :=
    Finset.disjoint_left.mp (disjoint_members.mpr (List.pairwise_cons.mp hdisjoint).1) hk
  rw [members_cons, members_cons, Finset.union_sdiff_distrib, Finset.sdiff_singleton_eq_erase,
    Finset.sdiff_singleton_eq_erase, Finset.erase_eq_of_notMem hother]

/-- A channel that has been served leaves the groups disjoint. -/
theorem pairwise_erase {g : Finset (Fin N)} {groups : List (Finset (Fin N))}
    (hdisjoint : (g :: groups).Pairwise Disjoint) (k : Fin N) :
    (g.erase k :: groups).Pairwise Disjoint := by
  rw [List.pairwise_cons] at hdisjoint ⊢
  exact ⟨fun g' hg' => (hdisjoint.1 g' hg').mono_left (Finset.erase_subset _ _), hdisjoint.2⟩

/-- Toggling a bit that is set clears it. -/
theorem symmDiff_singleton {g : Finset (Fin N)} {k : Fin N} (hk : k ∈ g) :
    symmDiff g {k} = g.erase k := by
  ext j
  simp only [Finset.mem_symmDiff, Finset.mem_singleton, Finset.mem_erase]
  constructor
  · rintro (⟨hj, hne⟩ | ⟨rfl, hj⟩)
    · exact ⟨hne, hj⟩
    · exact absurd hk hj
  · exact fun ⟨hne, hj⟩ => .inl ⟨hj, hne⟩

/-- A cycle of an idle arbiter. When there is a request, the channel whose turn it is gets access. -/
theorem Waits.idle_next (hN : 2 ^ Nat.clog 2 N = N) (h : Waits s order queue)
    (hidle : s.state = .S_IDLE) {i : Input N} (hfin : Finishes ⟨s, i⟩) :
    ∃ order' queue', Waits (step s i) order' queue' ∧
      ∀ groups, (turns order (unserved s :: queue ++ arrival s i.req ++ groups)).map (fun k => {k}) =
        selection s i.req ++
          (turns order' (unserved (step s i) :: queue' ++ groups)).map fun k => {k} := by
  obtain ⟨queue', hstores, hturns, hqueued, hdisjoint, hnonempty, hnone⟩ := h.candidates hN hidle i.req
  have hunserved : unserved s = s.pending := by rw [unserved, hidle]
  by_cases hvalid : valid_req s i.req = ∅
  · obtain ⟨hpending, rfl⟩ := hnone hvalid
    have harbitrate : arbitrate (valid_req s i.req) s.prio = (∅, s.prio) := by
      rw [hvalid, arbitrate, List.findIdx?_eq_none_iff.mpr (by simp)]
    have hchoice : choice s i.req = ∅ := by rw [choice, harbitrate]
    have hgrant : grant s i.req i.ready = ∅ := by
      unfold grant
      split
      · rw [hidle]
        exact hchoice
      · rfl
    have hstate : (step s i).state = .S_IDLE := by simp [step, hidle, hchoice]
    have hpending' : (step s i).pending = ∅ := by simp [step, hidle, hchoice, hpending]
    refine ⟨order, [], ⟨hstores, ?_, h.order, ?_, ?_, by simp, ?_⟩, ?_⟩
    · simpa [step, hidle, harbitrate] using h.prio
    · rw [hpending', ← hvalid, hqueued]
      simp [step, hgrant]
    · rw [hpending', ← hvalid]
      exact hdisjoint
    · rw [hstate]
      exact fun hbusy => by cases hbusy
    · intro groups
      have hunserved' : unserved (step s i) = ∅ := by rw [unserved, hstate]; exact hpending'
      rw [hunserved, hturns, hvalid, hunserved', selection, if_neg (by simp [hchoice])]
      rfl
  · obtain ⟨before, after, k, horder, hbefore, hk, harbitrate⟩ :=
      h.arbitrate_eq (Finset.nonempty_iff_ne_empty.mpr hvalid)
    have hchoice : choice s i.req = {k} := by rw [choice, harbitrate]
    have hgrant : grant s i.req i.ready ⊆ {k} :=
      grant_subset (fun _ => by rw [hchoice]) (fun hbusy => by rw [hidle] at hbusy; cases hbusy)
    obtain ⟨hinter, hcleared, hcases⟩ := hfin.cases hgrant
    have hselection : selection s i.req = [{k}] := by
      rw [selection, if_pos ⟨hidle, by simp [hchoice]⟩, hchoice]
    have hqueue : (step s i).queued = members (valid_req s i.req :: queue') \ i.fin := by
      rw [hqueued, ← hcleared]
      rfl
    -- what is left of the group is the same whether the channel finishes at once or not
    have hserved : unserved (step s i) = (valid_req s i.req).erase k ∧
        (step s i).queued = members ((step s i).pending :: queue') ∧
        ((step s i).pending :: queue').Pairwise Disjoint ∧
        ((step s i).state = .S_BUSY → ∃ k ∈ (step s i).pending, (step s i).granted = {k}) := by
      rcases hcases with hfin | hfin
      · have hstate : (step s i).state = .S_BUSY := by simp [step, hidle, hchoice, hfin]
        have hpending : (step s i).pending = valid_req s i.req := by
          simp [step, hidle, hchoice, hfin]
        have hgranted : (step s i).granted = {k} := by simp [step, hidle, hchoice]
        refine ⟨?_, ?_, ?_, fun _ => ⟨k, by rw [hpending]; exact hk, hgranted⟩⟩
        · rw [unserved, hstate, hpending, hgranted]
          exact Finset.sdiff_singleton_eq_erase k _
        · rw [hqueue, hfin, hpending, Finset.sdiff_empty]
        · rw [hpending]
          exact hdisjoint
      · rw [hfin] at hinter
        have hstate : (step s i).state = .S_IDLE := by simp [step, hidle, hchoice, hinter, hfin]
        have hpending : (step s i).pending = (valid_req s i.req).erase k := by
          rw [← symmDiff_singleton hk]
          simp [step, hidle, hchoice, hinter, hfin]
        refine ⟨?_, ?_, ?_, fun hbusy => by rw [hstate] at hbusy; cases hbusy⟩
        · rw [unserved, hstate]
          exact hpending
        · rw [hqueue, hfin, hpending, members_erase hk hdisjoint]
        · rw [hpending]
          exact pairwise_erase hdisjoint k
    obtain ⟨hunserved', hqueued', hdisjoint', hbusy'⟩ := hserved
    have hperm : (before ++ after ++ [k]).Perm order := by
      rw [horder, List.append_assoc]
      exact List.Perm.append_left before (List.perm_append_singleton k after)
    refine ⟨before ++ after ++ [k], queue', ⟨hstores, ?_, hperm.trans h.order, hqueued', hdisjoint',
      hnonempty, hbusy'⟩, ?_⟩
    · simp [step, hidle, harbitrate]
    · intro groups
      have hnodup := h.nodup
      rw [horder] at hnodup
      rw [hunserved, hturns, horder, List.cons_append, turns_first hnodup hbefore hk, hselection,
        hunserved']
      rfl

/-- A cycle of an arbiter that waits for a channel to finish. -/
theorem Waits.busy_next (hN : 2 ^ Nat.clog 2 N = N) (h : Waits s order queue)
    (hbusy : s.state = .S_BUSY) {i : Input N} (hfin : Finishes ⟨s, i⟩) :
    Waits (step s i) order (queue ++ arrival s i.req) ∧ unserved (step s i) = unserved s ∧
      selection s i.req = [] := by
  obtain ⟨k, hk, hgranted⟩ := h.busy hbusy
  have hpending : s.pending ≠ ∅ := Finset.ne_empty_of_mem hk
  have hgrant : grant s i.req i.ready ⊆ {k} :=
    grant_subset (fun hidle => by rw [hbusy] at hidle; cases hidle) (fun _ => by rw [hgranted])
  obtain ⟨hinter, hcleared, hcases⟩ := hfin.cases hgrant
  have hrequests := h.requests i.req
  have hdisjoint : (s.pending :: (queue ++ arrival s i.req)).Pairwise Disjoint :=
    h.disjoint_arrival i.req
  have hrd : q_rd_en s = false := by simp [q_rd_en, hbusy]
  have hwr : q_wr_en s i.req = decide (q_din s i.req ≠ ∅) := by simp [q_wr_en, hpending]
  have hroom : q_wr_en s i.req = true → queue.length < N := fun h' => h.room (by simpa [hwr] using h')
  have hread : q_rd_en s = true → queue ≠ [] := fun h' => by simp [hrd] at h'
  have hstores : (step s i).q.Stores (queue ++ arrival s i.req) := by
    have hnext := h.stores.next hN hroom hread (q_din s i.req)
    simp only [hrd, hwr] at hnext
    simp only [step, hrd, hwr]
    simpa [arrival] using hnext
  have hqueue : (step s i).queued = members (s.pending :: (queue ++ arrival s i.req)) \ i.fin := by
    rw [← List.cons_append, hrequests, ← hcleared]
    rfl
  have hunserved : unserved s = s.pending.erase k := by
    rw [unserved, hbusy]
    dsimp only
    rw [hgranted, Finset.sdiff_singleton_eq_erase]
  have hprio : (step s i).prio = s.prio := by simp [step, hbusy]
  rcases hcases with hfin | hfin
  · have hstate : (step s i).state = .S_BUSY := by simp [step, hbusy, hfin]
    have hpending' : (step s i).pending = s.pending := by simp [step, hbusy, hfin]
    have hgranted' : (step s i).granted = s.granted := by simp [step, hbusy, hfin]
    refine ⟨⟨hstores, hprio.trans h.prio, h.order, ?_, ?_, h.nonempty_arrival i.req, fun _ => ?_⟩, ?_,
      by simp [selection, hbusy]⟩
    · rw [hqueue, hfin, hpending', Finset.sdiff_empty]
    · rw [hpending']
      exact hdisjoint
    · rw [hpending', hgranted']
      exact ⟨k, hk, hgranted⟩
    · rw [unserved, unserved, hstate, hbusy, hpending', hgranted']
  · rw [hfin] at hinter
    have hstate : (step s i).state = .S_IDLE := by simp [step, hbusy, hinter, hfin]
    have hpending' : (step s i).pending = s.pending.erase k := by
      rw [← symmDiff_singleton hk]
      simp [step, hbusy, hinter, hfin]
    refine ⟨⟨hstores, hprio.trans h.prio, h.order, ?_, ?_, h.nonempty_arrival i.req,
      fun h' => by rw [hstate] at h'; cases h'⟩, ?_, by simp [selection, hbusy]⟩
    · rw [hqueue, hfin, hpending', members_erase hk hdisjoint]
    · rw [hpending']
      exact pairwise_erase hdisjoint k
    · rw [hunserved, unserved, hstate]
      exact hpending'

/-- One cycle: what is selected is the next one in turn. -/
theorem Waits.next (hN : 2 ^ Nat.clog 2 N = N) (h : Waits s order queue) {i : Input N}
    (hfin : Finishes ⟨s, i⟩) :
    ∃ order' queue', Waits (step s i) order' queue' ∧
      ∀ groups, (turns order (unserved s :: queue ++ arrival s i.req ++ groups)).map (fun k => {k}) =
        selection s i.req ++
          (turns order' (unserved (step s i) :: queue' ++ groups)).map fun k => {k} := by
  cases hstate : s.state with
  | S_IDLE => exact h.idle_next hN hstate hfin
  | S_BUSY =>
    obtain ⟨hnext, hunserved, hselection⟩ := h.busy_next hN hstate hfin
    refine ⟨order, queue ++ arrival s i.req, hnext, fun groups => ?_⟩
    rw [hunserved, hselection, List.nil_append, List.cons_append]

/-- A waiting channel that is not being served is ahead of whatever arrives. -/
theorem Waits.mem_waiting (h : Waits s order queue) {k : Fin N} (hk : k ∈ s.queued)
    (hserved : s.state = .S_BUSY → k ∉ s.granted) : k ∈ members (unserved s :: queue) := by
  rw [h.queued, members_cons, Finset.mem_union] at hk
  rw [members_cons, Finset.mem_union]
  refine hk.imp_left fun hpending => ?_
  unfold unserved
  split
  · exact hpending
  · next hbusy => exact Finset.mem_sdiff.mpr ⟨hpending, hserved hbusy⟩

/-- No channel waits twice. -/
theorem Waits.waiting_disjoint (h : Waits s order queue) :
    (unserved s :: queue).Pairwise Disjoint := by
  have hdisjoint := h.disjoint
  rw [List.pairwise_cons] at hdisjoint ⊢
  refine ⟨fun g hg => (hdisjoint.1 g hg).mono_left ?_, hdisjoint.2⟩
  unfold unserved
  split
  · exact Finset.Subset.refl _
  · exact Finset.sdiff_subset

end Waiting

section Runs

variable {N : Nat} {unknown : Nat → Finset (Fin N)}

theorem arrivals_cons (c : Cycle (Regs N) (Input N)) (h : List (Cycle (Regs N) (Input N))) :
    arrivals (c :: h) = arrival c.state c.input.req ++ arrivals h := rfl

theorem selected_cons (c : Cycle (Regs N) (Input N)) (h : List (Cycle (Regs N) (Input N))) :
    selected (c :: h) = selection c.state c.input.req ++ selected h := rfl

/-- A run goes on with the turns of those that wait and of those that arrive. -/
theorem trace_waits (hN : 2 ^ Nat.clog 2 N = N) (inputs : List (Input N)) {s : Regs N}
    {order : List (Fin N)} {queue : List (Finset (Fin N))} (h : Waits s order queue)
    (hfin : ∀ c ∈ (machine N unknown).traceFrom s inputs, Finishes c) :
    ∃ order' queue', Waits (inputs.foldl step s) order' queue' ∧
      (turns order (unserved s :: queue ++ arrivals ((machine N unknown).traceFrom s inputs))).map
          (fun k => {k}) =
        selected ((machine N unknown).traceFrom s inputs) ++
          (turns order' (unserved (inputs.foldl step s) :: queue')).map fun k => {k} := by
  induction inputs generalizing s order queue with
  | nil => exact ⟨order, queue, h, by simp [Machine.traceFrom, arrivals, selected]⟩
  | cons i inputs ih =>
    obtain ⟨order₁, queue₁, hnext, hturns⟩ := h.next hN (hfin ⟨s, i⟩ List.mem_cons_self)
    obtain ⟨order', queue', hrun, hrest⟩ :=
      ih hnext fun c hc => hfin c (List.mem_cons_of_mem _ hc)
    refine ⟨order', queue', hrun, ?_⟩
    rw [Machine.traceFrom, arrivals_cons, selected_cons, ← List.append_assoc, hturns, List.append_assoc]
    congr 1

/-- At reset nobody waits. -/
theorem reset_waits (N : Nat) (unknown : Nat → Finset (Fin N)) :
    Waits (machine N unknown).reset (List.finRange N) [] where
  stores := ⟨[], 0, rfl, Nat.le_refl 0, .empty (by simp [machine]) _ _, by simp [machine],
    by simp [machine], rfl⟩
  prio := rfl
  order := List.Perm.refl _
  queued := by simp [machine]
  disjoint := by simp
  nonempty := by simp
  busy := fun hbusy => by cases hbusy

/-- In every run those that have been selected are the first in turn, and the others wait. -/
theorem run_waits (hN : 2 ^ Nat.clog 2 N = N) (inputs : List (Input N))
    (hfin : ∀ c ∈ (machine N unknown).trace inputs, Finishes c) :
    ∃ order queue, Waits ((machine N unknown).run inputs) order queue ∧
      (turns (List.finRange N) (arrivals ((machine N unknown).trace inputs))).map (fun k => {k}) =
        selected ((machine N unknown).trace inputs) ++
          (turns order (unserved ((machine N unknown).run inputs) :: queue)).map fun k => {k} := by
  have := trace_waits hN inputs (reset_waits N unknown) hfin
  rwa [show unserved (machine N unknown).reset = ∅ from rfl, List.cons_append, turns_empty_cons] at this

/-- An idle arbiter with a request selects a channel. -/
theorem Waits.selects (hN : 2 ^ Nat.clog 2 N = N) {s : Regs N} {order : List (Fin N)}
    {queue : List (Finset (Fin N))} (h : Waits s order queue) (hidle : s.state = .S_IDLE)
    {req : Finset (Fin N)} (hreq : (s.queued ∪ req).Nonempty) : selection s req ≠ [] := by
  obtain ⟨queue', -, -, hqueued, -, -, hnone⟩ := h.candidates hN hidle req
  have hvalid : (valid_req s req).Nonempty := by
    rw [Finset.nonempty_iff_ne_empty]
    intro hvalid
    rw [hvalid, (hnone hvalid).2] at hqueued
    rw [← hqueued] at hreq
    simp at hreq
  obtain ⟨_, _, k, -, -, -, harbitrate⟩ := h.arbitrate_eq hvalid
  rw [selection, if_pos ⟨hidle, by simp [choice, harbitrate]⟩]
  exact List.cons_ne_nil _ _

/-- A busy arbiter serves the channel that it selected last. -/
theorem run_granted (inputs : List (Input N)) :
    ((machine N unknown).run inputs).state = .S_BUSY →
      (selected ((machine N unknown).trace inputs)).getLast? = some ((machine N unknown).run inputs).granted := by
  refine (machine N unknown).free_history_induction
    (fun h s => s.state = .S_BUSY → (selected h).getLast? = some s.granted)
    (fun hbusy => by cases hbusy) ?_ inputs
  intro h s i ih hbusy
  have hsnoc : selected (h ++ [⟨s, i⟩]) = selected h ++ selection s i.req := by simp [selected]
  change (step s i).state = .S_BUSY at hbusy
  change _ = some (step s i).granted
  rw [hsnoc]
  cases hstate : s.state with
  | S_IDLE =>
    have hchoice : choice s i.req ≠ ∅ := by
      rintro hnone
      simp [step, hstate, hnone] at hbusy
    simp [step, hstate, selection, hchoice]
  | S_BUSY =>
    have hgoing : i.fin ∩ grant s i.req i.ready = ∅ := by
      by_contra hfinished
      simp [step, hstate, hfinished] at hbusy
    simp [step, hstate, selection, hgoing, ih hstate]

/-- Access goes to the channel that has been selected last, if to any. -/
theorem grant_eq_selected (inputs : List (Input N)) (i : Input N)
    (hgrant : grant ((machine N unknown).run inputs) i.req i.ready ≠ ∅) :
    (selected ((machine N unknown).trace (inputs ++ [i]))).getLast? =
      some (grant ((machine N unknown).run inputs) i.req i.ready) := by
  have hbusy := @run_granted N unknown inputs
  have hsnoc : selected ((machine N unknown).trace (inputs ++ [i])) =
      selected ((machine N unknown).trace inputs) ++ selection ((machine N unknown).run inputs) i.req := by
    simp [selected]
  rw [hsnoc]
  generalize (machine N unknown).run inputs = s at *
  cases hready : i.ready with
  | false => exact absurd (by simp [grant, hready]) hgrant
  | true =>
    cases hstate : s.state with
    | S_IDLE =>
      have heq : grant s i.req true = choice s i.req := by simp [grant, hstate]
      rw [hready, heq] at hgrant
      simp [selection, hstate, hgrant, heq]
    | S_BUSY => simp [selection, grant, hstate, hbusy hstate]

/-- Three of four channels request access together, and the first one again when it has finished. -/
def contending : List (Input 4) :=
  let channels (ks : List Nat) : Finset (Fin 4) := Finset.univ.filter fun k => k.val ∈ ks
  [⟨channels [0, 1, 2], ∅, true⟩, ⟨channels [0, 1, 2], channels [0], true⟩,
    ⟨channels [0, 1, 2], channels [1], true⟩, ⟨channels [0, 2], ∅, false⟩,
    ⟨channels [0, 2], channels [2], true⟩, ⟨channels [0], channels [0], true⟩]

/-- Access is granted in turn: groups of requests in the order in which they arrive, and in a group
the channel first whose last turn is longest ago. An idle arbiter lets no request wait, and access
always goes to the one whose turn came last. -/
theorem granted_in_turn (hN : 2 ^ Nat.clog 2 N = N) (inputs : List (Input N))
    (hfin : ∀ c ∈ (machine N unknown).trace inputs, Finishes c) :
    selected ((machine N unknown).trace inputs) <+:
        (turns (List.finRange N) (arrivals ((machine N unknown).trace inputs))).map (fun k => {k}) ∧
      (∀ c ∈ (machine N unknown).trace inputs, c.state.state = .S_IDLE →
        (c.state.queued ∪ c.input.req).Nonempty → selection c.state c.input.req ≠ []) ∧
      ∀ earlier i, earlier ++ [i] <+: inputs →
        grant ((machine N unknown).run earlier) i.req i.ready ≠ ∅ →
          (selected ((machine N unknown).trace (earlier ++ [i]))).getLast? =
            some (grant ((machine N unknown).run earlier) i.req i.ready) := by
  obtain ⟨_, _, -, hturns⟩ := run_waits hN inputs hfin
  refine ⟨hturns ▸ List.prefix_append _ _, fun c hc hidle hreq => ?_,
    fun earlier i _ => grant_eq_selected earlier i⟩
  obtain ⟨earlier, later, hsplit, hstate⟩ := (machine N unknown).mem_trace hc
  obtain ⟨order, queue, hwaits, -⟩ := run_waits hN earlier fun d hd =>
    hfin d (((machine N unknown).trace_initial ⟨c.input :: later, hsplit.symm⟩).subset hd)
  rw [hstate] at hidle hreq ⊢
  exact hwaits.selects hN hidle hreq

theorem granted_in_turn_four :
    selected ((machine 4 fun _ => ∅).trace contending) <+:
        (turns (List.finRange 4) (arrivals ((machine 4 fun _ => ∅).trace contending))).map (fun k => {k}) ∧
      (∀ c ∈ (machine 4 fun _ => ∅).trace contending, c.state.state = .S_IDLE →
        (c.state.queued ∪ c.input.req).Nonempty → selection c.state c.input.req ≠ []) ∧
      ∀ earlier i, earlier ++ [i] <+: contending →
        grant ((machine 4 fun _ => ∅).run earlier) i.req i.ready ≠ ∅ →
          (selected ((machine 4 fun _ => ∅).trace (earlier ++ [i]))).getLast? =
            some (grant ((machine 4 fun _ => ∅).run earlier) i.req i.ready) :=
  granted_in_turn (by norm_num) contending (by decide)

/-- While a channel waits, each other one gets access once at most. -/
theorem none_overtakes (hN : 2 ^ Nat.clog 2 N = N) (earlier later : List (Input N))
    (hfin : ∀ c ∈ (machine N unknown).trace (earlier ++ later), Finishes c) (k : Fin N)
    (hk : k ∈ ((machine N unknown).run earlier).queued)
    (hserved : ((machine N unknown).run earlier).state = .S_BUSY → k ∉ ((machine N unknown).run earlier).granted)
    (hwaits : {k} ∉ selected ((machine N unknown).traceFrom ((machine N unknown).run earlier) later)) :
    (selected ((machine N unknown).traceFrom ((machine N unknown).run earlier) later)).Nodup ∧
      (selected ((machine N unknown).traceFrom ((machine N unknown).run earlier) later)).length < N := by
  rw [(machine N unknown).trace_append] at hfin
  obtain ⟨order, queue, h, -⟩ := run_waits hN earlier fun c hc => hfin c (List.mem_append_left _ hc)
  obtain ⟨_, _, -, hturns⟩ := trace_waits hN later h fun c hc => hfin c (List.mem_append_right _ hc)
  generalize (machine N unknown).run earlier = s at *
  generalize (machine N unknown).traceFrom s later = tr at *
  have hinjective : Function.Injective fun k : Fin N => ({k} : Finset (Fin N)) :=
    fun a b hab => Finset.singleton_injective hab
  have hmem : k ∈ turns order (unserved s :: queue) :=
    (mem_turns h.all).mpr (h.mem_waiting hk hserved)
  have hnodup := turns_nodup h.all h.nodup h.waiting_disjoint
  have hfirst := (turns_initial order (unserved s :: queue) (arrivals tr)).map
    fun k => ({k} : Finset (Fin N))
  rw [hturns] at hfirst
  -- the selected ones end before the turn of `k`
  obtain ⟨rest, hrest⟩ : selected tr <+: (turns order (unserved s :: queue)).map fun k => {k} := by
    rcases List.prefix_or_prefix_of_prefix (List.prefix_append (selected tr) _) hfirst with hle | hge
    · exact hle
    · exact absurd (hge.subset (List.mem_map_of_mem hmem)) hwaits
  have hone := hnodup.map hinjective
  rw [← hrest] at hone
  refine ⟨(List.nodup_append.mp hone).1, ?_⟩
  have hlast : rest ≠ [] := by
    rintro rfl
    rw [List.append_nil] at hrest
    exact hwaits (hrest ▸ List.mem_map_of_mem hmem)
  have hlength := congrArg List.length hrest
  have hle := hnodup.length_le_card
  have hpos := List.length_pos_iff.mpr hlast
  rw [List.length_append, List.length_map] at hlength
  rw [Fintype.card_fin] at hle
  omega

theorem none_overtakes_four :
    let s := (machine 4 fun _ => ∅).run (contending.take 1)
    let later := (contending.drop 1).take 2
    (selected ((machine 4 fun _ => ∅).traceFrom s later)).Nodup ∧
      (selected ((machine 4 fun _ => ∅).traceFrom s later)).length < 4 :=
  none_overtakes (by norm_num) (contending.take 1) ((contending.drop 1).take 2) (by decide) 2
    (by decide) (by decide) (by decide)

end Runs

end reconic.rr_arbiter
