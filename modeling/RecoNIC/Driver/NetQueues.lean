import RecoNIC.Driver.Resources
import RecoNIC.Driver.StartXmit

open lifetimes

namespace reconic.onic_main

def EINVAL : Int := 22

/-- The functions of libqdma check the state of the queue. `rv` is 0 or the error of what a
function does besides. -/
def qdma_queue_start (rv : Int) (q_state : QState) : Int × QState :=
  if q_state ≠ .ENABLED then (-EINVAL, q_state)
  else if rv = 0 then (0, .ONLINE)
  else (rv, .ENABLED)

def qdma_queue_stop (q_state : QState) : Int × QState :=
  if q_state ≠ .ONLINE then (-EINVAL, q_state) else (0, .ENABLED)

def qdma_queue_remove (rv : Int) (q_state : QState) : Int × QState :=
  if q_state ≠ .ENABLED then (-EINVAL, q_state)
  else if rv = 0 then (0, .DISABLED)
  else (rv, .ENABLED)

/-- A turn of the loop of `onic_qdma_rx_queue_release`. -/
def rx_release_turn (rv : Nat → Int) (s : Priv) (q_no : Nat) : Priv :=
  let s :=
    if s.c2h_descq q_no = .ENABLED then
      let (ret, q_state) := qdma_queue_remove (rv q_no) (s.c2h_descq q_no)
      let s := { s with c2h_descq := Function.update s.c2h_descq q_no q_state }
      if ret = 0 then s.free (.rx_queue q_no) else s
    else s
  if q_no < QDMA_NET_QUEUE then (s.use .napi).free (.napi_entry q_no) else s

def onic_qdma_rx_queue_release (rv : Nat → Int) (s : Priv) (num_queues : Nat) : Priv :=
  let s := (List.range num_queues).foldl (rx_release_turn rv) s
  if s.napi then s.free .napi else s

/-- A turn of the loop of `onic_qdma_tx_queue_release`. -/
def tx_release_turn (rv : Nat → Int) (s : Priv) (q_no : Nat) : Priv :=
  if s.h2c_descq q_no = .ENABLED then
    let (ret, q_state) := qdma_queue_remove (rv q_no) (s.h2c_descq q_no)
    let s := { s with h2c_descq := Function.update s.h2c_descq q_no q_state }
    if ret = 0 then s.free (.tx_queue q_no) else s
  else s

def onic_qdma_tx_queue_release (rv : Nat → Int) (s : Priv) (num_queues : Nat) : Priv :=
  (List.range num_queues).foldl (tx_release_turn rv) s

/-- An event of releasing queues: a look at the napi array, or the end of one of its entries or
of a queue. -/
inductive IsRelease : Event Resource → Prop where
  | use_napi : IsRelease (.use .napi)
  | napi_entry (q_no : Nat) : IsRelease (.free (.napi_entry q_no))
  | rx_queue (q_no : Nat) : IsRelease (.free (.rx_queue q_no))
  | tx_queue (q_no : Nat) : IsRelease (.free (.tx_queue q_no))

/-- What the loops that release queues keep. -/
structure Releases (s s' : Priv) : Prop where
  rx_online : ∀ q, s'.c2h_descq q = .ONLINE ↔ s.c2h_descq q = .ONLINE
  tx_online : ∀ q, s'.h2c_descq q = .ONLINE ↔ s.h2c_descq q = .ONLINE
  active_rx_queues : s'.active_rx_queues = s.active_rx_queues
  active_tx_queues : s'.active_tx_queues = s.active_tx_queues
  napi : s'.napi = s.napi
  log : ∃ events, s'.log = s.log ++ events ∧ ∀ e ∈ events, IsRelease e

theorem Releases.refl (s : Priv) : Releases s s :=
  ⟨fun _ => Iff.rfl, fun _ => Iff.rfl, rfl, rfl, rfl, [], (List.append_nil _).symm,
    fun _ hmem => absurd hmem List.not_mem_nil⟩

theorem Releases.trans {s s' s'' : Priv} (h : Releases s s') (h' : Releases s' s'') :
    Releases s s'' := by
  obtain ⟨events, hevents, hrelease⟩ := h.log
  obtain ⟨events', hevents', hrelease'⟩ := h'.log
  refine ⟨fun q => (h'.rx_online q).trans (h.rx_online q),
    fun q => (h'.tx_online q).trans (h.tx_online q),
    h'.active_rx_queues.trans h.active_rx_queues, h'.active_tx_queues.trans h.active_tx_queues,
    h'.napi.trans h.napi, events ++ events', ?_, ?_⟩
  · rw [hevents', hevents, List.append_assoc]
  · intro e hmem
    rcases List.mem_append.mp hmem with hmem | hmem
    · exact hrelease e hmem
    · exact hrelease' e hmem

/-- A loop releases queues when each of its turns does. -/
theorem Releases.foldl {turn : Priv → Nat → Priv} (hturn : ∀ s q, Releases s (turn s q))
    (queues : List Nat) (s : Priv) : Releases s (queues.foldl turn s) := by
  induction queues generalizing s with
  | nil => exact Releases.refl s
  | cons q queues ih => exact (hturn s q).trans (ih (turn s q))

/-- A queue that is removed was ENABLED, and it is not ONLINE afterwards. -/
theorem update_online {descq : Nat → QState} {q_no : Nat} {q_state : QState}
    (hbefore : descq q_no ≠ .ONLINE) (hafter : q_state ≠ .ONLINE) (q : Nat) :
    Function.update descq q_no q_state q = .ONLINE ↔ descq q = .ONLINE := by
  by_cases hsame : q = q_no
  · subst hsame
    rw [Function.update_self]
    exact iff_of_false hafter hbefore
  · rw [Function.update_of_ne hsame]

theorem qdma_queue_remove_not_online (rv : Int) {q_state : QState} (henabled : q_state = .ENABLED) :
    (qdma_queue_remove rv q_state).2 ≠ .ONLINE := by
  subst henabled
  rw [qdma_queue_remove, if_neg (by simp)]
  split <;> simp

theorem Releases.event (s : Priv) {e : Event Resource} (he : IsRelease e) :
    Releases s { s with log := s.log ++ [e] } := by
  refine ⟨fun _ => Iff.rfl, fun _ => Iff.rfl, rfl, rfl, rfl, [e], rfl, ?_⟩
  intro e' hmem
  rw [List.mem_singleton.mp hmem]
  exact he

theorem rx_release_turn_releases (rv : Nat → Int) (s : Priv) (q_no : Nat) :
    Releases s (rx_release_turn rv s q_no) := by
  have hentry : ∀ s : Priv, Releases s
      (if q_no < QDMA_NET_QUEUE then (s.use .napi).free (.napi_entry q_no) else s) := by
    intro s
    split
    · exact (Releases.event s .use_napi).trans (Releases.event (s.use .napi) (.napi_entry q_no))
    · exact Releases.refl s
  rw [rx_release_turn]
  refine Releases.trans ?_ (hentry _)
  by_cases henabled : s.c2h_descq q_no = .ENABLED
  · have hnot := qdma_queue_remove_not_online (rv q_no) henabled
    rw [if_pos henabled]
    cases hcall : qdma_queue_remove (rv q_no) (s.c2h_descq q_no) with
    | mk ret q_state =>
      rw [hcall] at hnot
      have hremove : Releases s { s with
          c2h_descq := Function.update s.c2h_descq q_no q_state } :=
        { Releases.refl s with rx_online := update_online (by simp [henabled]) hnot }
      apply hremove.trans
      by_cases hret : ret = 0
      · simp only [hret, if_true]
        exact Releases.event _ (.rx_queue q_no)
      · simp only [hret, if_false]
        exact Releases.refl _
  · rw [if_neg henabled]
    exact Releases.refl s

theorem tx_release_turn_releases (rv : Nat → Int) (s : Priv) (q_no : Nat) :
    Releases s (tx_release_turn rv s q_no) := by
  rw [tx_release_turn]
  by_cases henabled : s.h2c_descq q_no = .ENABLED
  · have hnot := qdma_queue_remove_not_online (rv q_no) henabled
    rw [if_pos henabled]
    cases hcall : qdma_queue_remove (rv q_no) (s.h2c_descq q_no) with
    | mk ret q_state =>
      rw [hcall] at hnot
      have hremove : Releases s { s with
          h2c_descq := Function.update s.h2c_descq q_no q_state } :=
        { Releases.refl s with tx_online := update_online (by simp [henabled]) hnot }
      apply hremove.trans
      by_cases hret : ret = 0
      · simp only [hret, if_true]
        exact Releases.event _ (.tx_queue q_no)
      · simp only [hret, if_false]
        exact Releases.refl _
  · rw [if_neg henabled]
    exact Releases.refl s

theorem tx_queue_release_releases (rv : Nat → Int) (s : Priv) (num_queues : Nat) :
    Releases s (onic_qdma_tx_queue_release rv s num_queues) :=
  Releases.foldl (tx_release_turn_releases rv) (List.range num_queues) s

/-- After the Rx queues the napi array goes, once for each call. -/
theorem rx_queue_release_frees_napi (rv : Nat → Int) (s : Priv) (num_queues : Nat)
    (hnapi : s.napi = true) : ∃ mid, Releases s mid ∧
      onic_qdma_rx_queue_release rv s num_queues = mid.free .napi := by
  have hreleases := Releases.foldl (rx_release_turn_releases rv) (List.range num_queues) s
  refine ⟨_, hreleases, ?_⟩
  rw [onic_qdma_rx_queue_release, if_pos (hreleases.napi.trans hnapi)]

/-- A turn of the loops of `onic_qdma_stop`. -/
def stop_turn (descq : Nat → QState) (q : Nat) : Nat → QState :=
  if descq q = .ONLINE then Function.update descq q (qdma_queue_stop (descq q)).2 else descq

/-- It returns 0: `qdma_queue_stop` does not fail for a queue that is ONLINE. -/
def onic_qdma_stop (s : Priv) (txq rxq : Nat) : Priv :=
  { s with
    c2h_descq := (List.range rxq).foldl stop_turn s.c2h_descq
    h2c_descq := (List.range txq).foldl stop_turn s.h2c_descq }

/-- A loop of `onic_qdma_start`, from queue `q_no` on. -/
def start_queues (rv : Nat → Int) (descq : Nat → QState) (q_no : Nat) :
    Nat → Int × (Nat → QState)
  | 0 => (0, descq)
  | more + 1 =>
    let (ret, q_state) := qdma_queue_start (rv q_no) (descq q_no)
    let descq := Function.update descq q_no q_state
    if ret ≠ 0 then (ret, descq) else start_queues rv descq (q_no + 1) more

def onic_qdma_start (rx_rv tx_rv : Nat → Int) (s : Priv) : Int × Priv :=
  let (ret, c2h_descq) := start_queues rx_rv s.c2h_descq 0 s.active_rx_queues
  let s := { s with c2h_descq := c2h_descq }
  if ret ≠ 0 then (ret, onic_qdma_stop s 0 s.active_rx_queues)
  else
    let (ret, h2c_descq) := start_queues tx_rv s.h2c_descq 0 s.active_tx_queues
    let s := { s with h2c_descq := h2c_descq }
    if ret ≠ 0 then (ret, onic_qdma_stop s s.active_tx_queues 0) else (0, s)

/-- The stopping loop stops the queues that it covers, and no other. -/
theorem stop_loop_apply (descq : Nat → QState) (n q : Nat) :
    (List.range n).foldl stop_turn descq q =
      if q < n ∧ descq q = .ONLINE then .ENABLED else descq q := by
  induction n with
  | zero => simp
  | succ n ih =>
    rw [List.range_succ, List.foldl_append, List.foldl_cons, List.foldl_nil, stop_turn]
    by_cases hsame : q = n
    · subst hsame
      by_cases honline : descq q = .ONLINE
      · simp [ih, honline, qdma_queue_stop]
      · simp [ih, honline]
    · have hle : q < n + 1 ↔ q < n := by omega
      refine Eq.trans ?_ (ih.trans (by simp only [hle]))
      split
      · rw [Function.update_of_ne hsame]
      · rfl

theorem start_queues_succ (rv : Nat → Int) (descq : Nat → QState) (q_no more : Nat) :
    start_queues rv descq q_no (more + 1) =
      let call := qdma_queue_start (rv q_no) (descq q_no)
      if call.1 ≠ 0 then (call.1, Function.update descq q_no call.2)
      else start_queues rv (Function.update descq q_no call.2) (q_no + 1) more := rfl

/-- The loop stays within its queues. -/
theorem start_queues_outside (rv : Nat → Int) (descq : Nat → QState) (q_no more : Nat) {q : Nat}
    (hq : q < q_no ∨ q_no + more ≤ q) : (start_queues rv descq q_no more).2 q = descq q := by
  induction more generalizing descq q_no with
  | zero => rfl
  | succ more ih =>
    have hother : q ≠ q_no := by omega
    simp only [start_queues_succ]
    split
    · exact Function.update_of_ne hother ..
    · rw [ih _ (q_no + 1) (by omega), Function.update_of_ne hother]

/-- On queues that are ENABLED the loop succeeds when each start does, and then they are all
ONLINE. -/
theorem start_queues_success (rv : Nat → Int) (descq : Nat → QState) (q_no more : Nat)
    (henabled : ∀ q, q_no ≤ q → q < q_no + more → descq q = .ENABLED) :
    ((start_queues rv descq q_no more).1 = 0 ↔ ∀ q, q_no ≤ q → q < q_no + more → rv q = 0) ∧
      ((start_queues rv descq q_no more).1 = 0 → ∀ q, q_no ≤ q → q < q_no + more →
        (start_queues rv descq q_no more).2 q = .ONLINE) := by
  induction more generalizing descq q_no with
  | zero => exact ⟨iff_of_true rfl (by omega), by omega⟩
  | succ more ih =>
    have hfirst := henabled q_no (Nat.le_refl _) (by omega)
    by_cases hrv : rv q_no = 0
    · have hrest : ∀ q, q_no + 1 ≤ q → q < q_no + 1 + more →
          Function.update descq q_no .ONLINE q = .ENABLED := by
        intro q hlow hhigh
        rw [Function.update_of_ne (by omega)]
        exact henabled q (by omega) (by omega)
      obtain ⟨hret, honline⟩ := ih _ (q_no + 1) hrest
      have hstep : start_queues rv descq q_no (more + 1) =
          start_queues rv (Function.update descq q_no .ONLINE) (q_no + 1) more := by
        simp [start_queues_succ, qdma_queue_start, hfirst, hrv]
      rw [hstep]
      refine ⟨hret.trans ⟨fun h q hlow hhigh => ?_, fun h q hlow hhigh => ?_⟩, ?_⟩
      · rcases Nat.eq_or_lt_of_le hlow with rfl | hlow
        · exact hrv
        · exact h q hlow (by omega)
      · exact h q (by omega) (by omega)
      · intro hdone q hlow hhigh
        rcases Nat.eq_or_lt_of_le hlow with rfl | hlow
        · rw [start_queues_outside _ _ _ _ (.inl (Nat.lt_succ_self _)), Function.update_self]
        · exact honline hdone q hlow (by omega)
    · have hstep : (start_queues rv descq q_no (more + 1)).1 = rv q_no := by
        simp [start_queues_succ, qdma_queue_start, hfirst, hrv]
      rw [hstep]
      refine ⟨iff_of_false hrv fun h => hrv (h q_no (Nat.le_refl _) (by omega)), ?_⟩
      intro hzero
      exact absurd hzero hrv

/-- Nothing changes besides the states of the queues. -/
structure QueuesOnly (s s' : Priv) : Prop where
  active_rx_queues : s'.active_rx_queues = s.active_rx_queues
  active_tx_queues : s'.active_tx_queues = s.active_tx_queues
  napi : s'.napi = s.napi
  log : s'.log = s.log

theorem onic_qdma_start_queuesOnly (rx_rv tx_rv : Nat → Int) (s : Priv) :
    QueuesOnly s (onic_qdma_start rx_rv tx_rv s).2 := by
  simp only [onic_qdma_start]
  split
  · exact ⟨rfl, rfl, rfl, rfl⟩
  · split <;> exact ⟨rfl, rfl, rfl, rfl⟩

/-- No queue that a stop covers stays ONLINE. -/
theorem stop_loop_not_online {descq : Nat → QState} {n q : Nat}
    (hq : q < n ∨ descq q ≠ .ONLINE) : (List.range n).foldl stop_turn descq q ≠ .ONLINE := by
  rw [stop_loop_apply]
  by_cases honline : descq q = .ONLINE
  · have hlt : q < n := hq.resolve_right (not_not_intro honline)
    rw [if_pos ⟨hlt, honline⟩]
    simp
  · rw [if_neg fun h => honline h.2]
    exact honline

/-- The first `n` queues are added, none is started. -/
def Added (descq : Nat → QState) (n : Nat) : Prop :=
  ∀ q, descq q = if q < n then .ENABLED else .DISABLED

theorem Added.not_online {descq : Nat → QState} {n : Nat} (hadded : Added descq n) (q : Nat) :
    descq q ≠ .ONLINE := by
  rw [hadded q]
  split <;> simp

/-- The starting loop over the queues that are added. -/
theorem Added.start {descq : Nat → QState} {n : Nat} (hadded : Added descq n) (rv : Nat → Int) :
    ((start_queues rv descq 0 n).1 = 0 ↔ ∀ q < n, rv q = 0) ∧
      ((start_queues rv descq 0 n).1 = 0 → ∀ q, (start_queues rv descq 0 n).2 q =
        if q < n then .ONLINE else .DISABLED) := by
  obtain ⟨hret, honline⟩ := start_queues_success rv descq 0 n (by
    intro q _ hq
    rw [hadded, if_pos (by omega)])
  simp only [Nat.zero_le, true_imp_iff, Nat.zero_add] at hret honline
  refine ⟨hret, fun hdone q => ?_⟩
  by_cases hq : q < n
  · rw [if_pos hq, honline hdone q hq]
  · rw [if_neg hq, start_queues_outside _ _ _ _ (.inr (by omega)), hadded, if_neg hq]

/-- Where the loop fails, a stop of its queues is enough. -/
theorem Added.start_stop {descq : Nat → QState} {n : Nat} (hadded : Added descq n)
    (rv : Nat → Int) (q : Nat) :
    (List.range n).foldl stop_turn (start_queues rv descq 0 n).2 q ≠ .ONLINE := by
  apply stop_loop_not_online
  by_cases hq : q < n
  · exact .inl hq
  · rw [start_queues_outside _ _ _ _ (.inr (by omega))]
    exact .inr (hadded.not_online q)

/-- After a full start, a full stop leaves the queues as they were added. -/
theorem added_of_stop {descq : Nat → QState} {n : Nat}
    (honline : ∀ q, descq q = if q < n then .ONLINE else .DISABLED) :
    Added ((List.range n).foldl stop_turn descq) n := by
  intro q
  rw [stop_loop_apply, honline]
  by_cases hq : q < n
  · simp [hq]
  · simp [hq]

def NoneOnline (s : Priv) : Prop := ∀ q, s.c2h_descq q ≠ .ONLINE ∧ s.h2c_descq q ≠ .ONLINE

section Start

variable {s : Priv} {rx_rv tx_rv : Nat → Int} (hrx : Added s.c2h_descq s.active_rx_queues)
  (htx : Added s.h2c_descq s.active_tx_queues)

include hrx htx

/-- An Rx queue that does not start: the Rx queues are stopped, and no Tx queue was started. -/
theorem onic_qdma_start_rx_fails (hfails : ∃ q < s.active_rx_queues, rx_rv q ≠ 0) :
    (onic_qdma_start rx_rv tx_rv s).1 ≠ 0 ∧ NoneOnline (onic_qdma_start rx_rv tx_rv s).2 := by
  have hret : (start_queues rx_rv s.c2h_descq 0 s.active_rx_queues).1 ≠ 0 := by
    obtain ⟨q, hq, hrv⟩ := hfails
    exact fun hzero => hrv ((hrx.start rx_rv).1.mp hzero q hq)
  simp only [onic_qdma_start, if_pos hret]
  exact ⟨hret, fun q => ⟨hrx.start_stop rx_rv q, htx.not_online q⟩⟩

/-- A Tx queue that does not start: only the Tx queues are stopped. -/
theorem onic_qdma_start_tx_fails (hdone : ∀ q < s.active_rx_queues, rx_rv q = 0)
    (hfails : ∃ q < s.active_tx_queues, tx_rv q ≠ 0) :
    (onic_qdma_start rx_rv tx_rv s).1 ≠ 0 ∧
      (NoneOnline (onic_qdma_start rx_rv tx_rv s).2 ↔ s.active_rx_queues = 0) := by
  obtain ⟨hret, honline⟩ := hrx.start rx_rv
  have hzero := hret.mpr hdone
  have htx_ret : (start_queues tx_rv s.h2c_descq 0 s.active_tx_queues).1 ≠ 0 := by
    obtain ⟨q, hq, hrv⟩ := hfails
    exact fun h => hrv ((htx.start tx_rv).1.mp h q hq)
  simp only [onic_qdma_start, if_neg (not_not_intro hzero), if_pos htx_ret]
  refine ⟨htx_ret, fun hnone => ?_, fun hnobody q => ⟨?_, htx.start_stop tx_rv q⟩⟩
  · by_contra hsome
    have hfirst := honline hzero 0
    rw [if_pos (Nat.pos_of_ne_zero hsome)] at hfirst
    exact (hnone 0).1 hfirst
  · have hoffline := honline hzero q
    rw [if_neg (by omega)] at hoffline
    have hnot : (start_queues rx_rv s.c2h_descq 0 s.active_rx_queues).2 q ≠ .ONLINE := by
      rw [hoffline]
      simp
    exact stop_loop_not_online (.inr hnot)

theorem onic_qdma_start_succeeds (hrx_done : ∀ q < s.active_rx_queues, rx_rv q = 0)
    (htx_done : ∀ q < s.active_tx_queues, tx_rv q = 0) :
    (onic_qdma_start rx_rv tx_rv s).1 = 0 ∧
      (∀ q, (onic_qdma_start rx_rv tx_rv s).2.c2h_descq q =
        if q < s.active_rx_queues then .ONLINE else .DISABLED) ∧
      ∀ q, (onic_qdma_start rx_rv tx_rv s).2.h2c_descq q =
        if q < s.active_tx_queues then .ONLINE else .DISABLED := by
  obtain ⟨hrx_ret, hrx_online⟩ := hrx.start rx_rv
  obtain ⟨htx_ret, htx_online⟩ := htx.start tx_rv
  have hrx_zero := hrx_ret.mpr hrx_done
  have htx_zero := htx_ret.mpr htx_done
  simp only [onic_qdma_start, if_neg (not_not_intro hrx_zero), if_neg (not_not_intro htx_zero)]
  exact ⟨trivial, hrx_online hrx_zero, htx_online htx_zero⟩

/-- It succeeds when every queue starts. -/
theorem onic_qdma_start_eq_zero_iff : (onic_qdma_start rx_rv tx_rv s).1 = 0 ↔
    (∀ q < s.active_rx_queues, rx_rv q = 0) ∧ ∀ q < s.active_tx_queues, tx_rv q = 0 := by
  constructor
  · intro hzero
    have hrx_done : ∀ q < s.active_rx_queues, rx_rv q = 0 := by
      by_contra hsome
      push Not at hsome
      exact (onic_qdma_start_rx_fails hrx htx hsome).1 hzero
    refine ⟨hrx_done, ?_⟩
    by_contra hsome
    push Not at hsome
    exact (onic_qdma_start_tx_fails hrx htx hrx_done hsome).1 hzero
  · rintro ⟨hrx_done, htx_done⟩
    exact (onic_qdma_start_succeeds hrx htx hrx_done htx_done).1

end Start

end reconic.onic_main
