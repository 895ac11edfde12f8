import RecoNIC.Driver.QueueOwnership

open ranges

namespace reconic.qdma_resource_mgmt

/-- A call that may take active queues from a function: its entry is destroyed, or one of its
counts is decremented. -/
def Call.Releases (dma_device_index func_id : Nat) : Call → Prop
  | .qdma_dev_entry_destroy index func => index = dma_device_index ∧ func = func_id
  | .qdma_dev_decrement_active_queue index func _ => index = dma_device_index ∧ func = func_id
  | _ => False

instance (dma_device_index func_id : Nat) (call : Call) :
    Decidable (call.Releases dma_device_index func_id) := by
  cases call <;> simp only [Call.Releases] <;> infer_instance

/-- A function has an active queue, and these queues. -/
def Holds (dma_device_index func_id : Nat) (entry : qdma_resource_entry) (s : Manager) : Prop :=
  ∃ d, qdma_get_dev_entry dma_device_index func_id s = some d ∧ d.active = true ∧ d.entry = entry

theorem holds_iff {dma_device_index func_id : Nat} {entry : qdma_resource_entry} {s : Manager} :
    Holds dma_device_index func_id entry s ↔
      ∃ m, qdma_get_master_resource_entry dma_device_index s = some m ∧
        ∃ d, m.dev_list.find? (fun dev_entry => dev_entry.func_id = func_id) = some d ∧
          d.active = true ∧ d.entry = entry := by
  simp only [Holds, qdma_get_dev_entry, Option.bind_eq_some_iff]
  grind

/-- What one call of another function, or one of the function that does not release a queue,
leaves of the entry of a function in a device. -/
structure Leaves (func_id : Nat) (m m' : qdma_resource_master) : Prop where
  index : m'.dma_device_index = m.dma_device_index
  entry : ∀ d, m.dev_list.find? (fun dev_entry => dev_entry.func_id = func_id) = some d →
    d.active = true → ∃ d', m'.dev_list.find? (fun dev_entry => dev_entry.func_id = func_id) =
      some d' ∧ d'.active = true ∧ d'.entry = d.entry

/-- A device that does not change leaves the function its queues. -/
theorem Leaves.refl (func_id : Nat) (m : qdma_resource_master) : Leaves func_id m m :=
  ⟨rfl, fun d hd hactive => ⟨d, hd, hactive, rfl⟩⟩

/-- Changing another element does not change what is found. -/
theorem find?_replaced {α : Type} {p : α → Bool} {l l' : List α} {a a' : α} (h : ¬ p a = true)
    (h' : ¬ p a' = true) : (l ++ a' :: l').find? p = (l ++ a :: l').find? p := by
  rw [List.find?_append, List.find?_append, List.find?_cons_of_neg h, List.find?_cons_of_neg h']

/-- Erasing another element does not change what is found. -/
theorem find?_erased {α : Type} {p : α → Bool} {l l' : List α} {a : α} (h : ¬ p a = true) :
    (l ++ l').find? p = (l ++ a :: l').find? p := by
  rw [List.find?_append, List.find?_append, List.find?_cons_of_neg h]

/-- A call for one function leaves the others their queues, and the function itself when it does so
in its entry. -/
theorem leaves_on_dev_entry {func_id func : Nat} {m : qdma_resource_master}
    {f : qdma_dev_entry → (Rv × (qdma_resource_master → qdma_resource_master)) × qdma_dev_entry}
    (hfunc : ∀ d, (f d).2.func_id = d.func_id)
    (hrest : ∀ d m, ((f d).1.2 m).dev_list = m.dev_list ∧
      ((f d).1.2 m).dma_device_index = m.dma_device_index)
    (hself : func = func_id → ∀ d ∈ m.dev_list, d.active = true →
      (f d).2.active = true ∧ (f d).2.entry = d.entry) :
    Leaves func_id m (on_dev_entry func f m).2 := by
  by_cases hsame : func = func_id
  · subst hsame
    refine ⟨?_, fun d hd hactive => ?_⟩
    · rcases on_dev_entry_cases func f m with heq | ⟨l, d, l', -, -, heq⟩ <;> rw [heq]
      exact (hrest d _).2
    · obtain ⟨dev_list, heq, hfind⟩ := on_dev_entry_found hd (hfunc d)
      rw [heq]
      refine ⟨(f d).2, ?_, hself rfl d (List.mem_of_find?_eq_some hd) hactive⟩
      rw [(hrest d _).1]
      exact hfind
  · rcases on_dev_entry_cases func f m with heq | ⟨l, d, l', hlist, hd, heq⟩ <;> rw [heq]
    · exact Leaves.refl func_id m
    · refine ⟨(hrest d _).2, fun e he hactive => ⟨e, ?_, hactive, rfl⟩⟩
      rw [(hrest d _).1]
      exact (find?_replaced (by simpa [hd] using hsame) (by simpa [hfunc d, hd] using hsame)).trans
        (hlist ▸ he)

/-- `qdma_dev_update` leaves an active function its queues. -/
theorem update_leaves (func_id func qmax : Nat) (qbase : Int) (mem : Memory)
    (m : qdma_resource_master) :
    Leaves func_id m (update_dev_entry func qmax qbase mem m).2 := by
  refine leaves_on_dev_entry (fun d => ?_) (fun d m' => ?_) (fun _ d _ hactive => ?_)
  · split <;> rfl
  · split <;> exact ⟨rfl, rfl⟩
  · rw [if_pos hactive]
    exact ⟨hactive, rfl⟩

/-- A function with one more active queue is active. -/
theorem active_of_increment {d : qdma_dev_entry} {q_type : qdma_dev_q_type} {n : Nat}
    (hn : n ≠ 0) (h : d.active = true) : (d.set_qcnt n q_type).active = true := by
  cases q_type <;> simp_all [qdma_dev_entry.active, qdma_dev_entry.set_qcnt]

/-- A function has at most as many queues as the device. -/
theorem Kept.total_le {m : qdma_resource_master} (h : Kept m) {d : qdma_dev_entry}
    (hd : d ∈ m.dev_list) : d.entry.total_q ≤ m.total_q := by
  obtain ⟨l, l', hlist⟩ := List.append_of_mem hd
  have hle := Multiset.card_le_card (entry_shares_le h hlist)
  rw [cells_cons, Multiset.card_add, Block.card_cells, Block.card_cells] at hle
  exact (Nat.le_add_right _ _).trans hle

/-- `qdma_dev_increment_active_queue` leaves a function its queues. -/
theorem increment_leaves {m : qdma_resource_master} (h : Kept m) (func_id func : Nat)
    (q_type : qdma_dev_q_type) :
    Leaves func_id m (increment_active_queue func q_type m).2 := by
  refine leaves_on_dev_entry (fun d => ?_) (fun d m' => ?_) (fun _ d hd hactive => ?_)
  · cases d.qcnt q_type with
    | none => rfl
    | some n => dsimp only; split <;> simp
  · cases d.qcnt q_type with
    | none => exact ⟨rfl, rfl⟩
    | some n => dsimp only; split <;> exact ⟨rfl, rfl⟩
  · cases hn : d.qcnt q_type with
    | none => exact ⟨hactive, rfl⟩
    | some n =>
      dsimp only
      split
      · exact ⟨hactive, rfl⟩
      · have hcount := h.counts d hd q_type n hn
        have htotal := h.total_le hd
        have hbase := h.numbered.base
        have hstop := h.numbered.stop
        simp only [qdma_resource_master.window, Block.stop_mk] at hbase hstop
        refine ⟨active_of_increment ?_ hactive, set_qcnt_entry _ _ _⟩
        simp only [uint32]
        omega

/-- `qdma_dev_decrement_active_queue` leaves every other function its queues. -/
theorem decrement_leaves {func_id func : Nat} (hne : func ≠ func_id) (q_type : qdma_dev_q_type)
    (m : qdma_resource_master) : Leaves func_id m (decrement_active_queue func q_type m).2 := by
  refine leaves_on_dev_entry (fun d => ?_) (fun d m' => ?_) (fun heq => absurd heq hne)
  · cases d.qcnt q_type with
    | none => rfl
    | some n => simp
  · cases d.qcnt q_type <;> exact ⟨rfl, rfl⟩

/-- `qdma_dev_entry_create` leaves a function its queues. -/
theorem create_leaves (func_id func : Nat) (mem : Memory) (m : qdma_resource_master) :
    Leaves func_id m (create_dev_entry func mem m).2 := by
  unfold create_dev_entry
  split
  · exact Leaves.refl func_id m
  · split
    · refine ⟨rfl, fun d hd hactive => ⟨d, ?_, hactive, rfl⟩⟩
      dsimp only
      rw [List.find?_append, hd, Option.some_or]
    · exact Leaves.refl func_id m

/-- `qdma_dev_entry_destroy` leaves every other function its queues. -/
theorem destroy_leaves {func_id func : Nat} (hne : func ≠ func_id) (mem : Memory)
    (m : qdma_resource_master) : Leaves func_id m (destroy_dev_entry func mem m).2 := by
  unfold destroy_dev_entry
  split
  · exact Leaves.refl func_id m
  · next d hfind =>
    obtain ⟨l, l', hlist, hfunc, herase⟩ := eraseP_found hfind
    refine ⟨rfl, fun e he hactive => ⟨e, ?_, hactive, rfl⟩⟩
    have hfunc : d.func_id = func := of_decide_eq_true hfunc
    have hd : d.func_id ≠ func_id := hfunc ▸ hne
    rw [hlist] at he
    dsimp only
    rw [herase]
    exact (find?_erased (by simpa using hd)).trans he

/-- What leaves a function its queues on each device does so for all of them. -/
theorem on_master_holds {dma_device_index index func_id : Nat} {entry : qdma_resource_entry}
    {s : Manager} (h : Holds dma_device_index func_id entry s)
    {f : qdma_resource_master → Rv × qdma_resource_master}
    (hindex : ∀ m ∈ s.master_resource_list, (f m).2.dma_device_index = m.dma_device_index)
    (hleaves : index = dma_device_index → ∀ m ∈ s.master_resource_list, Leaves func_id m (f m).2) :
    Holds dma_device_index func_id entry (on_master index f s).2 := by
  obtain ⟨m, hm, d, hd, hactive, hentry⟩ := holds_iff.mp h
  refine holds_iff.mpr ?_
  by_cases hsame : index = dma_device_index
  · subst hsame
    obtain ⟨-, hget⟩ := on_master_found hm (hindex m (List.mem_of_find?_eq_some hm))
    obtain ⟨d', hd', hactive', hentry'⟩ :=
      (hleaves rfl m (List.mem_of_find?_eq_some hm)).entry d hd hactive
    exact ⟨_, hget, d', hd', hactive', hentry'.trans hentry⟩
  · refine ⟨m, ?_, d, hd, hactive, hentry⟩
    rcases on_master_cases index f s with heq | ⟨l, m', l', hlist, hm', heq⟩ <;> rw [heq]
    · exact hm
    · have hnew := hindex m' (by simp [hlist])
      rw [qdma_get_master_resource_entry, hlist] at hm
      exact (find?_replaced (by simpa [hm'] using hsame) (by simpa [hnew, hm'] using hsame)).trans hm

/-- A call that does not release a function's queues leaves them to it. -/
theorem execute_holds {s : Manager} (hkept : s.Kept) {dma_device_index func_id : Nat}
    {entry : qdma_resource_entry} (h : Holds dma_device_index func_id entry s) {call : Call}
    (hcall : ¬ call.Releases dma_device_index func_id) (mem : Memory) :
    Holds dma_device_index func_id entry (call.execute mem s) := by
  cases call with
  | qdma_master_resource_create bus_start bus_end q_base total_q =>
    simp only [Call.execute, qdma_master_resource_create]
    split
    · exact h
    · split
      · obtain ⟨m, hm, hd⟩ := holds_iff.mp h
        refine holds_iff.mpr ⟨m, ?_, hd⟩
        simp only [qdma_get_master_resource_entry] at hm ⊢
        rw [List.find?_append, hm, Option.some_or]
      · exact h
  | qdma_master_resource_destroy index =>
    simp only [Call.execute, qdma_master_resource_destroy]
    split
    · exact h
    · next q_resource hfind =>
      split
      · exact h
      · next hempty =>
        obtain ⟨m, hm, d, hd, hrest⟩ := holds_iff.mp h
        refine holds_iff.mpr ⟨m, ?_, d, hd, hrest⟩
        obtain ⟨l, l', hlist, hindex, herase⟩ := eraseP_found hfind
        -- the function has an entry in its device, so this is another one
        have hother : q_resource.dma_device_index ≠ dma_device_index := by
          intro hsame
          rw [decide_eq_true_eq] at hindex
          rw [← hindex, hsame, hm] at hfind
          cases hfind
          simp only [ne_eq, not_not] at hempty
          rw [hempty] at hd
          cases hd
        rw [qdma_get_master_resource_entry, hlist] at hm
        rw [qdma_get_master_resource_entry]
        dsimp only
        rw [herase]
        exact (find?_erased (by simpa using hother)).trans hm
  | qdma_dev_entry_create index func =>
    exact on_master_holds h (fun m hm => (create_keeps (hkept m hm) func mem).index)
      fun _ m _ => create_leaves func_id func mem m
  | qdma_dev_entry_destroy index func =>
    exact on_master_holds h (fun m hm => (destroy_keeps (hkept m hm) func mem).index)
      fun hindex m _ => destroy_leaves (fun hfunc => hcall ⟨hindex, hfunc⟩) mem m
  | qdma_dev_update index func qmax qbase =>
    exact on_master_holds h (fun m _ => (update_leaves func_id func qmax qbase mem m).index)
      fun _ m _ => update_leaves func_id func qmax qbase mem m
  | qdma_dev_increment_active_queue index func q_type =>
    exact on_master_holds h (fun m hm => (increment_keeps (hkept m hm) func q_type mem).index)
      fun _ m hm => increment_leaves (hkept m hm) func_id func q_type
  | qdma_dev_decrement_active_queue index func q_type =>
    exact on_master_holds h (fun m hm => (decrement_keeps (hkept m hm) func q_type mem).index)
      fun hindex m _ => decrement_leaves (fun hfunc => hcall ⟨hindex, hfunc⟩) q_type m

/-- So does a run of such calls. -/
theorem run_holds {calls : List (Memory × Call)} (hfits : ∀ call ∈ calls, call.2.Fits)
    {dma_device_index func_id : Nat}
    (hcalls : ∀ call ∈ calls, ¬ call.2.Releases dma_device_index func_id) {s : Manager}
    (hkept : s.Kept) {entry : qdma_resource_entry} (h : Holds dma_device_index func_id entry s) :
    Holds dma_device_index func_id entry (s.run calls) := by
  induction calls generalizing s with
  | nil => exact h
  | cons call calls ih =>
    exact ih (fun c hc => hfits c (List.mem_cons_of_mem _ hc))
      (fun c hc => hcalls c (List.mem_cons_of_mem _ hc))
      (execute_keeps hkept (hfits call List.mem_cons_self) call.1).1
      (execute_holds hkept h (hcalls call List.mem_cons_self) call.1)

theorem run_append (s : Manager) (calls more : List (Memory × Call)) :
    s.run (calls ++ more) = (s.run calls).run more := List.foldl_append

/-- From when a function has an active queue its queues stay the same, and at least as many as it
has active ones of each type, whatever it and the other functions request, until its entry is
destroyed or one of its counts is decremented. -/
theorem active_function_keeps_queues {calls more : List (Memory × Call)}
    (hfits : ∀ call ∈ calls ++ more, call.2.Fits) {dma_device_index func_id : Nat}
    {d : qdma_dev_entry}
    (hd : qdma_get_dev_entry dma_device_index func_id (Manager.init.run calls) = some d)
    (hactive : d.active = true)
    (hmore : ∀ call ∈ more, ¬ call.2.Releases dma_device_index func_id) :
    ∃ d', qdma_get_dev_entry dma_device_index func_id (Manager.init.run (calls ++ more)) = some d' ∧
      d'.active = true ∧ d'.entry = d.entry ∧
      ∀ q_type, ∀ n ∈ d'.qcnt q_type, n ≤ d.entry.total_q := by
  have hkept : (Manager.init.run calls).Kept :=
    reached_kept fun c hc => hfits c (List.mem_append_left _ hc)
  obtain ⟨d', hd', hactive', hentry⟩ := run_holds
    (fun c hc => hfits c (List.mem_append_right _ hc)) hmore hkept ⟨d, hd, hactive, rfl⟩
  rw [← run_append] at hd'
  obtain ⟨m, hm, -, -, hmem, -⟩ := get_dev_entry_some hd'
  refine ⟨d', hd', hactive', hentry, fun q_type n hn => ?_⟩
  rw [← hentry]
  exact (reached_kept hfits m hm).counts d' hmem q_type n hn

theorem active_function_keeps_queues_two :
    ∃ d', qdma_get_dev_entry 0 4 (Manager.init.run ((two_functions ++
        [([], .qdma_dev_increment_active_queue 0 4 .QDMA_DEV_Q_TYPE_H2C)]) ++
        [([], .qdma_dev_update 0 0 128 64), ([], .qdma_dev_update 0 4 16 0)])) = some d' ∧
      d'.active = true ∧ d'.entry = ⟨64, 8⟩ ∧ ∀ q_type, ∀ n ∈ d'.qcnt q_type, n ≤ 8 :=
  @active_function_keeps_queues
    (two_functions ++ [([], .qdma_dev_increment_active_queue 0 4 .QDMA_DEV_Q_TYPE_H2C)])
    [([], .qdma_dev_update 0 0 128 64), ([], .qdma_dev_update 0 4 16 0)]
    (by simp [two_functions, Call.Fits, Fits]) 0 4 ⟨4, 1, 0, 0, ⟨64, 8⟩⟩ (by decide) (by decide)
    (by decide)

end reconic.qdma_resource_mgmt
