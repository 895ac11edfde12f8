import RecoNIC.Driver.QueueSharing

open ranges

namespace reconic.qdma_resource_mgmt

/-- The first element for which `p` holds is changed, and found again if `p` still holds of it. -/
theorem on_first_some {α β : Type} {p : α → Bool} {f : α → β × α} {l l' : List α} {b : β}
    (h : on_first p f l = some (b, l')) : ∃ l₁ a l₂, l = l₁ ++ a :: l₂ ∧ p a = true ∧
      l.find? p = some a ∧ b = (f a).1 ∧ l' = l₁ ++ (f a).2 :: l₂ ∧
      (p (f a).2 = true → l'.find? p = some (f a).2) := by
  induction l generalizing b l' with
  | nil => cases h
  | cons a l ih =>
    rw [on_first] at h
    split at h
    · next hp =>
      cases h
      exact ⟨[], a, l, rfl, hp, List.find?_cons_of_pos hp, rfl, rfl, fun h => List.find?_cons_of_pos h⟩
    · next hp =>
      obtain ⟨⟨b', l''⟩, hr, heq⟩ := Option.map_eq_some_iff.mp h
      cases heq
      obtain ⟨l₁, c, l₂, rfl, hc, hfind, rfl, rfl, hlast⟩ := ih hr
      refine ⟨a :: l₁, c, l₂, rfl, hc, ?_, rfl, rfl, fun h => ?_⟩
      · rw [List.find?_cons_of_neg hp, hfind]
      · rw [List.find?_cons_of_neg hp]
        exact hlast h

/-- Nothing is changed when `p` holds nowhere. -/
theorem on_first_none {α β : Type} {p : α → Bool} {f : α → β × α} {l : List α} :
    on_first p f l = none ↔ l.find? p = none := by
  induction l with
  | nil => simp [on_first]
  | cons a l ih =>
    rw [on_first]
    split
    · next hp => simp [List.find?_cons_of_pos hp]
    · next hp => rw [Option.map_eq_none_iff, ih, List.find?_cons_of_neg hp]

/-- What the function found is changed to. -/
theorem on_first_of_find {α β : Type} {p : α → Bool} {f : α → β × α} {l : List α} {a : α}
    (h : l.find? p = some a) : ∃ l', on_first p f l = some ((f a).1, l') ∧
      (p (f a).2 = true → l'.find? p = some (f a).2) := by
  cases hr : on_first p f l with
  | none => rw [on_first_none.mp hr] at h; cases h
  | some r =>
    obtain ⟨b, l'⟩ := r
    obtain ⟨_, c, _, -, -, hfind, rfl, -, hlast⟩ := on_first_some hr
    rw [h] at hfind
    cases hfind
    exact ⟨l', rfl, hlast⟩

/-- The first entry with a property is taken out of the list. -/
theorem eraseP_found {α : Type} {p : α → Bool} {l : List α} {a : α} (h : l.find? p = some a) :
    ∃ l₁ l₂, l = l₁ ++ a :: l₂ ∧ p a = true ∧ l.eraseP p = l₁ ++ l₂ := by
  obtain ⟨ha, l₁, l₂, rfl, hfirst⟩ := List.find?_eq_some_iff_append.mp h
  refine ⟨l₁, l₂, rfl, ha, ?_⟩
  rw [List.eraseP_append_right _ (by simpa using hfirst), List.eraseP_cons_of_pos ha]

/-- The queues of a device. -/
def qdma_resource_master.window (q_resource : qdma_resource_master) : Block :=
  ⟨q_resource.qbase, q_resource.total_q⟩

/-- The queues of the functions and the free ones. -/
def qdma_resource_master.shares (q_resource : qdma_resource_master) : List Block :=
  blocks (q_resource.dev_list.map qdma_dev_entry.entry) ++ blocks q_resource.free_list

/-- What holds of a device: no queue has two places, and no function has more active queues of
a type than queues. -/
structure Kept (q_resource : qdma_resource_master) : Prop where
  numbered : Numbered q_resource.window
  functions : (q_resource.dev_list.map qdma_dev_entry.func_id).Nodup
  shares : cells q_resource.shares ≤ q_resource.window.cells
  tidy : Tidy q_resource.window q_resource.free_list
  top : ∀ d ∈ q_resource.dev_list, d.entry.qbase + d.entry.total_q ≤ q_resource.window.stop
  counts : ∀ d ∈ q_resource.dev_list, ∀ q_type, ∀ n ∈ d.qcnt q_type, n ≤ d.entry.total_q

/-- No queue of a device is lost. -/
def Whole (q_resource : qdma_resource_master) : Prop :=
  cells q_resource.shares = q_resource.window.cells

/-- The queues of one function, those of the others and the free ones make up the shares. -/
theorem shares_split {m : qdma_resource_master} {l l' : List qdma_dev_entry} {d : qdma_dev_entry}
    (h : m.dev_list = l ++ d :: l') :
    cells m.shares = cells (blocks ((l ++ l').map qdma_dev_entry.entry)) +
      cells (d.entry.block :: blocks m.free_list) := by
  simp only [qdma_resource_master.shares, h, List.map_append, List.map_cons, blocks_append,
    blocks_cons, cells_append, cells_cons]
  ac_rfl

/-- The entry of a function is replaced, together with the free list. -/
theorem Kept.replace {m : qdma_resource_master} (h : Kept m) {l l' : List qdma_dev_entry}
    {d : qdma_dev_entry} (hlist : m.dev_list = l ++ d :: l') (d' : qdma_dev_entry) (hfunc : d'.func_id = d.func_id)
    {free_list : List qdma_resource_entry} (htidy : Tidy m.window free_list)
    (hcells : cells (d'.entry.block :: blocks free_list) ≤
      cells (d.entry.block :: blocks m.free_list))
    (htop : d'.entry.qbase + d'.entry.total_q ≤ m.window.stop)
    (hcounts : ∀ q_type, ∀ n ∈ d'.qcnt q_type, n ≤ d'.entry.total_q) (active_qcnt : Nat) :
    Kept { m with dev_list := l ++ d' :: l', free_list, active_qcnt } := by
  have hmem : ∀ e ∈ l ++ d' :: l', e = d' ∨ e ∈ m.dev_list := by
    rw [hlist]
    simp only [List.mem_append, List.mem_cons]
    tauto
  refine ⟨h.numbered, ?_, ?_, htidy, fun e he => ?_, fun e he => ?_⟩
  · have := h.functions
    rw [hlist] at this
    simpa only [List.map_append, List.map_cons, hfunc] using this
  · refine le_trans ?_ h.shares
    rw [shares_split hlist, shares_split (m := { m with
      dev_list := l ++ d' :: l', free_list := free_list, active_qcnt := active_qcnt }) rfl]
    exact add_le_add_right hcells _
  · rcases hmem e he with rfl | he
    · exact htop
    · exact h.top e he
  · rcases hmem e he with rfl | he
    · exact hcounts
    · exact h.counts e he

/-- A device stays whole when one function and the free list have the same queues together. -/
theorem Whole.replace {m : qdma_resource_master} (h : Whole m) {l l' : List qdma_dev_entry}
    {d : qdma_dev_entry} (hlist : m.dev_list = l ++ d :: l') (d' : qdma_dev_entry)
    {free_list : List qdma_resource_entry}
    (hcells : cells (d'.entry.block :: blocks free_list) =
      cells (d.entry.block :: blocks m.free_list)) (active_qcnt : Nat) :
    Whole { m with dev_list := l ++ d' :: l', free_list, active_qcnt } := by
  unfold Whole
  rw [shares_split (m := { m with
    dev_list := l ++ d' :: l', free_list := free_list, active_qcnt := active_qcnt }) rfl]
  exact (congrArg _ hcells).trans ((shares_split hlist).symm.trans h)

/-- What a call does to the master resource of its device. -/
structure Keeps (mem : Memory) (m m' : qdma_resource_master) : Prop where
  kept : Kept m'
  whole : Plenty mem → Whole m → Whole m'
  index : m'.dma_device_index = m.dma_device_index
  window : m'.window = m.window

/-- A device that does not change keeps its invariant. -/
theorem Kept.keeps {m : qdma_resource_master} (h : Kept m) (mem : Memory) : Keeps mem m m :=
  ⟨h, fun _ hm => hm, rfl, rfl⟩

/-- A call for a function that has no entry changes nothing, and otherwise just that entry. -/
theorem on_dev_entry_cases (func_id : Nat)
    (f : qdma_dev_entry → (Rv × (qdma_resource_master → qdma_resource_master)) × qdma_dev_entry)
    (m : qdma_resource_master) :
    on_dev_entry func_id f m = (.QDMA_ERR_RM_DEV_NOT_EXISTS, m) ∨
      ∃ l d l', m.dev_list = l ++ d :: l' ∧ d.func_id = func_id ∧
        on_dev_entry func_id f m =
          ((f d).1.1, (f d).1.2 { m with dev_list := l ++ (f d).2 :: l' }) := by
  unfold on_dev_entry
  cases hr : on_first (fun dev_entry => dev_entry.func_id = func_id) f m.dev_list with
  | none => exact .inl rfl
  | some r =>
    obtain ⟨b, dev_list⟩ := r
    obtain ⟨l, d, l', hlist, hfunc, -, rfl, rfl, -⟩ := on_first_some hr
    exact .inr ⟨l, d, l', hlist, by simpa using hfunc, rfl⟩

/-- Setting one count leaves the other ones. -/
theorem qcnt_set_qcnt {d : qdma_dev_entry} {n : Nat} {q_type q_type' : qdma_dev_q_type} {k : Nat}
    (h : k ∈ (d.set_qcnt n q_type).qcnt q_type') : k = n ∨ k ∈ d.qcnt q_type' := by
  cases q_type <;> cases q_type' <;>
    simp_all [qdma_dev_entry.set_qcnt, qdma_dev_entry.qcnt]

@[simp] theorem set_qcnt_entry (d : qdma_dev_entry) (n : Nat) (q_type : qdma_dev_q_type) :
    (d.set_qcnt n q_type).entry = d.entry := by cases q_type <;> rfl

@[simp] theorem set_qcnt_func_id (d : qdma_dev_entry) (n : Nat) (q_type : qdma_dev_q_type) :
    (d.set_qcnt n q_type).func_id = d.func_id := by cases q_type <;> rfl

/-- A function that is not active has no active queues. -/
theorem qcnt_of_inactive {d : qdma_dev_entry} (h : ¬ d.active = true) {q_type : qdma_dev_q_type}
    {n : Nat} (hn : n ∈ d.qcnt q_type) : n = 0 := by
  simp only [qdma_dev_entry.active, decide_eq_true_eq, not_or, not_not] at h
  cases q_type <;> simp_all [qdma_dev_entry.qcnt]

/-- The queues of one function and the free ones lie in the device's window. -/
theorem entry_shares_le {m : qdma_resource_master} (h : Kept m) {l l' : List qdma_dev_entry}
    {d : qdma_dev_entry} (hlist : m.dev_list = l ++ d :: l') :
    cells (d.entry.block :: blocks m.free_list) ≤ m.window.cells := by
  refine le_trans ?_ h.shares
  rw [shares_split hlist]
  exact Multiset.le_add_left _ _

/-- `qdma_dev_update` keeps the invariant of the device. -/
theorem update_keeps {m : qdma_resource_master} (h : Kept m) (func_id : Nat) {qmax : Nat}
    {qbase : Int} (hfits : Fits qmax qbase) (mem : Memory) :
    Keeps mem m (update_dev_entry func_id qmax qbase mem m).2 := by
  unfold update_dev_entry
  rcases on_dev_entry_cases func_id _ m with heq | ⟨l, d, l', hlist, -, heq⟩ <;> rw [heq]
  · exact h.keeps mem
  · have hd : d ∈ m.dev_list := by simp [hlist]
    split
    · exact hlist ▸ h.keeps mem
    · next hactive =>
      have hr := requested h.numbered hfits h.tidy (entry_shares_le h hlist) (h.top d hd) mem
      have hzero : ∀ q_type, ∀ n ∈ d.qcnt q_type, n ≤ 0 := fun q_type n hn =>
        (qcnt_of_inactive hactive hn).le
      refine ⟨?_, fun hp hm => ?_, rfl, rfl⟩
      · exact h.replace hlist { d with
          entry := (qdma_request_q_resource d.entry qmax qbase m.free_list mem).2.entry }
          rfl hr.tidy hr.cells_le hr.top
          (fun q_type n hn => (hzero q_type n hn).trans (Nat.zero_le _)) _
      · exact hm.replace hlist { d with
          entry := (qdma_request_q_resource d.entry qmax qbase m.free_list mem).2.entry }
          (hr.cells_eq hp) _

/-- So does `qdma_dev_increment_active_queue`. -/
theorem increment_keeps {m : qdma_resource_master} (h : Kept m) (func_id : Nat)
    (q_type : qdma_dev_q_type) (mem : Memory) :
    Keeps mem m (increment_active_queue func_id q_type m).2 := by
  unfold increment_active_queue
  rcases on_dev_entry_cases func_id _ m with heq | ⟨l, d, l', hlist, -, heq⟩ <;> rw [heq]
  · exact h.keeps mem
  · have hd : d ∈ m.dev_list := by simp [hlist]
    cases hq : d.qcnt q_type with
    | none => exact hlist ▸ h.keeps mem
    | some n =>
      dsimp only
      split
      · exact hlist ▸ h.keeps mem
      · next hroom =>
        refine ⟨h.replace hlist _ (set_qcnt_func_id _ _ _) h.tidy (by rw [set_qcnt_entry])
          (by rw [set_qcnt_entry]; exact h.top d hd) (fun t k hk => ?_) _,
          fun _ hm => hm.replace hlist _ (by rw [set_qcnt_entry]) _, rfl, rfl⟩
        rw [set_qcnt_entry]
        rcases qcnt_set_qcnt hk with rfl | hk
        · exact Nat.not_lt.mp hroom
        · exact h.counts d hd t k hk

/-- So does `qdma_dev_decrement_active_queue`. -/
theorem decrement_keeps {m : qdma_resource_master} (h : Kept m) (func_id : Nat)
    (q_type : qdma_dev_q_type) (mem : Memory) :
    Keeps mem m (decrement_active_queue func_id q_type m).2 := by
  unfold decrement_active_queue
  rcases on_dev_entry_cases func_id _ m with heq | ⟨l, d, l', hlist, -, heq⟩ <;> rw [heq]
  · exact h.keeps mem
  · have hd : d ∈ m.dev_list := by simp [hlist]
    cases hq : d.qcnt q_type with
    | none => exact ⟨h.replace hlist d rfl h.tidy le_rfl (h.top d hd) (h.counts d hd) _,
        fun _ hm => hm.replace hlist d rfl _, rfl, rfl⟩
    | some n =>
      refine ⟨h.replace hlist _ (set_qcnt_func_id _ _ _) h.tidy (by rw [set_qcnt_entry])
        (by rw [set_qcnt_entry]; exact h.top d hd) (fun t k hk => ?_) _,
        fun _ hm => hm.replace hlist _ (by rw [set_qcnt_entry]) _, rfl, rfl⟩
      rw [set_qcnt_entry]
      rcases qcnt_set_qcnt hk with rfl | hk
      · have := h.counts d hd q_type n hq
        omega
      · exact h.counts d hd t k hk

/-- So does `qdma_dev_entry_create`. -/
theorem create_keeps {m : qdma_resource_master} (h : Kept m) (func_id : Nat) (mem : Memory) :
    Keeps mem m (create_dev_entry func_id mem m).2 := by
  unfold create_dev_entry
  split
  · exact h.keeps mem
  · next hfind =>
    split
    · have hshares : cells (qdma_resource_master.shares { m with
          dev_list := m.dev_list ++ [⟨func_id, 0, 0, 0, ⟨-1, 0⟩⟩] }) = cells m.shares := by
        simp [qdma_resource_master.shares, qdma_resource_entry.block]
      refine ⟨⟨h.numbered, ?_, hshares.le.trans h.shares, h.tidy, fun d hd => ?_, fun d hd => ?_⟩,
        fun _ hm => hshares.trans hm, rfl, rfl⟩
      · rw [List.map_append, List.nodup_append]
        refine ⟨h.functions, List.nodup_singleton _, ?_⟩
        rintro _ ha _ hb rfl
        obtain ⟨d, hd, hfunc⟩ := List.mem_map.mp ha
        rw [List.map_singleton, List.mem_singleton] at hb
        have := List.find?_eq_none.mp hfind d hd
        simp_all
      · rcases List.mem_append.mp hd with hd | hd
        · exact h.top d hd
        · rw [List.mem_singleton.mp hd]
          have := h.numbered.base
          simp only [qdma_resource_master.window, Block.stop] at this ⊢
          omega
      · rcases List.mem_append.mp hd with hd | hd
        · exact h.counts d hd
        · rw [List.mem_singleton.mp hd]
          intro q_type n hn
          cases q_type <;> simp_all [qdma_dev_entry.qcnt]
    · exact h.keeps mem

/-- So does `qdma_dev_entry_destroy`, which gives the queues back. -/
theorem destroy_keeps {m : qdma_resource_master} (h : Kept m) (func_id : Nat) (mem : Memory) :
    Keeps mem m (destroy_dev_entry func_id mem m).2 := by
  unfold destroy_dev_entry
  split
  · exact h.keeps mem
  · next d hfind =>
    obtain ⟨l, l', hlist, -, herase⟩ := eraseP_found hfind
    have hr := given_back h.numbered h.tidy (entry_shares_le h hlist) mem
    rw [herase]
    generalize qdma_submit_to_free_list d.entry m.free_list mem = r at hr
    obtain ⟨given, free_list, mem'⟩ := r
    have hsub : (l ++ l').Sublist m.dev_list := by
      rw [hlist]
      exact (List.sublist_cons_self d l').append_left l
    have hrest : cells (qdma_resource_master.shares { m with
        dev_list := l ++ l', free_list := free_list }) =
        cells (blocks ((l ++ l').map qdma_dev_entry.entry)) + cells (blocks free_list) := by
      simp only [qdma_resource_master.shares, cells_append]
    have hback : cells (given.block :: blocks free_list) =
        cells (d.entry.block :: blocks m.free_list) := hr.cells
    refine ⟨⟨h.numbered, ?_, ?_, hr.tidy, fun e he => h.top e (hsub.subset he),
      fun e he => h.counts e (hsub.subset he)⟩, fun hp hm => ?_, rfl, rfl⟩
    · exact h.functions.sublist (hsub.map _)
    · refine hrest.le.trans (le_trans ?_ h.shares)
      rw [shares_split hlist, ← hback, cells_cons]
      exact add_le_add_right (Multiset.le_add_left _ _) _
    · have hnone : given.total_q = 0 := hr.emptied hp
      refine hrest.trans (Eq.trans ?_ hm)
      rw [shares_split hlist, ← hback, cells_cons]
      simp [qdma_resource_entry.block, hnone]

/-- What holds of every device of the manager. -/
def Manager.Kept (s : Manager) : Prop := ∀ m ∈ s.master_resource_list, qdma_resource_mgmt.Kept m

def Manager.Whole (s : Manager) : Prop := ∀ m ∈ s.master_resource_list, qdma_resource_mgmt.Whole m

/-- A call for a device that is not there changes nothing, and otherwise just that device. -/
theorem on_master_cases (dma_device_index : Nat)
    (f : qdma_resource_master → Rv × qdma_resource_master) (s : Manager) :
    on_master dma_device_index f s = (.QDMA_ERR_RM_RES_NOT_EXISTS, s) ∨
      ∃ l m l', s.master_resource_list = l ++ m :: l' ∧ m.dma_device_index = dma_device_index ∧
        on_master dma_device_index f s =
          ((f m).1, { s with master_resource_list := l ++ (f m).2 :: l' }) := by
  unfold on_master
  cases hr : on_first (fun q_resource => q_resource.dma_device_index = dma_device_index) f
      s.master_resource_list with
  | none => exact .inl rfl
  | some r =>
    obtain ⟨b, list⟩ := r
    obtain ⟨l, m, l', hlist, hindex, -, rfl, rfl, -⟩ := on_first_some hr
    exact .inr ⟨l, m, l', hlist, by simpa using hindex, rfl⟩

/-- What keeps the invariant of each device keeps it for all of them. -/
theorem on_master_keeps {mem : Memory} {s : Manager} (h : s.Kept) (dma_device_index : Nat)
    {f : qdma_resource_master → Rv × qdma_resource_master}
    (hf : ∀ m, Kept m → Keeps mem m (f m).2) :
    (on_master dma_device_index f s).2.Kept ∧
      (Plenty mem → s.Whole → (on_master dma_device_index f s).2.Whole) := by
  rcases on_master_cases dma_device_index f s with heq | ⟨l, m, l', hlist, -, heq⟩ <;> rw [heq]
  · exact ⟨h, fun _ => id⟩
  · have hm : m ∈ s.master_resource_list := by simp [hlist]
    have hmem : ∀ e ∈ l ++ (f m).2 :: l', e = (f m).2 ∨ e ∈ s.master_resource_list := by
      rw [hlist]
      simp only [List.mem_append, List.mem_cons]
      tauto
    have hkeeps := hf m (h m hm)
    refine ⟨fun e he => ?_, fun hp hw e he => ?_⟩
    · rcases hmem e he with rfl | he
      · exact hkeeps.kept
      · exact h e he
    · rcases hmem e he with rfl | he
      · exact hkeeps.whole hp (hw m hm)
      · exact hw e he

/-- A call with numbers that an `int` can count: the queues of a device are created at
non-negative numbers, and the sum of a requested base and the number of queues does not wrap
around. -/
def Call.Fits : Call → Prop
  | .qdma_master_resource_create _ _ q_base total_q => 0 ≤ q_base ∧ q_base + total_q ≤ 2 ^ 31
  | .qdma_dev_update _ _ qmax qbase => qdma_resource_mgmt.Fits qmax qbase
  | _ => True

/-- A new device has all of its queues free. -/
theorem created_kept {q_base : Int} {total_q : Nat} (hbase : 0 ≤ q_base)
    (htop : q_base + total_q ≤ 2 ^ 31) (index bus_start bus_end : Nat) :
    Kept ⟨index, bus_start, bus_end, total_q, q_base, [], [⟨q_base, total_q⟩], 0⟩ := by
  refine ⟨⟨hbase, htop⟩, List.nodup_nil, ?_, ⟨?_, List.pairwise_singleton _ _, ?_⟩, ?_, ?_⟩
  · simp [qdma_resource_master.shares, qdma_resource_master.window, qdma_resource_entry.block]
  · simp [Within, qdma_resource_master.window, qdma_resource_entry.block]
  · simp [qdma_resource_master.window, qdma_resource_entry.block]
  · simp
  · simp

/-- Every call keeps the invariant of all devices. -/
theorem execute_keeps {s : Manager} (h : s.Kept) {call : Call} (hfits : call.Fits) (mem : Memory) :
    (call.execute mem s).Kept ∧ (Plenty mem → s.Whole → (call.execute mem s).Whole) := by
  cases call with
  | qdma_master_resource_create bus_start bus_end q_base total_q =>
    simp only [Call.execute, qdma_master_resource_create]
    split
    · exact ⟨h, fun _ => id⟩
    · split
      · refine ⟨fun m hm => ?_, fun _ hw m hm => ?_⟩
        · rcases List.mem_append.mp hm with hm | hm
          · exact h m hm
          · rw [List.mem_singleton.mp hm]
            exact created_kept hfits.1 hfits.2 _ _ _
        · rcases List.mem_append.mp hm with hm | hm
          · exact hw m hm
          · rw [List.mem_singleton.mp hm]
            simp [Whole, qdma_resource_master.shares, qdma_resource_master.window,
              qdma_resource_entry.block]
      · exact ⟨h, fun _ => id⟩
  | qdma_master_resource_destroy dma_device_index =>
    simp only [Call.execute, qdma_master_resource_destroy]
    split
    · exact ⟨h, fun _ => id⟩
    · split
      · exact ⟨h, fun _ => id⟩
      · exact ⟨fun m hm => h m (List.mem_of_mem_eraseP hm),
          fun _ hw m hm => hw m (List.mem_of_mem_eraseP hm)⟩
  | qdma_dev_entry_create dma_device_index func_id =>
    exact on_master_keeps h dma_device_index fun m hm => create_keeps hm func_id mem
  | qdma_dev_entry_destroy dma_device_index func_id =>
    exact on_master_keeps h dma_device_index fun m hm => destroy_keeps hm func_id mem
  | qdma_dev_update dma_device_index func_id qmax qbase =>
    exact on_master_keeps h dma_device_index fun m hm => update_keeps hm func_id hfits mem
  | qdma_dev_increment_active_queue dma_device_index func_id q_type =>
    exact on_master_keeps h dma_device_index fun m hm => increment_keeps hm func_id q_type mem
  | qdma_dev_decrement_active_queue dma_device_index func_id q_type =>
    exact on_master_keeps h dma_device_index fun m hm => decrement_keeps hm func_id q_type mem

/-- Every run of calls keeps the invariant. -/
theorem run_kept {calls : List (Memory × Call)} (hfits : ∀ call ∈ calls, call.2.Fits) {s : Manager}
    (h : s.Kept) : (s.run calls).Kept := by
  induction calls generalizing s with
  | nil => exact h
  | cons call calls ih =>
    exact ih (fun c hc => hfits c (List.mem_cons_of_mem _ hc))
      (execute_keeps h (hfits call List.mem_cons_self) call.1).1

/-- In a run in which no allocation fails no queue is lost. -/
theorem run_whole {calls : List (Memory × Call)} (hfits : ∀ call ∈ calls, call.2.Fits)
    (hmem : ∀ call ∈ calls, Plenty call.1) {s : Manager} (h : s.Kept) (hw : s.Whole) :
    (s.run calls).Whole := by
  induction calls generalizing s with
  | nil => exact hw
  | cons call calls ih =>
    have hstep := execute_keeps h (hfits call List.mem_cons_self) call.1
    exact ih (fun c hc => hfits c (List.mem_cons_of_mem _ hc))
      (fun c hc => hmem c (List.mem_cons_of_mem _ hc)) hstep.1
      (hstep.2 (hmem call List.mem_cons_self) hw)

/-- Every state that calls lead to, whichever allocations fail. -/
theorem reached_kept {calls : List (Memory × Call)} (hfits : ∀ call ∈ calls, call.2.Fits) :
    (Manager.init.run calls).Kept := run_kept hfits (by simp [Manager.Kept, Manager.init])

/-- From the beginning no queue is lost. -/
theorem reached_whole {calls : List (Memory × Call)} (hfits : ∀ call ∈ calls, call.2.Fits)
    (hmem : ∀ call ∈ calls, Plenty call.1) : (Manager.init.run calls).Whole :=
  run_whole hfits hmem (by simp [Manager.Kept, Manager.init]) (by simp [Manager.Whole, Manager.init])

/-- A queue is in the range of a function when it is one of its block. -/
theorem in_range_iff {m : qdma_resource_master} (h : Kept m) {d : qdma_dev_entry}
    (hd : d ∈ m.dev_list) {qid_hw : Nat} :
    in_range d.entry qid_hw = true ↔ (qid_hw : Int) ∈ d.entry.block.cells := by
  obtain ⟨l, l', hlist⟩ := List.append_of_mem hd
  have hstop := h.numbered.stop
  have hbase := h.numbered.base
  have htop := h.top d hd
  simp only [in_range, Block.mem_cells, qdma_resource_entry.block_base,
    qdma_resource_entry.block_stop, decide_eq_true_eq]
  by_cases hnone : d.entry.total_q = 0
  · simp only [hnone, ne_eq, not_true_eq_false, false_and, Nat.cast_zero, add_zero, false_iff]
    omega
  · have hwithin := Block.within_of_cells_le (w := m.window)
      ((Multiset.le_add_right _ _).trans (cells_cons _ _ ▸ entry_shares_le h hlist))
      (Nat.pos_of_ne_zero hnone)
    simp only [qdma_resource_entry.block_base] at hwithin
    simp only [uint32, int32]
    split <;> omega

/-- The entry that is found is one of its device, with the function's number. -/
theorem get_dev_entry_some {s : Manager} {dma_device_index func_id : Nat} {d : qdma_dev_entry}
    (h : qdma_get_dev_entry dma_device_index func_id s = some d) :
    ∃ m ∈ s.master_resource_list, qdma_get_master_resource_entry dma_device_index s = some m ∧
      m.dev_list.find? (fun dev_entry => dev_entry.func_id = func_id) = some d ∧
      d ∈ m.dev_list ∧ d.func_id = func_id := by
  obtain ⟨m, hm, hd⟩ := Option.bind_eq_some_iff.mp h
  refine ⟨m, List.mem_of_find?_eq_some hm, hm, hd, List.mem_of_find?_eq_some hd, ?_⟩
  simpa using List.find?_some hd

/-- The range check finds the queues of the function's entry. -/
theorem is_queue_in_range_iff {s : Manager} (h : s.Kept) {dma_device_index func_id qid_hw : Nat} :
    qdma_dev_is_queue_in_range dma_device_index func_id qid_hw s = .QDMA_DEV_Q_IN_RANGE ↔
      ∃ d, qdma_get_dev_entry dma_device_index func_id s = some d ∧
        (qid_hw : Int) ∈ d.entry.block.cells := by
  unfold qdma_dev_is_queue_in_range
  cases hget : qdma_get_dev_entry dma_device_index func_id s with
  | none => simp
  | some d =>
    obtain ⟨m, hm, -, -, hd, -⟩ := get_dev_entry_some hget
    simp only [← in_range_iff (h m hm) hd, Option.some.injEq, exists_eq_left']
    split <;> simp_all

/-- The range check has no third result. -/
theorem not_in_range {s : Manager} {dma_device_index func_id qid_hw : Nat} :
    qdma_dev_is_queue_in_range dma_device_index func_id qid_hw s = .QDMA_DEV_Q_OUT_OF_RANGE ↔
      ¬ qdma_dev_is_queue_in_range dma_device_index func_id qid_hw s = .QDMA_DEV_Q_IN_RANGE := by
  cases qdma_dev_is_queue_in_range dma_device_index func_id qid_hw s <;> simp

/-- Two functions of a device that have entries have no queue in common. -/
theorem Kept.apart {m : qdma_resource_master} (h : Kept m) {d e : qdma_dev_entry}
    (hd : d ∈ m.dev_list) (he : e ∈ m.dev_list) (hne : d ≠ e) {x : Int}
    (hx : x ∈ d.entry.block.cells) : x ∉ e.entry.block.cells := by
  obtain ⟨l, l', hlist⟩ := List.append_of_mem hd
  have hrest : e ∈ l ++ l' := by
    rw [hlist] at he
    simp only [List.mem_append, List.mem_cons] at he ⊢
    tauto
  intro hxe
  have hnodup := Multiset.nodup_of_le h.shares m.window.cells_nodup
  rw [shares_split hlist] at hnodup
  refine Multiset.disjoint_left.mp (Multiset.nodup_add.mp hnodup).2.2 (mem_cells.mpr
    ⟨e.entry.block, mem_blocks.mpr ⟨e.entry, List.mem_map_of_mem hrest, rfl⟩, hxe⟩) ?_
  rw [cells_cons]
  exact Multiset.mem_add.mpr (.inl hx)

/-- Whatever the functions of a device request and give back, and whichever of the allocations
fail, no queue is in the range of two of them. -/
theorem queue_of_one_function {calls : List (Memory × Call)} (hfits : ∀ call ∈ calls, call.2.Fits)
    {dma_device_index func_id qid_hw : Nat}
    (h : qdma_dev_is_queue_in_range dma_device_index func_id qid_hw (Manager.init.run calls) =
      .QDMA_DEV_Q_IN_RANGE) {other : Nat} (hne : other ≠ func_id) :
    qdma_dev_is_queue_in_range dma_device_index other qid_hw (Manager.init.run calls) =
      .QDMA_DEV_Q_OUT_OF_RANGE := by
  have hkept := reached_kept hfits
  rw [not_in_range]
  intro h'
  obtain ⟨d, hget, hin⟩ := (is_queue_in_range_iff hkept).mp h
  obtain ⟨e, hget', hin'⟩ := (is_queue_in_range_iff hkept).mp h'
  obtain ⟨m, hm, hmaster, -, hd, rfl⟩ := get_dev_entry_some hget
  obtain ⟨m', -, hmaster', -, he, rfl⟩ := get_dev_entry_some hget'
  rw [hmaster] at hmaster'
  cases hmaster'
  exact (hkept m hm).apart hd he (fun heq => hne (congrArg _ heq.symm)) hin hin'

/-- A physical function takes the queues from 0 on, and another function some of the rest. -/
def two_functions : List (Memory × Call) :=
  [([], .qdma_master_resource_create 1 1 0 2048),
    ([], .qdma_dev_entry_create 0 0), ([], .qdma_dev_update 0 0 64 0),
    ([], .qdma_dev_entry_create 0 4), ([], .qdma_dev_update 0 4 8 (-1))]

/-- The device after that. -/
def two_functions_device : qdma_resource_master :=
  ⟨0, 1, 1, 2048, 0, [⟨0, 0, 0, 0, ⟨0, 64⟩⟩, ⟨4, 0, 0, 0, ⟨64, 8⟩⟩], [⟨72, 1976⟩], 0⟩

theorem two_functions_fits : ∀ call ∈ two_functions, call.2.Fits := by
  simp [two_functions, Call.Fits, Fits]

theorem two_functions_plenty : ∀ call ∈ two_functions, Plenty call.1 := by
  simp [two_functions, Plenty]

theorem queue_of_one_function_64 :
    qdma_dev_is_queue_in_range 0 0 64 (Manager.init.run two_functions) =
      .QDMA_DEV_Q_OUT_OF_RANGE :=
  @queue_of_one_function two_functions two_functions_fits 0 4 64 (by decide) 0 (by decide)

/-- With memory for the nodes no queue is ever lost: the free queues and those of the functions
are as many as the device has, and a queue of the device is free just when it is in the range of
no function. -/
theorem every_queue_free_or_in_range {calls : List (Memory × Call)}
    (hfits : ∀ call ∈ calls, call.2.Fits) (hmem : ∀ call ∈ calls, Plenty call.1)
    {m : qdma_resource_master} (hm : m ∈ (Manager.init.run calls).master_resource_list) :
    (m.free_list.map qdma_resource_entry.total_q).sum +
        (m.dev_list.map fun d => d.entry.total_q).sum = m.total_q ∧
      ∀ qid_hw : Nat, m.qbase ≤ qid_hw → qid_hw < m.qbase + m.total_q →
        ((∃ node ∈ m.free_list, node.qbase ≤ qid_hw ∧ qid_hw < node.qbase + node.total_q) ↔
          ∀ d ∈ m.dev_list, in_range d.entry qid_hw = false) := by
  have hkept := reached_kept hfits m hm
  have hwhole := reached_whole hfits hmem m hm
  constructor
  · have hcard := congrArg Multiset.card hwhole
    simp only [qdma_resource_master.shares, cells_append, Multiset.card_add, card_cells,
      Block.card_cells, blocks, List.map_map] at hcard
    rw [add_comm]
    exact hcard
  · intro qid_hw hlow hhigh
    have hin : (qid_hw : Int) ∈ cells m.shares := by
      rw [hwhole]
      exact Block.mem_cells.mpr ⟨hlow, hhigh⟩
    have hnodup := Multiset.nodup_of_le hkept.shares m.window.cells_nodup
    rw [qdma_resource_master.shares, cells_append] at hin hnodup
    have hfunc : (qid_hw : Int) ∈ cells (blocks (m.dev_list.map qdma_dev_entry.entry)) ↔
        ∃ d ∈ m.dev_list, in_range d.entry qid_hw = true := by
      simp only [mem_cells, mem_blocks, List.mem_map]
      constructor
      · rintro ⟨_, ⟨_, ⟨d, hd, rfl⟩, rfl⟩, hx⟩
        exact ⟨d, hd, (in_range_iff hkept hd).mpr hx⟩
      · rintro ⟨d, hd, hx⟩
        exact ⟨_, ⟨_, ⟨d, hd, rfl⟩, rfl⟩, (in_range_iff hkept hd).mp hx⟩
    have hfree : (qid_hw : Int) ∈ cells (blocks m.free_list) ↔
        ∃ node ∈ m.free_list, node.qbase ≤ qid_hw ∧ qid_hw < node.qbase + node.total_q := by
      simp [mem_cells, mem_blocks]
    rw [← hfree]
    constructor
    · intro hf d hd
      by_contra hr
      exact Multiset.disjoint_left.mp (Multiset.nodup_add.mp hnodup).2.2
        (hfunc.mpr ⟨d, hd, by simpa using hr⟩) hf
    · intro hno
      refine (Multiset.mem_add.mp hin).resolve_left fun hd => ?_
      obtain ⟨d, hd, hr⟩ := hfunc.mp hd
      simp [hno d hd] at hr

theorem every_queue_free_or_in_range_two :
    (two_functions_device.free_list.map qdma_resource_entry.total_q).sum +
        (two_functions_device.dev_list.map fun d => d.entry.total_q).sum = 2048 ∧
      ∀ qid_hw : Nat, (0 : Int) ≤ qid_hw → (qid_hw : Int) < 0 + (2048 : Nat) →
        ((∃ node ∈ two_functions_device.free_list,
          node.qbase ≤ qid_hw ∧ qid_hw < node.qbase + node.total_q) ↔
          ∀ d ∈ two_functions_device.dev_list, in_range d.entry qid_hw = false) :=
  @every_queue_free_or_in_range two_functions two_functions_fits two_functions_plenty
    two_functions_device (by decide)

/-- The queues that a request can use: those of the device that no other function has. -/
def Unclaimed (dma_device_index func_id : Nat) (m : qdma_resource_master) (s : Manager)
    (base : Int) (qmax : Nat) : Prop :=
  m.qbase ≤ base ∧ base + qmax ≤ m.qbase + m.total_q ∧
    ∀ qid_hw : Nat, base ≤ qid_hw → qid_hw < base + qmax → ∀ other, other ≠ func_id →
      qdma_dev_is_queue_in_range dma_device_index other qid_hw s = .QDMA_DEV_Q_OUT_OF_RANGE

/-- Every entry of a device is found by its function's number. -/
theorem Kept.find {m : qdma_resource_master} (h : Kept m) {e : qdma_dev_entry}
    (he : e ∈ m.dev_list) :
    m.dev_list.find? (fun dev_entry => dev_entry.func_id = e.func_id) = some e := by
  cases hfind : m.dev_list.find? (fun dev_entry => dev_entry.func_id = e.func_id) with
  | none => exact absurd (by simp) (List.find?_eq_none.mp hfind e he)
  | some e' =>
    have hfunc : e'.func_id = e.func_id := by simpa using List.find?_some hfind
    rw [List.inj_on_of_nodup_map h.functions (List.mem_of_find?_eq_some hfind) he hfunc]

/-- Queues that no other function has are those that are free or the function's own. -/
theorem unclaimed_iff {s : Manager} (hkept : s.Kept) (hwhole : s.Whole)
    {dma_device_index func_id : Nat} {m : qdma_resource_master} {d : qdma_dev_entry}
    (hm : qdma_get_master_resource_entry dma_device_index s = some m)
    (hd : qdma_get_dev_entry dma_device_index func_id s = some d) {base : Int} {qmax : Nat}
    (hpos : qmax ≠ 0) :
    Unclaimed dma_device_index func_id m s base qmax ↔
      Available (d.entry.block :: blocks m.free_list) base qmax := by
  obtain ⟨m', hmem, hm', -, hdm, rfl⟩ := get_dev_entry_some hd
  rw [hm] at hm'
  cases hm'
  have hk := hkept m hmem
  have hnum := hk.numbered.base
  obtain ⟨l, l', hlist⟩ := List.append_of_mem hdm
  have hcells : cells (blocks ((l ++ l').map qdma_dev_entry.entry)) +
      cells (d.entry.block :: blocks m.free_list) = m.window.cells :=
    (shares_split hlist).symm.trans (hwhole m hmem)
  -- a queue of another function, as its entry has it and as the call reports it
  have hother : ∀ qid_hw : Nat, (∃ other, other ≠ d.func_id ∧
      qdma_dev_is_queue_in_range dma_device_index other qid_hw s = .QDMA_DEV_Q_IN_RANGE) ↔
      (qid_hw : Int) ∈ cells (blocks ((l ++ l').map qdma_dev_entry.entry)) := by
    intro qid_hw
    have hfuncs := hk.functions
    rw [hlist, List.map_append, List.map_cons] at hfuncs
    have hnot : ∀ e ∈ l ++ l', e.func_id ≠ d.func_id := by
      intro e he heq
      have := (List.nodup_middle.mp hfuncs)
      rw [List.nodup_cons, ← List.map_append] at this
      exact this.1 (heq ▸ List.mem_map_of_mem he)
    simp only [is_queue_in_range_iff hkept, mem_cells, mem_blocks, List.mem_map]
    constructor
    · rintro ⟨other, hne, e, hget, hin⟩
      obtain ⟨m', -, hm', -, he, rfl⟩ := get_dev_entry_some hget
      rw [hm] at hm'
      cases hm'
      refine ⟨_, ⟨_, ⟨e, ?_, rfl⟩, rfl⟩, hin⟩
      rw [hlist] at he
      simp only [List.mem_append, List.mem_cons] at he ⊢
      rcases he with he | rfl | he
      · exact .inl he
      · exact absurd rfl hne
      · exact .inr he
    · rintro ⟨_, ⟨_, ⟨e, he, rfl⟩, rfl⟩, hin⟩
      have hmem : e ∈ m.dev_list := by
        rw [hlist]
        simp only [List.mem_append, List.mem_cons] at he ⊢
        tauto
      refine ⟨e.func_id, hnot e he, e, ?_, hin⟩
      simp only [qdma_get_dev_entry, hm, Option.bind_some]
      exact hk.find hmem
  constructor
  · rintro ⟨hlow, hhigh, hfree⟩ x hx hx'
    have hwin : x ∈ m.window.cells := Block.mem_cells.mpr ⟨hlow.trans hx, lt_of_lt_of_le hx' hhigh⟩
    rw [← hcells] at hwin
    refine (Multiset.mem_add.mp hwin).resolve_left fun hin => ?_
    lift x to ℕ using hnum.trans (hlow.trans hx)
    obtain ⟨other, hne, hr⟩ := (hother x).mpr hin
    rw [hfree x hx hx' other hne] at hr
    cases hr
  · intro hav
    have hin : ∀ x, base ≤ x → x < base + qmax → x ∈ m.window.cells := by
      intro x hx hx'
      rw [← hcells]
      exact Multiset.mem_add.mpr (.inr (hav x hx hx'))
    have hfirst := Block.mem_cells.mp (hin base le_rfl (by omega))
    have hlast := Block.mem_cells.mp (hin (base + qmax - 1) (by omega) (by omega))
    refine ⟨hfirst.1, ?_, fun x hx hx' other hne => not_in_range.mpr fun hr => ?_⟩
    · simp only [qdma_resource_master.window, Block.stop] at hlast
      omega
    · have hnodup := hcells ▸ m.window.cells_nodup
      exact Multiset.disjoint_left.mp (Multiset.nodup_add.mp hnodup).2.2
        ((hother x).mp ⟨other, hne, hr⟩) (hav x hx hx')

/-- What a function does to the master resource of a device that there is. -/
theorem on_master_found {s : Manager} {dma_device_index : Nat} {m : qdma_resource_master}
    (hm : qdma_get_master_resource_entry dma_device_index s = some m)
    {f : qdma_resource_master → Rv × qdma_resource_master}
    (hindex : (f m).2.dma_device_index = m.dma_device_index) :
    (on_master dma_device_index f s).1 = (f m).1 ∧
      qdma_get_master_resource_entry dma_device_index (on_master dma_device_index f s).2 =
        some (f m).2 := by
  obtain ⟨l', hfirst, hlast⟩ := on_first_of_find (f := f) hm
  have hsame : m.dma_device_index = dma_device_index := by simpa using List.find?_some hm
  unfold on_master
  rw [hfirst]
  exact ⟨rfl, hlast (by simp [hindex, hsame])⟩

/-- A call for a function that has an entry works on this entry. -/
theorem on_dev_entry_found {m : qdma_resource_master} {func_id : Nat} {d : qdma_dev_entry}
    (hd : m.dev_list.find? (fun dev_entry => dev_entry.func_id = func_id) = some d)
    {f : qdma_dev_entry → (Rv × (qdma_resource_master → qdma_resource_master)) × qdma_dev_entry}
    (hfunc : (f d).2.func_id = d.func_id) :
    ∃ dev_list, on_dev_entry func_id f m = ((f d).1.1, (f d).1.2 { m with dev_list }) ∧
      dev_list.find? (fun dev_entry => dev_entry.func_id = func_id) = some (f d).2 := by
  obtain ⟨dev_list, hfirst, hlast⟩ := on_first_of_find (f := f) hd
  have hsame : d.func_id = func_id := by simpa using List.find?_some hd
  refine ⟨dev_list, ?_, hlast (by simp [hfunc, hsame])⟩
  unfold on_dev_entry
  rw [hfirst]

/-- `qdma_dev_update` of an idle function is a request with its block and the free list. -/
theorem update_result {s : Manager} {dma_device_index func_id qmax : Nat} {qbase : Int}
    {mem : Memory} {m : qdma_resource_master} {d : qdma_dev_entry}
    (hm : qdma_get_master_resource_entry dma_device_index s = some m)
    (hd : m.dev_list.find? (fun dev_entry => dev_entry.func_id = func_id) = some d)
    (hidle : d.active = false) :
    (qdma_dev_update dma_device_index func_id qmax qbase mem s).1 =
        (qdma_request_q_resource d.entry qmax qbase m.free_list mem).1 ∧
      qdma_dev_qinfo_get dma_device_index func_id
          (qdma_dev_update dma_device_index func_id qmax qbase mem s).2 =
        .ok ((qdma_request_q_resource d.entry qmax qbase m.free_list mem).2.entry.qbase,
          (qdma_request_q_resource d.entry qmax qbase m.free_list mem).2.entry.total_q) := by
  have hupdate : ∃ dev_list free_list, update_dev_entry func_id qmax qbase mem m =
      ((qdma_request_q_resource d.entry qmax qbase m.free_list mem).1,
        { m with dev_list, free_list }) ∧
      dev_list.find? (fun dev_entry => dev_entry.func_id = func_id) =
        some { d with entry :=
          (qdma_request_q_resource d.entry qmax qbase m.free_list mem).2.entry } := by
    unfold update_dev_entry
    obtain ⟨dev_list, heq, hfind⟩ := on_dev_entry_found hd (f := fun dev_entry =>
      if dev_entry.active then ((.QDMA_ERR_RM_QMAX_CONF_REJECTED, id), dev_entry)
      else
        let r := qdma_request_q_resource dev_entry.entry qmax qbase m.free_list mem
        ((r.1, fun q_resource => { q_resource with free_list := r.2.free_list }),
          { dev_entry with entry := r.2.entry })) (by simp [hidle])
    simp only [hidle] at heq hfind
    exact ⟨dev_list, _, heq, hfind⟩
  obtain ⟨dev_list, free_list, hupdate, hfind⟩ := hupdate
  obtain ⟨hrv, hget⟩ := on_master_found hm (f := update_dev_entry func_id qmax qbase mem)
    (by rw [hupdate])
  refine ⟨hrv.trans (by rw [hupdate]), ?_⟩
  rw [hupdate] at hget
  unfold qdma_dev_update
  simp only [qdma_dev_qinfo_get, qdma_get_dev_entry, hget, Option.bind_some, hfind]

/-- A function with queues of which none is active is granted a request if and only if there are
as many consecutive queues that no other function has. It gets the ones it asks for if no other
function has them, and it keeps the queues it has when it is granted nothing. -/
theorem update_granted_iff {calls : List (Memory × Call)} (hfits : ∀ call ∈ calls, call.2.Fits)
    (hmem : ∀ call ∈ calls, Plenty call.1) {dma_device_index func_id : Nat}
    {m : qdma_resource_master} {d : qdma_dev_entry}
    (hm : qdma_get_master_resource_entry dma_device_index (Manager.init.run calls) = some m)
    (hd : qdma_get_dev_entry dma_device_index func_id (Manager.init.run calls) = some d)
    (hidle : d.active = false) (hqueues : d.entry.total_q ≠ 0) {qmax : Nat} (hpos : qmax ≠ 0)
    {qbase : Int} (hrequest : Fits qmax qbase) {mem : Memory} (hplenty : Plenty mem) :
    let s := Manager.init.run calls
    let r := qdma_dev_update dma_device_index func_id qmax qbase mem s
    (r.1 = .QDMA_SUCCESS ↔ ∃ base, Unclaimed dma_device_index func_id m s base qmax) ∧
      (r.1 = .QDMA_SUCCESS →
        ∃ base, qdma_dev_qinfo_get dma_device_index func_id r.2 = .ok (base, qmax)) ∧
      (0 ≤ qbase → Unclaimed dma_device_index func_id m s qbase qmax →
        qdma_dev_qinfo_get dma_device_index func_id r.2 = .ok (qbase, qmax)) ∧
      (r.1 ≠ .QDMA_SUCCESS → qdma_dev_qinfo_get dma_device_index func_id r.2 =
        .ok (d.entry.qbase, d.entry.total_q)) := by
  intro s r
  have hkept : s.Kept := reached_kept hfits
  have hwhole : s.Whole := reached_whole hfits hmem
  obtain ⟨m', hin, hm', hfind, hdm, -⟩ := get_dev_entry_some hd
  rw [hm] at hm'
  cases hm'
  have hk := hkept m hin
  obtain ⟨l, l', hlist⟩ := List.append_of_mem hdm
  have hreq := requested hk.numbered hrequest hk.tidy (entry_shares_le hk hlist) (hk.top d hdm) mem
  obtain ⟨hrv, hinfo⟩ := @update_result s dma_device_index func_id qmax qbase mem m d hm hfind hidle
  have hunclaimed : ∀ base, Unclaimed dma_device_index func_id m s base qmax ↔
      Available (d.entry.block :: blocks m.free_list) base qmax :=
    fun base => unclaimed_iff hkept hwhole hm hd hpos
  refine ⟨?_, fun hs => ?_, fun hbase hq => ?_, fun hs => ?_⟩
  · simp only [hunclaimed]
    exact hrv ▸ hreq.granted hplenty hqueues hpos
  · rw [hreq.size hpos (hrv ▸ hs)] at hinfo
    exact ⟨_, hinfo⟩
  · rw [hinfo, hreq.honored hplenty hqueues hpos hbase ((hunclaimed qbase).mp hq)]
  · rw [hinfo, hreq.restored hplenty hqueues (hrv ▸ hs)]

theorem update_granted_iff_two :
    let s := Manager.init.run two_functions
    let r := qdma_dev_update 0 4 16 80 [] s
    (r.1 = .QDMA_SUCCESS ↔ ∃ base, Unclaimed 0 4 two_functions_device s base 16) ∧
      (r.1 = .QDMA_SUCCESS → ∃ base, qdma_dev_qinfo_get 0 4 r.2 = .ok (base, 16)) ∧
      ((0 : Int) ≤ 80 → Unclaimed 0 4 two_functions_device s 80 16 →
        qdma_dev_qinfo_get 0 4 r.2 = .ok (80, 16)) ∧
      (r.1 ≠ .QDMA_SUCCESS → qdma_dev_qinfo_get 0 4 r.2 = .ok (64, 8)) :=
  @update_granted_iff two_functions two_functions_fits two_functions_plenty 0 4
    two_functions_device ⟨4, 0, 0, 0, ⟨64, 8⟩⟩ (by decide) (by decide) (by decide) (by decide)
    16 (by decide) 80 (by simp [Fits]) [] (by simp [Plenty])

end reconic.qdma_resource_mgmt
