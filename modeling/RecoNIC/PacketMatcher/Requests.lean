import RecoNIC.PacketMatcher.Keys

open clocked tables

namespace reconic.packet_matcher

/-- The requests that a cycle removes from the FIFO. -/
def removed (c : Cycle Regs Input) : List Request :=
  c.state.table_config_req_fifo.popped (req_rd_en c.state)

/-- The requests that a cycle stores in the FIFO. -/
def accepted (c : Cycle Regs Input) : List Request :=
  c.state.table_config_req_fifo.accepted (requestWrite c.state)

/-- A request has been applied between two states. -/
def Applied (request : Request) (s s' : Regs) : Prop :=
  (request.config_op = TABLE_OP_WRITE → Written s.table_ptr request.entry s.table s'.table) ∧
    (request.config_op = TABLE_OP_DELETE → Removed reset_entry request.key s.table s'.table)

/-- The table has already what a request asks for. -/
def Settled (request : Request) (s : Regs) : Prop :=
  (request.config_op = TABLE_OP_WRITE → ∃ k, s.table k = request.entry) ∧
    (request.config_op = TABLE_OP_DELETE → s.table.hits request.key = [] ∨
      (request.key = reserved_key ∧ ∃ k, s.table k = reset_entry))

/-- A cycle serves a request: there is no beat and the request has one matching entry at most,
or the beat meets the request, or there is nothing to do. -/
def Serves (request : Request) (c : Cycle Regs Input) : Prop :=
  (beat c.input = false ∧ ZeroOrOneHot (table_lookup_from_config c.state)) ∨
    (beat c.input = true ∧ MeetsWrite c.state c.input request) ∨ Settled request c.state

theorem req_rd_en_eq (s : Regs) : req_rd_en s = !req_empty s := by
  rw [req_rd_en, rdConfigControl]
  cases s.rd_config_state <;> cases req_empty s <;> rfl

/-- The request on the output of the FIFO is removed in every cycle. -/
theorem mem_removed {c : Cycle Regs Input} {request : Request} :
    request ∈ removed c ↔ c.state.table_config_req_fifo.dout = some request := by
  rw [removed, req_rd_en_eq, req_empty, Fifo.empty, Fifo.dout, Fifo.popped]
  cases c.state.table_config_req_fifo.contents with
  | nil => simp
  | cons head rest => simp [eq_comm]

theorem applied_of_kept {request : Request} {c : Cycle Regs Input}
    (hkept : (update c.state c.input).op = .keep) :
    Applied request c.state (machine.step c.state c.input) ↔ Settled request c.state := by
  have htable : (machine.step c.state c.input).table = c.state.table := by
    change (update c.state c.input).op.apply reset_entry c.state.table = c.state.table
    rw [hkept]
    rfl
  rw [Applied, Settled, htable, written_self_iff, removed_self_iff]
  rfl

theorem table_next (c : Cycle Regs Input) : (machine.step c.state c.input).table =
    (update c.state c.input).op.apply reset_entry c.state.table :=
  rfl

theorem configRequest_miss {s : Regs} {request : Request}
    (hrequest : s.table_config_req_fifo.dout = some request)
    (hmiss : table_lookup_from_config s = []) :
    (configRequest s).op =
      if request.config_op = TABLE_OP_WRITE then .insert s.table_ptr request.entry else .keep := by
  simp only [configRequest, hrequest, hmiss]
  split <;> rfl

theorem configRequest_hit {s : Regs} {request : Request} {k : Fin NUM_TABLE_ENTRY}
    (hrequest : s.table_config_req_fifo.dout = some request)
    (hhit : table_lookup_from_config s = [k]) :
    (configRequest s).op =
      if request.config_op = TABLE_OP_WRITE then .update k request.start_addr
      else if request.config_op = TABLE_OP_DELETE then .clear k
      else .keep := by
  simp only [configRequest, hrequest, hhit]

theorem configRequest_default {s : Regs} (hmany : ¬ZeroOrOneHot (table_lookup_from_config s)) :
    (configRequest s).op = .keep := by
  rw [configRequest]
  split
  · rfl
  · split
    case h_1 hmiss => exact absurd (.inl hmiss) hmany
    case h_2 k hhit => exact absurd (.inr ⟨k, hhit⟩) hmany
    · rfl

/-- A beat that meets a WRITE inserts its entry. -/
theorem applied_of_meets {request : Request} {c : Cycle Regs Input}
    (hrequest : c.state.table_config_req_fifo.dout = some request) (hbeat : beat c.input = true)
    (hmeets : MeetsWrite c.state c.input request) :
    Applied request c.state (machine.step c.state c.input) := by
  refine ⟨fun _ => .inl ⟨hmeets.hits, ?_⟩, fun hdelete => ?_⟩
  · rw [table_next, update, if_pos hbeat, hmeets.op hrequest]
    rfl
  · rw [hmeets.write] at hdelete
    exact absurd hdelete (by decide)

/-- Without a beat, a request with no matching entry or one is applied. -/
theorem applied_of_config {request : Request} {c : Cycle Regs Input}
    (hrequest : c.state.table_config_req_fifo.dout = some request) (hbeat : beat c.input = false)
    (hlookup : ZeroOrOneHot (table_lookup_from_config c.state)) :
    Applied request c.state (machine.step c.state c.input) := by
  have hhits : table_lookup_from_config c.state = c.state.table.hits request.key := by
    rw [table_lookup_from_config, hrequest]
  have hop : (update c.state c.input).op = (configRequest c.state).op := by
    rw [update, hbeat]
    rfl
  rw [Applied, table_next, hop]
  obtain hmiss | ⟨k, hhit⟩ := hlookup
  · rw [configRequest_miss hrequest hmiss]
    rw [hhits] at hmiss
    refine ⟨fun hwrite => .inl ⟨hmiss, ?_⟩, fun hdelete => .inl ⟨hmiss, ?_⟩⟩
    · rw [if_pos hwrite]
      rfl
    · rw [hdelete, if_neg (by decide)]
      rfl
  · rw [configRequest_hit hrequest hhit]
    rw [hhits] at hhit
    have hk : k ∈ c.state.table.hits request.key := hhit ▸ List.mem_singleton_self k
    refine ⟨fun hwrite => .inr ⟨k, hk, ?_⟩, fun hdelete => .inr ⟨k, hk, ?_⟩⟩
    · rw [if_pos hwrite, Op.apply, mem_hits.mp hk]
      rfl
    · rw [hdelete, if_neg (by decide), if_pos rfl, Op.apply]

/-- A request is applied in the cycle of its removal exactly when the cycle serves it. -/
theorem applied_iff_serves {request : Request} {c : Cycle Regs Input}
    (hremoved : request ∈ removed c) :
    Applied request c.state (machine.step c.state c.input) ↔ Serves request c := by
  have hrequest := mem_removed.mp hremoved
  cases hbeat : beat c.input with
  | true =>
    by_cases hmeets : MeetsWrite c.state c.input request
    · exact iff_of_true (applied_of_meets hrequest hbeat hmeets) (.inr (.inl ⟨hbeat, hmeets⟩))
    · have hkept : (update c.state c.input).op = .keep := by
        rw [update, if_pos hbeat]
        refine packetBeat_keeps fun other hother => ?_
        rwa [Option.some.inj (hother.symm.trans hrequest)]
      rw [applied_of_kept hkept, Serves, hbeat]
      simp [hmeets]
  | false =>
    by_cases hlookup : ZeroOrOneHot (table_lookup_from_config c.state)
    · exact iff_of_true (applied_of_config hrequest hbeat hlookup) (.inl ⟨hbeat, hlookup⟩)
    · have hkept : (update c.state c.input).op = .keep := by
        rw [update, hbeat]
        exact configRequest_default hlookup
      rw [applied_of_kept hkept, Serves, hbeat]
      simp [hlookup]

/-- The removed requests are applied, each in the cycle of its removal, exactly when these cycles
serve them. They are removed in the order in which the FIFO has accepted them. -/
theorem requests_applied_iff (inputs : List Input) :
    ((∀ c ∈ machine.trace inputs, ∀ request ∈ removed c,
        Applied request c.state (machine.step c.state c.input)) ↔
      ∀ c ∈ machine.trace inputs, ∀ request ∈ removed c, Serves request c) ∧
    (machine.trace inputs).flatMap removed <+: (machine.trace inputs).flatMap accepted := by
  refine ⟨forall₂_congr fun c _ => forall₂_congr fun request => applied_iff_serves, ?_⟩
  have hstream := Fifo.stream_law machine (fun s => s.table_config_req_fifo)
    (fun c => requestWrite c.state) (fun c => req_rd_en c.state) rfl (fun _ _ => rfl) inputs
  exact ⟨_, hstream⟩

/-- A WRITE that comes out of the FIFO with a packet of another key is lost. -/
theorem write_lost :
    let request : Request := ⟨⟨1, 0, 0⟩, 0x1000, TABLE_OP_WRITE⟩
    let idle : Input := ⟨request, false, MetaIn.zero, false, false, false, true⟩
    let packet : Input := ⟨request, false, MetaIn.zero, true, true, true, true⟩
    let inputs := [{ idle with config_in_vld := true }, idle, idle, packet]
    ¬∀ c ∈ machine.trace inputs, ∀ request ∈ removed c,
      Applied request c.state (machine.step c.state c.input) := by
  intro request idle packet inputs happlied
  have hmem : ⟨machine.run [{ idle with config_in_vld := true }, idle, idle], packet⟩ ∈
      machine.trace inputs := by
    change _ ∈ machine.trace ([_, idle, idle] ++ [packet])
    rw [machine.trace_snoc]
    simp
  have hremoved : request ∈
      removed ⟨machine.run [{ idle with config_in_vld := true }, idle, idle], packet⟩ :=
    mem_removed.mpr rfl
  obtain ⟨hbeat, -⟩ | ⟨-, hmeets⟩ | hsettled :=
    (applied_iff_serves hremoved).mp (happlied _ hmem request hremoved)
  · exact absurd hbeat (by decide)
  · exact absurd hmeets.key (by decide)
  · exact absurd (hsettled.1 rfl) (by decide)

end reconic.packet_matcher
