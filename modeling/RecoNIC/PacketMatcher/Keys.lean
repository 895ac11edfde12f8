import RecoNIC.PacketMatcher.Model

open clocked tables

namespace reconic.packet_matcher

/-- The key of an entry that is empty. -/
def reserved_key : Key := reset_entry.key

/-- No bit of a lookup is set, or one. -/
def ZeroOrOneHot (lookup : List (Fin NUM_TABLE_ENTRY)) : Prop := lookup = [] ∨ ∃ k, lookup = [k]

/-- The entry that a cycle stores. -/
def stored (c : Cycle Regs Input) : List (Slot Key (BitVec 32)) :=
  (update c.state c.input).op.stored c.state.table

/-- The first beat of a packet misses the table and has the key of the request, a WRITE. -/
structure MeetsWrite (s : Regs) (i : Input) (request : Request) : Prop where
  lookup : s.lookup_state = .TABLE_LOOKUP
  miss : table_lookup_from_pkt s i = []
  valid : i.metadata_in_valid = true
  key : i.metadata_in.key = request.key
  write : request.config_op = TABLE_OP_WRITE

theorem MeetsWrite.hits {s : Regs} {i : Input} {request : Request}
    (hmeets : MeetsWrite s i request) : s.table.hits request.key = [] := by
  have hmiss := hmeets.miss
  rwa [table_lookup_from_pkt, if_pos hmeets.valid, hmeets.key] at hmiss

theorem MeetsWrite.op {s : Regs} {i : Input} {request : Request}
    (hrequest : s.table_config_req_fifo.dout = some request) (hmeets : MeetsWrite s i request) :
    (packetBeat s i).op = .insert s.table_ptr request.entry := by
  simp [packetBeat, hmeets.lookup, lookupPacket, hmeets.miss, hrequest, hmeets.valid, hmeets.key,
    hmeets.write, insertRequest]

/-- Any other beat leaves the table as it is. -/
theorem packetBeat_keeps {s : Regs} {i : Input}
    (hother : ∀ request, s.table_config_req_fifo.dout = some request → ¬MeetsWrite s i request) :
    (packetBeat s i).op = .keep := by
  rw [packetBeat]
  cases hlookup : s.lookup_state with
  | WAIT_TLAST => rfl
  | TABLE_LOOKUP =>
    simp only [lookupPacket]
    split
    case h_1 hmiss =>
      cases hrequest : s.table_config_req_fifo.dout with
      | none => rfl
      | some request =>
        simp only
        split
        · rfl
        case isFalse hmatch =>
          simp only [Bool.not_eq_true', Bool.not_eq_false, Bool.and_eq_true, decide_eq_true_eq] at hmatch
          split
          case isTrue hwrite =>
            exact absurd ⟨hlookup, hmiss, hmatch.1, hmatch.2, hwrite⟩ (hother request hrequest)
          · rfl
    · rfl
    · rfl

theorem packetBeat_fresh (s : Regs) (i : Input) : (packetBeat s i).op.Fresh s.table := by
  by_cases hmeets : ∃ request, s.table_config_req_fifo.dout = some request ∧ MeetsWrite s i request
  · obtain ⟨request, hrequest, hmeets⟩ := hmeets
    rw [hmeets.op hrequest]
    exact hmeets.hits
  · rw [packetBeat_keeps fun request hrequest hwrite => hmeets ⟨request, hrequest, hwrite⟩]
    trivial

theorem configRequest_fresh (s : Regs) : (configRequest s).op.Fresh s.table := by
  rw [configRequest]
  split
  · trivial
  case h_2 request hrequest =>
    split
    case h_1 hmiss =>
      rw [table_lookup_from_config, hrequest] at hmiss
      split
      · exact hmiss
      · trivial
    case h_2 k _ =>
      by_cases hwrite : request.config_op = TABLE_OP_WRITE
      · simp only [if_pos hwrite, Op.Fresh]
      · simp only [if_neg hwrite]
        split <;> trivial
    · trivial

/-- A new entry is inserted only when the table has none with its key. -/
theorem update_fresh (s : Regs) (i : Input) : (update s i).op.Fresh s.table := by
  rw [update]
  split
  · exact packetBeat_fresh s i
  · exact configRequest_fresh s

/-- The table is keyed in every reachable state. -/
theorem table_keyed (inputs : List Input) :
    Keyed reset_entry ((machine.trace inputs).flatMap stored) (machine.run inputs).table := by
  apply machine.free_history_induction fun h s => Keyed reset_entry (h.flatMap stored) s.table
  · exact keyed_blank reset_entry
  · intro h s i hkeyed
    rw [List.flatMap_append, List.flatMap_singleton]
    exact hkeyed.apply (update_fresh s i)

theorem table_lookup_from_pkt_hits {inputs : List Input} {i : Input}
    (hkey : i.metadata_in.key ≠ reserved_key) :
    ZeroOrOneHot (table_lookup_from_pkt (machine.run inputs) i) := by
  rw [table_lookup_from_pkt]
  split
  · exact (table_keyed inputs).hits hkey
  · exact .inl rfl

theorem table_lookup_from_config_hits {inputs : List Input}
    (hkey : ∀ request, (machine.run inputs).table_config_req_fifo.dout = some request →
      request.key ≠ reserved_key) :
    ZeroOrOneHot (table_lookup_from_config (machine.run inputs)) := by
  rw [table_lookup_from_config]
  split
  · exact .inl rfl
  case h_2 request hrequest => exact (table_keyed inputs).hits (hkey request hrequest)

theorem packet_hit_entry {s : Regs} {i : Input} {k : Fin NUM_TABLE_ENTRY} (hbeat : beat i = true)
    (hlookup : s.lookup_state = .TABLE_LOOKUP) (hhit : table_lookup_from_pkt s i = [k]) :
    (s.table k).key = i.metadata_in.key ∧
      (machine.step s i).meta_out.start_addr = (s.table k).value := by
  refine ⟨?_, ?_⟩
  · rw [table_lookup_from_pkt] at hhit
    split at hhit
    · exact mem_hits.mp (hhit ▸ List.mem_singleton_self k)
    · cases hhit
  · change (update s i).meta_out.start_addr = (s.table k).value
    simp only [update, hbeat, if_true, packetBeat, hlookup, lookupPacket, hhit]

/-- A hit gives the value that has been stored last for the key. -/
theorem packet_hit_value {inputs : List Input} {i : Input} {k : Fin NUM_TABLE_ENTRY}
    (hbeat : beat i = true) (hlookup : (machine.run inputs).lookup_state = .TABLE_LOOKUP)
    (hhit : table_lookup_from_pkt (machine.run inputs) i = [k])
    (hkey : i.metadata_in.key ≠ reserved_key) :
    last_stored ((machine.trace inputs).flatMap stored) i.metadata_in.key =
      some (machine.step (machine.run inputs) i).meta_out.start_addr := by
  obtain ⟨hfound, hvalue⟩ := packet_hit_entry hbeat hlookup hhit
  rw [hvalue, ← hfound]
  exact (table_keyed inputs).latest k (hfound ▸ hkey)

/-- In every reachable state the keys of the table but the reserved one are unique. So the
lookups for another key have one bit at most, their default arms are for the reserved key
alone, and a hit of a packet gives the value stored last. -/
theorem table_keys_unique (inputs : List Input) (i : Input) :
    let s := machine.run inputs
    (∀ j k, (s.table j).key = (s.table k).key → (s.table j).key ≠ reserved_key → j = k) ∧
    (i.metadata_in.key ≠ reserved_key → ZeroOrOneHot (table_lookup_from_pkt s i)) ∧
    ((∀ request, s.table_config_req_fifo.dout = some request → request.key ≠ reserved_key) →
      ZeroOrOneHot (table_lookup_from_config s)) ∧
    ∀ k, beat i = true → s.lookup_state = .TABLE_LOOKUP → table_lookup_from_pkt s i = [k] →
      i.metadata_in.key ≠ reserved_key →
        last_stored ((machine.trace inputs).flatMap stored) i.metadata_in.key =
          some (machine.step s i).meta_out.start_addr :=
  ⟨(table_keyed inputs).unique, table_lookup_from_pkt_hits, table_lookup_from_config_hits,
    fun _ => packet_hit_value⟩

end reconic.packet_matcher
