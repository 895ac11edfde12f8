import RecoNIC.Driver.ResourceManager

open ranges

namespace reconic.qdma_resource_mgmt

def qdma_resource_entry.block (e : qdma_resource_entry) : Block := ⟨e.qbase, e.total_q⟩

@[simp] theorem qdma_resource_entry.block_base (e : qdma_resource_entry) :
    e.block.base = e.qbase := rfl

@[simp] theorem qdma_resource_entry.block_size (e : qdma_resource_entry) :
    e.block.size = e.total_q := rfl

@[simp] theorem qdma_resource_entry.block_stop (e : qdma_resource_entry) :
    e.block.stop = e.qbase + e.total_q := rfl

def blocks (l : List qdma_resource_entry) : List Block := l.map qdma_resource_entry.block

@[simp] theorem blocks_nil : blocks [] = [] := rfl

@[simp] theorem blocks_cons (e : qdma_resource_entry) (l : List qdma_resource_entry) :
    blocks (e :: l) = e.block :: blocks l := rfl

@[simp] theorem blocks_append (l l' : List qdma_resource_entry) :
    blocks (l ++ l') = blocks l ++ blocks l' := by simp [blocks]

/-- The blocks of nodes are those of each node. -/
theorem mem_blocks {l : List qdma_resource_entry} {b : Block} :
    b ∈ blocks l ↔ ∃ e ∈ l, e.block = b := by simp [blocks]

/-- The queues of a device, numbered by an `int`. -/
structure Numbered (w : Block) : Prop where
  base : 0 ≤ w.base
  stop : w.stop ≤ 2 ^ 31

/-- A free list in order, in the window of the device, and without an empty node unless the
device has no queues. -/
structure Tidy (w : Block) (free_list : List qdma_resource_entry) : Prop where
  within : Within w (blocks free_list)
  ordered : Ordered (blocks free_list)
  nonempty : 0 < w.size → ∀ b ∈ blocks free_list, 0 < b.size

/-- `insert_free` inserts a block in order. -/
theorem blocks_insert_free (new_node : qdma_resource_entry) (l : List qdma_resource_entry) :
    blocks (insert_free new_node l) = ranges.insert new_node.block (blocks l) := by
  induction l with
  | nil => rfl
  | cons node rest ih =>
    rw [insert_free, ranges.insert, blocks_cons, List.orderedInsert_cons]
    split
    · next h => rw [if_pos (by simpa using h)]; rfl
    · next h => rw [if_neg (by simpa using h), blocks_cons, ih]; rfl

/-- `stretch` joins a node with its neighbours. -/
theorem blocks_stretch {w : Block} (hw : Numbered w) {streach_node : qdma_resource_entry}
    {l : List qdma_resource_entry} (h : Within w (blocks (streach_node :: l))) :
    blocks (stretch streach_node l) = join streach_node.block (blocks l) := by
  induction l generalizing streach_node with
  | nil => rfl
  | cons node rest ih =>
    obtain ⟨hlow, hhigh⟩ := h streach_node.block (by simp)
    obtain ⟨hlow', hhigh'⟩ := h node.block (by simp)
    have hbase := hw.base
    have hstop := hw.stop
    simp only [qdma_resource_entry.block_base, qdma_resource_entry.block_stop] at hlow hhigh hlow' hhigh'
    have hnext : uint32 (streach_node.qbase + streach_node.total_q) = uint32 node.qbase ↔
        streach_node.qbase + streach_node.total_q = node.qbase := by
      simp only [uint32]
      omega
    rw [stretch, blocks_cons, join]
    split
    · next heq =>
      rw [if_pos (by simpa using hnext.mp heq)]
      have htotal : uint32 (streach_node.total_q + node.total_q) =
          streach_node.total_q + node.total_q := by
        have := hnext.mp heq
        simp only [uint32]
        omega
      rw [htotal]
      exact ih fun b hb => by
        rcases List.mem_cons.mp hb with rfl | hb
        · have := hnext.mp heq
          simp only [qdma_resource_entry.block_base, qdma_resource_entry.block_stop]
          push_cast
          omega
        · exact h b (List.mem_cons_of_mem _ (List.mem_cons_of_mem _ hb))
    · next hne =>
      rw [if_neg (by simpa using fun heq => hne (hnext.mpr heq)), blocks_cons]
      rw [ih fun b hb => h b (List.mem_cons_of_mem _ hb)]

/-- `defragment` joins all neighbours. -/
theorem blocks_defragment {w : Block} (hw : Numbered w) {l : List qdma_resource_entry}
    (h : Within w (blocks l)) : blocks (defragment l) = joined (blocks l) := by
  cases l with
  | nil => rfl
  | cons node rest => exact blocks_stretch hw h

/-- Every allocation to come succeeds. -/
def Plenty (mem : Memory) : Prop := ∀ succeeds ∈ mem, succeeds = true

/-- With enough memory an allocation succeeds and leaves enough. -/
theorem Plenty.calloc {mem : Memory} (h : Plenty mem) :
    (qdma_calloc mem).1 = true ∧ Plenty (qdma_calloc mem).2 := by
  cases mem with
  | nil => exact ⟨rfl, h⟩
  | cons succeeds mem => exact ⟨h succeeds List.mem_cons_self,
      fun b hb => h b (List.mem_cons_of_mem _ hb)⟩

/-- A node is created, or there is no memory for it. -/
theorem free_entry_create_cases (q_base : Int) (total_q : Nat) (mem : Memory) :
    ∃ mem', (Plenty mem → Plenty mem') ∧
      (qdma_free_entry_create q_base total_q mem = (some ⟨q_base, total_q⟩, mem') ∨
        ¬ Plenty mem ∧ qdma_free_entry_create q_base total_q mem = (none, mem')) := by
  refine ⟨(qdma_calloc mem).2, fun h => h.calloc.2, ?_⟩
  unfold qdma_free_entry_create
  by_cases h : (qdma_calloc mem).1
  · exact .inl (by rw [if_pos h])
  · exact .inr ⟨fun hp => h hp.calloc.1, by rw [if_neg h]⟩

/-- What is given back: nothing is lost, and with memory for its node the entry is empty and
no two nodes of the free list are contiguous. -/
structure GivenBack (w : Block) (entry : qdma_resource_entry) (free_list : List qdma_resource_entry)
    (mem : Memory) (r : qdma_resource_entry × List qdma_resource_entry × Memory) : Prop where
  tidy : Tidy w r.2.1
  cells : cells (r.1.block :: blocks r.2.1) = cells (entry.block :: blocks free_list)
  kept : r.1 = entry ∨ r.1 = ⟨-1, 0⟩
  emptied : Plenty mem → r.1.total_q = 0
  separated : Plenty mem → entry.total_q ≠ 0 → Separated (blocks r.2.1)
  mem : Plenty mem → Plenty r.2.2

/-- A node that is given back has its place in a tidy list. -/
theorem Tidy.insert {w : Block} {free_list : List qdma_resource_entry} (ht : Tidy w free_list)
    {entry : qdma_resource_entry} (hpos : entry.total_q ≠ 0)
    (hcells : cells (entry.block :: blocks free_list) ≤ w.cells) :
    Within w (blocks (insert_free entry free_list)) ∧
      Ordered (blocks (insert_free entry free_list)) ∧
      ∀ b ∈ blocks (insert_free entry free_list), 0 < b.size := by
  have hentry : entry.block.cells ≤ w.cells :=
    (Multiset.le_add_right _ _).trans (cells_cons _ _ ▸ hcells)
  have hsize : 0 < entry.block.size := Nat.pos_of_ne_zero hpos
  have hin := Block.within_of_cells_le hentry hsize
  have hwindow : 0 < w.size := by
    simp only [Block.stop] at hin
    omega
  rw [blocks_insert_free]
  have hmem : ∀ b ∈ ranges.insert entry.block (blocks free_list),
      b = entry.block ∨ b ∈ blocks free_list := fun b hb => (List.mem_orderedInsert _).mp hb
  refine ⟨fun b hb => ?_, ht.ordered.insert (fun c hc => ?_) hsize (ht.nonempty hwindow), fun b hb => ?_⟩
  · rcases hmem b hb with rfl | hb
    · exact hin
    · exact ht.within b hb
  · refine Block.apart (Multiset.nodup_of_le ?_ w.cells_nodup) hsize (ht.nonempty hwindow c hc)
    refine le_trans ?_ hcells
    rw [cells_cons]
    exact add_le_add_right (cells_le_of_mem hc) _
  · rcases hmem b hb with rfl | hb
    · exact hsize
    · exact ht.nonempty hwindow b hb

/-- `qdma_submit_to_free_list` gives the queues of an entry back. -/
theorem given_back {w : Block} (hw : Numbered w) {entry : qdma_resource_entry}
    {free_list : List qdma_resource_entry} (ht : Tidy w free_list)
    (hcells : cells (entry.block :: blocks free_list) ≤ w.cells) (mem : Memory) :
    GivenBack w entry free_list mem (qdma_submit_to_free_list entry free_list mem) := by
  by_cases hnone : entry.total_q = 0
  · rw [qdma_submit_to_free_list, if_pos hnone]
    exact ⟨ht, rfl, .inl rfl, fun _ => hnone, fun _ h => absurd hnone h, id⟩
  · rw [qdma_submit_to_free_list, if_neg hnone]
    obtain ⟨mem', hmem, hcreate | ⟨hshort, hcreate⟩⟩ :=
      free_entry_create_cases entry.qbase entry.total_q mem
    · rw [hcreate]
      obtain ⟨hwithin, hordered, hpos⟩ := ht.insert hnone hcells
      have hblocks := blocks_defragment hw hwithin
      refine ⟨⟨?_, ?_, fun _ => ?_⟩, ?_, .inr rfl, fun _ => rfl, fun _ _ => ?_, hmem⟩
      · rw [hblocks]
        exact hwithin.joined
      · rw [hblocks]
        exact (separated_joined hordered).ordered
      · rw [hblocks]
        exact size_pos_joined hpos
      · rw [cells_cons, hblocks, cells_joined, blocks_insert_free, cells_insert]
        exact zero_add _
      · rw [hblocks]
        exact separated_joined hordered
    · rw [hcreate]
      exact ⟨ht, rfl, .inl rfl, fun hp => absurd hp hshort, fun hp => absurd hp hshort, hmem⟩

/-- A request for which the sum of base and number does not wrap around. -/
def Fits (qmax : Nat) (qbase : Int) : Prop := 0 ≤ qbase → qbase + qmax < 2 ^ 32

/-- The search for the requested base finds the node that has all of the queues, if there is one. -/
theorem honored_node_spec {w : Block} (hw : Numbered w) {qmax : Nat} {qbase : Int}
    (hbase : 0 ≤ qbase) (hfits : Fits qmax qbase) {before after : List qdma_resource_entry}
    (h : Within w (blocks after)) :
    (∀ p ∈ honored_node qmax qbase before after,
      p.list = before ++ after ∧ p.node.block.Contains qbase qmax) ∧
    (honored_node qmax qbase before after = none →
      ∀ b ∈ blocks after, ¬ b.Contains qbase qmax) := by
  induction after generalizing before with
  | nil => simp [honored_node]
  | cons node after ih =>
    obtain ⟨hlow, hhigh⟩ := h node.block (by simp)
    have hw0 := hw.base
    have hw1 := hw.stop
    have hfits := hfits hbase
    have htest : (qbase ≥ node.qbase ∧
        uint32 (node.qbase + node.total_q) ≥ uint32 (qbase + qmax)) ↔
        node.block.Contains qbase qmax := by
      simp only [Block.Contains, qdma_resource_entry.block_base, qdma_resource_entry.block_stop,
        uint32] at *
      omega
    rw [honored_node]
    split
    · next hyes =>
      refine ⟨?_, fun hnone => absurd hnone (Option.some_ne_none _)⟩
      rintro p ⟨⟩
      exact ⟨rfl, htest.mp hyes⟩
    · next hno =>
      obtain ⟨hsome, hnone⟩ := @ih (before ++ [node])
        fun b hb => h b (List.mem_cons_of_mem _ hb)
      refine ⟨fun p hp => ?_, fun hn b hb => ?_⟩
      · obtain ⟨hlist, hin⟩ := hsome p hp
        exact ⟨by simpa using hlist, hin⟩
      · rcases List.mem_cons.mp hb with rfl | hb
        · exact fun hin => hno (htest.mpr hin)
        · exact hnone hn b hb

/-- A place where the node fits best among the nodes of a list. -/
structure BestFit (qmax : Nat) (l : List qdma_resource_entry) (p : Place) : Prop where
  fits : qmax ≤ p.node.total_q
  best : ∀ node ∈ l, qmax ≤ node.total_q → p.node.total_q ≤ node.total_q

/-- The search for a node finds the smallest one that is large enough, if there is one. -/
theorem best_fit_node_spec {qmax : Nat} {free_list before after : List qdma_resource_entry}
    {best : Option Place} (hlist : free_list = before ++ after)
    (hsome : ∀ p ∈ best, p.list = free_list ∧ BestFit qmax before p)
    (hnone : best = none → ∀ node ∈ before, node.total_q < qmax) :
    (∀ p ∈ best_fit_node qmax best before after, p.list = free_list ∧ BestFit qmax free_list p) ∧
    (best_fit_node qmax best before after = none → ∀ node ∈ free_list, node.total_q < qmax) := by
  induction after generalizing before best with
  | nil =>
    rw [List.append_nil] at hlist
    subst hlist
    exact ⟨hsome, hnone⟩
  | cons node after ih =>
    rw [best_fit_node]
    split
    · next hyes =>
      obtain ⟨hfit, hbetter⟩ := hyes
      refine ih (by simp [hlist]) ?_ (fun h => absurd h (Option.some_ne_none _))
      rintro p ⟨⟩
      refine ⟨hlist.symm, hfit, fun other hother hfits => ?_⟩
      rcases List.mem_append.mp hother with hother | hother
      · cases best with
        | none => exact absurd hfits (Nat.not_le.mpr (hnone rfl other hother))
        | some q => exact (hbetter q rfl).trans ((hsome q rfl).2.best other hother hfits)
      · rw [List.mem_singleton.mp hother]
    · next hno =>
      refine ih (by simp [hlist]) (fun p hp => ?_) (fun h other hother => ?_)
      · obtain ⟨hp1, hp2⟩ := hsome p hp
        refine ⟨hp1, hp2.fits, fun other hother hfits => ?_⟩
        rcases List.mem_append.mp hother with hother | hother
        · exact hp2.best other hother hfits
        · rw [List.mem_singleton.mp hother] at hfits ⊢
          by_contra hworse
          refine hno ⟨hfits, fun q hq => ?_⟩
          cases Option.mem_unique hp hq
          omega
      · rcases List.mem_append.mp hother with hother | hother
        · exact hnone h other hother
        · rw [List.mem_singleton.mp hother]
          by_contra hfit
          exact hno ⟨by omega, by simp [h]⟩

/-- The node for a request: the requested base is honored where a node has all of the queues,
and else the queues are the first ones of a node that fits best. -/
structure Found (qmax : Nat) (qbase : Int) (free_list : List qdma_resource_entry)
    (found : Place × Int) : Prop where
  list : found.1.list = free_list
  contains : found.1.node.block.Contains found.2 qmax
  honored : found.2 = qbase ∨
    (0 ≤ qbase → ∀ b ∈ blocks free_list, ¬ b.Contains qbase qmax) ∧
      found.2 = found.1.node.qbase ∧ BestFit qmax free_list found.1

/-- A node is found exactly when one is large enough. -/
theorem find_node_spec {w : Block} (hw : Numbered w) {qmax : Nat} {qbase : Int}
    (hfits : Fits qmax qbase) {free_list : List qdma_resource_entry}
    (h : Within w (blocks free_list)) :
    (∀ found ∈ find_node qmax qbase free_list, Found qmax qbase free_list found) ∧
    (find_node qmax qbase free_list = none → ∀ node ∈ free_list, node.total_q < qmax) := by
  have hbest := @best_fit_node_spec qmax free_list [] free_list none rfl (by simp) (by simp)
  have hfallback : (0 ≤ qbase → ∀ b ∈ blocks free_list, ¬ b.Contains qbase qmax) →
      ∀ p ∈ best_fit_node qmax none [] free_list, Found qmax qbase free_list (p, p.node.qbase) := by
    intro hno p hp
    obtain ⟨hlist, hfit⟩ := hbest.1 p hp
    have := hfit.fits
    refine ⟨hlist, ⟨le_rfl, ?_⟩, .inr ⟨hno, rfl, hfit⟩⟩
    simp only [qdma_resource_entry.block_stop]
    omega
  unfold find_node
  by_cases hbase : 0 ≤ qbase
  · obtain ⟨hsome, hnone⟩ := @honored_node_spec w hw qmax qbase hbase hfits [] free_list h
    simp only [ge_iff_le, if_pos hbase]
    cases hh : honored_node qmax qbase [] free_list with
    | some p =>
      obtain ⟨hlist, hin⟩ := hsome p hh
      refine ⟨?_, fun h => absurd h (Option.some_ne_none _)⟩
      rintro found ⟨⟩
      exact ⟨hlist, hin, .inl rfl⟩
    | none =>
      refine ⟨fun found hfound => ?_, fun hn => hbest.2 (Option.map_eq_none_iff.mp hn)⟩
      obtain ⟨p, hp, rfl⟩ := Option.map_eq_some_iff.mp hfound
      exact hfallback (fun _ => hnone hh) p hp
  · simp only [ge_iff_le, if_neg hbase]
    refine ⟨fun found hfound => ?_, fun hn => hbest.2 (Option.map_eq_none_iff.mp hn)⟩
    obtain ⟨p, hp, rfl⟩ := Option.map_eq_some_iff.mp hfound
    exact hfallback (fun h => absurd h hbase) p hp

/-- What is left of a tidy free list when a node is taken from it. -/
theorem Tidy.del {w : Block} {p : Place} (hwithin : Within w (blocks p.list))
    (hordered : Ordered (blocks p.list))
    (hpos : 0 < w.size → ∀ b ∈ blocks p.before ++ blocks p.after, 0 < b.size) : Tidy w p.del := by
  have hsub : (blocks p.before ++ blocks p.after).Sublist (blocks p.list) := by
    rw [Place.list, blocks_append, blocks_cons]
    exact (List.sublist_cons_self _ _).append_left _
  rw [← blocks_append] at hsub hpos
  exact ⟨fun b hb => hwithin b (hsub.subset hb), hordered.sublist hsub, hpos⟩

/-- What a request gets from the free list: a node with just its queues, or nothing when there
is no memory for a node. No queue is lost. -/
structure Granted (w : Block) (qmax : Nat) (base : Int) (free_list : List qdma_resource_entry)
    (mem : Memory) (r : Except (List qdma_resource_entry) Place × Memory) : Prop where
  ok : ∀ p, r.1 = .ok p → p.node = ⟨base, qmax⟩ ∧ Tidy w p.del ∧
    cells (p.node.block :: blocks p.del) = cells (blocks free_list)
  error : ∀ l, r.1 = .error l → ¬ Plenty mem ∧ Tidy w l ∧ cells (blocks l) = cells (blocks free_list)

/-- A node and the rest of its list have the queues of the list. -/
theorem Place.cells_list (p : Place) :
    cells (p.node.block :: blocks p.del) = cells (blocks p.list) := by
  simp only [Place.del, Place.list, blocks_append, blocks_cons, cells_cons, cells_append]
  exact add_left_comm _ _ _

/-- A list in order and in the window, with the queues of the free list. -/
structure Recut (w : Block) (free_list l : List qdma_resource_entry) : Prop where
  within : Within w (blocks l)
  ordered : Ordered (blocks l)
  cells : cells (blocks l) = cells (blocks free_list)

/-- A list is a recut of itself. -/
theorem Tidy.recut {w : Block} {l : List qdma_resource_entry} (ht : Tidy w l) : Recut w l l :=
  ⟨ht.within, ht.ordered, rfl⟩

/-- A recut list may be cut once more. -/
theorem Recut.cut {w : Block} {free_list before after : List qdma_resource_entry} {base : Int}
    {m n : Nat} (h : Recut w free_list (before ++ ⟨base, m + n⟩ :: after)) :
    Recut w free_list (before ++ ⟨base, m⟩ :: ⟨base + m, n⟩ :: after) := by
  obtain ⟨hwithin, hordered, hcells⟩ := h
  simp only [blocks_append, blocks_cons, qdma_resource_entry.block] at hwithin hordered hcells
  refine ⟨?_, ?_, ?_⟩ <;> simp only [blocks_append, blocks_cons, qdma_resource_entry.block]
  · exact hwithin.cut
  · exact hordered.cut
  · rw [ranges.cells_cut, hcells]

/-- A recut list without empty nodes is tidy. -/
theorem Recut.tidy {w : Block} {free_list l : List qdma_resource_entry} (h : Recut w free_list l)
    (hpos : 0 < w.size → ∀ b ∈ blocks l, 0 < b.size) : Tidy w l := ⟨h.within, h.ordered, hpos⟩

/-- A node of a recut list that is what was asked for may be granted. -/
theorem Recut.granted {w : Block} {free_list : List qdma_resource_entry} {p : Place} {qmax : Nat}
    {base : Int} (h : Recut w free_list p.list) (hnode : p.node = ⟨base, qmax⟩)
    (hpos : 0 < w.size → ∀ b ∈ blocks p.before ++ blocks p.after, 0 < b.size) (mem mem' : Memory) :
    Granted w qmax base free_list mem (.ok p, mem') := by
  refine ⟨?_, fun l hl => (by cases hl)⟩
  rintro p' ⟨⟩
  exact ⟨hnode, Tidy.del h.within h.ordered hpos, (Place.cells_list p).trans h.cells⟩

/-- A request that finds no memory leaves a tidy list with the same queues. -/
theorem Tidy.refused {w : Block} {free_list l : List qdma_resource_entry} (ht : Tidy w l)
    (hcells : cells (blocks l) = cells (blocks free_list)) {mem : Memory} (hshort : ¬ Plenty mem)
    (qmax : Nat) (base : Int) (mem' : Memory) :
    Granted w qmax base free_list mem (.error l, mem') := by
  refine ⟨fun p hp => (by cases hp), ?_⟩
  rintro l' ⟨⟩
  exact ⟨hshort, ht, hcells⟩

/-- `fragment_free_list` cuts the requested queues out of their node. -/
theorem fragmented {w : Block} (hw : Numbered w) {qmax : Nat} {qbase : Int} {p : Place}
    (ht : Tidy w p.list) (hin : p.node.block.Contains qbase qmax) (mem : Memory) :
    Granted w qmax qbase p.list mem (fragment_free_list qmax qbase p mem) := by
  obtain ⟨before, ⟨base, total⟩, after⟩ := p
  have hw0 := hw.base
  have hw1 := hw.stop
  obtain ⟨hbase, hstop⟩ := ht.within ⟨base, total⟩ (by simp [Place.list, qdma_resource_entry.block])
  obtain ⟨hlow, hhigh⟩ := hin
  simp only [qdma_resource_entry.block_base, qdma_resource_entry.block_stop] at hlow hhigh
  simp only [Block.stop_mk] at hbase hstop
  have hrest : 0 < w.size → ∀ b ∈ blocks before ++ blocks after, 0 < b.size := by
    intro hw b hb
    refine ht.nonempty hw b ?_
    simp only [Place.list, blocks_append, blocks_cons, List.mem_append, List.mem_cons] at hb ⊢
    tauto
  -- the queues below the requested ones, and those above
  obtain ⟨lo, rfl⟩ : ∃ lo : ℕ, qbase = base + lo := ⟨(qbase - base).toNat, by omega⟩
  obtain ⟨hi, rfl⟩ : ∃ hi : ℕ, total = lo + (qmax + hi) := ⟨total - lo - qmax, by omega⟩
  push_cast at hstop
  have hrecut := ht.recut
  unfold fragment_free_list
  by_cases hlo : lo = 0
  · subst hlo
    simp only [Nat.cast_zero, add_zero, true_and, if_true, Nat.zero_add] at hrecut ht ⊢
    by_cases hhi : hi = 0
    · subst hhi
      simp only [add_zero, if_true] at hrecut ⊢
      exact hrecut.granted rfl hrest _ _
    · rw [if_neg (by omega)]
      have hlq : int32 (base + qmax) = base + qmax := int32_of_range (by omega) (by omega)
      have hlm : uint32 ((qmax + hi : ℕ) - qmax) = hi := by
        simp only [uint32]
        omega
      have hq : uint32 ((qmax + hi : ℕ) - hi) = qmax := by
        simp only [uint32]
        omega
      simp only [hlq, hlm, hq]
      obtain ⟨mem', -, hcreate | ⟨hshort, hcreate⟩⟩ :=
        free_entry_create_cases (base + qmax) hi mem
      · rw [hcreate]
        refine Recut.granted (p := ⟨before, ⟨base, qmax⟩, ⟨base + qmax, hi⟩ :: after⟩) hrecut.cut rfl
          (fun hw b hb => ?_) _ _
        simp only [blocks_cons, List.mem_append, List.mem_cons] at hb
        rcases hb with hb | rfl | hb
        · exact hrest hw b (List.mem_append_left _ hb)
        · exact Nat.pos_of_ne_zero hhi
        · exact hrest hw b (List.mem_append_right _ hb)
      · rw [hcreate]
        exact ht.refused rfl hshort _ _ _
  · dsimp only
    rw [if_neg (by omega), if_neg (by omega)]
    have hlm : uint32 (base + lo - base) = lo := by
      simp only [uint32]
      omega
    have hbelow : Recut w (Place.list ⟨before, ⟨base, lo + (qmax + hi)⟩, after⟩)
        (before ++ ⟨base, lo⟩ :: ⟨base + lo, qmax + hi⟩ :: after) := hrecut.cut
    obtain ⟨mem1, hplenty, hcreate | ⟨hshort, hcreate⟩⟩ := free_entry_create_cases base lo mem
    · simp only [hlm, hcreate]
      by_cases hhi : hi = 0
      · subst hhi
        have htop : uint32 (base + lo + qmax) = uint32 (base + (lo + (qmax + 0) : ℕ)) := by
          congr 1
          push_cast
          omega
        rw [if_pos ⟨by omega, htop⟩]
        refine Recut.granted (p := ⟨before ++ [⟨base, lo⟩], ⟨base + lo, qmax⟩, after⟩)
          (by simpa [Place.list] using hbelow) rfl (fun hw b hb => ?_) _ _
        simp only [blocks_append, blocks_cons, blocks_nil, List.mem_append, List.mem_cons,
          List.not_mem_nil, or_false] at hb
        rcases hb with (hb | rfl) | hb
        · exact hrest hw b (List.mem_append_left _ hb)
        · exact Nat.pos_of_ne_zero hlo
        · exact hrest hw b (List.mem_append_right _ hb)
      · have htop : uint32 (base + lo + qmax) ≠ uint32 (base + (lo + (qmax + hi) : ℕ)) := by
          simp only [uint32]
          omega
        have hrestq : uint32 ((lo + (qmax + hi) : ℕ) - lo) = qmax + hi := by
          simp only [uint32]
          omega
        have hlq : int32 (base + lo + qmax) = base + lo + qmax :=
          int32_of_range (by omega) (by omega)
        have hlast : uint32 ((qmax + hi : ℕ) - qmax) = hi := by
          simp only [uint32]
          omega
        simp only [if_neg (not_and_of_not_right _ htop), hrestq, hlq, hlast]
        obtain ⟨mem2, -, hcreate2 | ⟨hshort, hcreate2⟩⟩ :=
          free_entry_create_cases (base + lo + qmax) hi mem1
        · rw [hcreate2]
          have hboth : Recut w (Place.list ⟨before, ⟨base, lo + (qmax + hi)⟩, after⟩)
              ((before ++ [⟨base, lo⟩]) ++ ⟨base + lo, qmax⟩ :: ⟨base + lo + qmax, hi⟩ :: after) :=
            Recut.cut (by simpa using hbelow)
          refine Recut.granted
            (p := ⟨before ++ [⟨base, lo⟩], ⟨base + lo, qmax⟩, ⟨base + lo + qmax, hi⟩ :: after⟩)
            hboth rfl (fun hw b hb => ?_) _ _
          simp only [blocks_append, blocks_cons, blocks_nil, List.mem_append, List.mem_cons,
            List.not_mem_nil, or_false] at hb
          rcases hb with (hb | rfl) | (rfl | hb)
          · exact hrest hw b (List.mem_append_left _ hb)
          · exact Nat.pos_of_ne_zero hlo
          · exact Nat.pos_of_ne_zero hhi
          · exact hrest hw b (List.mem_append_right _ hb)
        · rw [hcreate2]
          refine Tidy.refused (hbelow.tidy fun hw b hb => ?_) hbelow.cells ?_ _ _ _
          · simp only [blocks_append, blocks_cons, List.mem_append, List.mem_cons] at hb
            rcases hb with hb | rfl | rfl | hb
            · exact hrest hw b (List.mem_append_left _ hb)
            · exact Nat.pos_of_ne_zero hlo
            · exact Nat.add_pos_right _ (Nat.pos_of_ne_zero hhi)
            · exact hrest hw b (List.mem_append_right _ hb)
          · exact fun hp => hshort (hplenty hp)
    · simp only [hlm, hcreate]
      exact ht.refused rfl hshort _ _ _

/-- What `qdma_get_resource_node` returns. With memory there is no node for a request only if
none is long enough. -/
structure Served (w : Block) (qmax : Nat) (qbase : Int) (free_list : List qdma_resource_entry)
    (mem : Memory) (r : Except (List qdma_resource_entry) Place × Memory) : Prop where
  ok : ∀ p, r.1 = .ok p → p.node.total_q = qmax ∧ p.node.qbase + qmax ≤ w.stop ∧ Tidy w p.del ∧
    cells (p.node.block :: blocks p.del) = cells (blocks free_list) ∧
    (p.node.qbase = qbase ∨ (0 ≤ qbase → ∀ b ∈ blocks free_list, ¬ b.Contains qbase qmax))
  error : ∀ l, r.1 = .error l → Tidy w l ∧ cells (blocks l) = cells (blocks free_list) ∧
    (Plenty mem → (∀ node ∈ free_list, node.total_q < qmax) ∧ l = free_list ∧ r.2 = mem)

/-- `qdma_get_resource_node` grants the queues or leaves the list as it is. -/
theorem served {w : Block} (hw : Numbered w) {qmax : Nat} {qbase : Int} (hfits : Fits qmax qbase)
    {free_list : List qdma_resource_entry} (ht : Tidy w free_list) (mem : Memory) :
    Served w qmax qbase free_list mem (qdma_get_resource_node qmax qbase free_list mem) := by
  obtain ⟨hsome, hnone⟩ := find_node_spec hw hfits ht.within
  unfold qdma_get_resource_node
  cases hfind : find_node qmax qbase free_list with
  | none =>
    refine ⟨fun p hp => (by cases hp), ?_⟩
    rintro l ⟨⟩
    exact ⟨ht, rfl, fun _ => ⟨hnone hfind, rfl, rfl⟩⟩
  | some found =>
    obtain ⟨p, base⟩ := found
    obtain ⟨hlist, hin, hhonored⟩ := hsome _ hfind
    dsimp only at hlist hin hhonored
    subst hlist
    have hgranted := fragmented hw ht hin mem
    obtain ⟨-, htop⟩ := ht.within p.node.block (by simp [Place.list])
    refine ⟨fun q hq => ?_, fun l hl => ?_⟩
    · obtain ⟨hnode, htidy, hcells⟩ := hgranted.ok q hq
      simp only [hnode] at hcells ⊢
      exact ⟨trivial, hin.2.trans htop, htidy, hcells,
        hhonored.imp id fun h hbase => h.1 hbase⟩
    · obtain ⟨hshort, htidy, hcells⟩ := hgranted.error l hl
      exact ⟨htidy, hcells, fun hp => absurd hp hshort⟩

/-- The queues of a request are all among some blocks. -/
def Available (blocks : List Block) (base : Int) (qmax : Nat) : Prop :=
  ∀ x, base ≤ x → x < base + qmax → x ∈ cells blocks

/-- Queues that are in one block are available. -/
theorem available_of_contains {blocks : List Block} {b : Block} (hb : b ∈ blocks) {base : Int}
    {qmax : Nat} (h : b.Contains base qmax) : Available blocks base qmax := by
  intro x hlow hhigh
  refine mem_cells.mpr ⟨b, hb, Block.mem_cells.mpr ⟨h.1.trans hlow, ?_⟩⟩
  exact lt_of_lt_of_le hhigh h.2

/-- Which queues are available does not depend on how they are cut into blocks. -/
theorem available_iff {l l' : List Block} (h : cells l = cells l') {base : Int} {qmax : Nat} :
    Available l base qmax ↔ Available l' base qmax := by
  simp only [Available, h]

/-- What a request does to the queues of the function and the free list. No queue is in two
places after it, and with memory none is lost. A function that has queues is granted a request
if and only if consecutive queues for it are free or its own, the requested ones if these are,
and otherwise keeps the queues it has. -/
structure Requested (w : Block) (entry : qdma_resource_entry) (qmax : Nat) (qbase : Int)
    (free_list : List qdma_resource_entry) (mem : Memory) (r : Rv × Allotment) : Prop where
  tidy : Tidy w r.2.free_list
  top : r.2.entry.qbase + r.2.entry.total_q ≤ w.stop
  cells_le : cells (r.2.entry.block :: blocks r.2.free_list) ≤ cells (entry.block :: blocks free_list)
  cells_eq : Plenty mem →
    cells (r.2.entry.block :: blocks r.2.free_list) = cells (entry.block :: blocks free_list)
  granted : Plenty mem → entry.total_q ≠ 0 → qmax ≠ 0 →
    (r.1 = .QDMA_SUCCESS ↔ ∃ base, Available (entry.block :: blocks free_list) base qmax)
  size : qmax ≠ 0 → r.1 = .QDMA_SUCCESS → r.2.entry.total_q = qmax
  honored : Plenty mem → entry.total_q ≠ 0 → qmax ≠ 0 → 0 ≤ qbase →
    Available (entry.block :: blocks free_list) qbase qmax → r.2.entry = ⟨qbase, qmax⟩
  restored : Plenty mem → entry.total_q ≠ 0 → r.1 ≠ .QDMA_SUCCESS → r.2.entry = entry

/-- When neighbours are joined, consecutive queues are in one node. -/
theorem run_fits {w : Block} {free_list : List qdma_resource_entry}
    (hseparated : Separated (blocks free_list)) (hwithin : Within w (blocks free_list)) {base : Int}
    {qmax : Nat} (hpos : qmax ≠ 0) (h : Available (blocks free_list) base qmax) :
    w.base ≤ base ∧ (∃ b ∈ blocks free_list, b.Contains base qmax) ∧
      ∃ node ∈ free_list, qmax ≤ node.total_q := by
  obtain ⟨b, hb, hin⟩ := hseparated.run_in_block (Nat.pos_of_ne_zero hpos) h
  obtain ⟨node, hnode, rfl⟩ := mem_blocks.mp hb
  refine ⟨(hwithin _ hb).1.trans hin.1, ⟨_, hb, hin⟩, node, hnode, ?_⟩
  obtain ⟨hlow, hhigh⟩ := hin
  simp only [qdma_resource_entry.block_base, qdma_resource_entry.block_stop] at hlow hhigh
  omega

/-- `qdma_request_q_resource` exchanges the queues of an entry for the requested ones. -/
theorem requested {w : Block} (hw : Numbered w) {entry : qdma_resource_entry} {qmax : Nat}
    {qbase : Int} (hfits : Fits qmax qbase) {free_list : List qdma_resource_entry}
    (ht : Tidy w free_list) (hcells : cells (entry.block :: blocks free_list) ≤ w.cells)
    (htop : entry.qbase + entry.total_q ≤ w.stop) (mem : Memory) :
    Requested w entry qmax qbase free_list mem
      (qdma_request_q_resource entry qmax qbase free_list mem) := by
  have hgiven := given_back hw ht hcells mem
  unfold qdma_request_q_resource
  generalize qdma_submit_to_free_list entry free_list mem = given at hgiven
  obtain ⟨given, free1, mem1⟩ := given
  obtain ⟨ht1, hcells1, hkept, hemptied, hseparated, hplenty⟩ := hgiven
  dsimp only at ht1 hcells1 hkept hemptied hseparated hplenty ⊢
  have hw0 := hw.base
  have hw1 := hw.stop
  have hstop : (-1 : Int) + (0 : ℕ) ≤ w.stop := by
    simp only [Block.stop]
    omega
  have hle : cells (blocks free1) ≤ cells (entry.block :: blocks free_list) := by
    rw [← hcells1, cells_cons]
    exact Multiset.le_add_left _ _
  have hfree : Plenty mem → cells (blocks free1) = cells (entry.block :: blocks free_list) := by
    intro hp
    rw [← hcells1, cells_cons]
    simp [qdma_resource_entry.block, hemptied hp]
  have hown : Plenty mem → Available (blocks free1) entry.qbase entry.total_q := fun hp =>
    (available_iff (hfree hp)).mpr
      (available_of_contains (b := entry.block) List.mem_cons_self ⟨le_rfl, le_rfl⟩)
  by_cases hnone : qmax = 0
  · rw [if_pos hnone]
    refine ⟨ht1, ?_, hcells1.le, fun _ => hcells1, fun _ _ h => absurd hnone h,
      fun h => absurd hnone h, fun _ _ h => absurd hnone h, fun _ _ h => absurd rfl h⟩
    rcases hkept with rfl | rfl
    · exact htop
    · exact hstop
  · rw [if_neg hnone]
    have hserved := served hw hfits ht1 mem1
    generalize qdma_get_resource_node qmax qbase free1 mem1 = r at hserved
    obtain ⟨p | p, mem2⟩ := r
    · -- not granted: the free list is searched for as many queues as there were
      obtain ⟨ht2, hcells2, hshort⟩ := hserved.error p rfl
      have hno : Plenty mem → entry.total_q ≠ 0 →
          ¬ ∃ base, Available (entry.block :: blocks free_list) base qmax := by
        rintro hp hpos ⟨base, h⟩
        obtain ⟨-, -, node, hnode, hfit⟩ := run_fits (hseparated hp hpos) ht1.within hnone
          ((available_iff (hfree hp)).mpr h)
        have := (hshort (hplenty hp)).1 node hnode
        omega
      have hback : Fits entry.total_q entry.qbase := fun _ => by omega
      have hserved2 := served hw hback ht2 mem2
      dsimp only
      generalize qdma_get_resource_node entry.total_q entry.qbase p mem2 = r at hserved2
      have hrefused : ∀ e, Plenty mem → entry.total_q ≠ 0 → qmax ≠ 0 → 0 ≤ qbase →
          Available (entry.block :: blocks free_list) qbase qmax → e = (⟨qbase, qmax⟩ : qdma_resource_entry) :=
        fun _ hp hpos _ _ h => absurd ⟨qbase, h⟩ (hno hp hpos)
      obtain ⟨l | q, mem3⟩ := r
      · obtain ⟨ht3, hcells3, hshort3⟩ := hserved2.error l rfl
        have hlost : Plenty mem → entry.total_q = 0 := by
          intro hp
          by_contra hpos
          obtain ⟨-, rfl, hmem⟩ := hshort (hplenty hp)
          obtain ⟨-, -, node, hnode, hfit⟩ := run_fits (hseparated hp hpos) ht1.within hpos (hown hp)
          have hmem : mem2 = mem1 := hmem
          have := (hshort3 (hmem ▸ hplenty hp)).1 node hnode
          omega
        have hsame : cells (blocks l) = cells (blocks free1) := hcells3.trans hcells2
        refine ⟨ht3, hstop, ?_, fun hp => ?_, fun hp hpos => absurd (hlost hp) hpos,
          fun _ h => (by cases h), hrefused _, fun hp hpos => absurd (hlost hp) hpos⟩
        · rw [cells_cons, hsame]
          exact (zero_add (cells (blocks free1))).le.trans hle
        · rw [cells_cons, hsame, ← hfree hp]
          exact zero_add _
      · obtain ⟨hsize, hq, htidy, hcells3, hhonored⟩ := hserved2.ok q rfl
        have hsame : cells (q.node.block :: blocks q.del) = cells (blocks free1) :=
          hcells3.trans hcells2
        refine ⟨htidy, ?_, hsame.le.trans hle, fun hp => hsame.trans (hfree hp),
          fun hp hpos _ => iff_of_false (fun h => by cases h) (hno hp hpos),
          fun _ h => (by cases h), hrefused _, fun hp hpos _ => ?_⟩
        · dsimp only
          rw [hsize]
          exact hq
        · obtain ⟨-, rfl, -⟩ := hshort (hplenty hp)
          obtain ⟨hlow, ⟨b, hb, hin⟩, -⟩ :=
            run_fits (hseparated hp hpos) ht1.within hpos (hown hp)
          have hbase : q.node.qbase = entry.qbase :=
            hhonored.resolve_right fun h => h (hw0.trans hlow) b hb hin
          exact qdma_resource_entry.ext hbase hsize
    · obtain ⟨hsize, hq, htidy, hcells2, hhonored⟩ := hserved.ok p rfl
      refine ⟨htidy, ?_, hcells2.le.trans hle, fun hp => hcells2.trans (hfree hp),
        fun hp _ _ => iff_of_true rfl ⟨p.node.qbase, ?_⟩, fun _ _ => hsize,
        fun hp hpos _ hbase h => ?_, fun _ _ h => absurd rfl h⟩
      · dsimp only
        rw [hsize]
        exact hq
      · refine (available_iff (hcells2.trans (hfree hp))).mp
          (available_of_contains (b := p.node.block) List.mem_cons_self ⟨le_rfl, ?_⟩)
        rw [qdma_resource_entry.block_stop, hsize]
      · obtain ⟨-, ⟨b, hb, hin⟩, -⟩ := run_fits (hseparated hp hpos) ht1.within hnone
          ((available_iff (hfree hp)).mpr h)
        have hat : p.node.qbase = qbase := hhonored.resolve_right fun h => h hbase b hb hin
        exact qdma_resource_entry.ext hat hsize

end reconic.qdma_resource_mgmt
