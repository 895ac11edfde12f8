import RecoNIC.Clocked.Frames
import Mathlib.Data.List.Basic
import Mathlib.Data.List.Chain

namespace clocked

/-- A packet as a stream has it: its last element and no other one carries the end mark. -/
def Framed {α : Type} (last : α → Bool) (p : List α) : Prop :=
  ∃ init a, p = init ++ [a] ∧ last a = true ∧ ∀ b ∈ init, last b = false

/-- The elements of packets, each with its packet. -/
def tagged {α : Type} (ps : List (List α)) : List (List α × α) :=
  ps.flatMap fun p => p.map fun a => (p, a)

section Packets

variable {α : Type} {last : α → Bool}

theorem Framed.ne_nil {p : List α} (h : Framed last p) : p ≠ [] := by
  obtain ⟨init, a, rfl, -⟩ := h
  simp

/-- Before the end of a packet there is no end mark. -/
theorem Framed.countP_take {p : List α} (h : Framed last p) {n : Nat} (hn : n < p.length) :
    (p.take n).countP last = 0 := by
  obtain ⟨init, a, rfl, -, hinit⟩ := h
  rw [List.length_append, List.length_singleton] at hn
  rw [List.take_append_of_le_length (by omega), List.countP_eq_zero]
  exact fun b hb => by simp [hinit b (List.mem_of_mem_take hb)]

theorem Framed.countP {p : List α} (h : Framed last p) : p.countP last = 1 := by
  obtain ⟨init, a, rfl, ha, hinit⟩ := h
  rw [List.countP_append, List.countP_eq_zero.mpr (fun b hb => by simp [hinit b hb])]
  simp [ha]

theorem countP_flatten {ps : List (List α)} (hps : ∀ p ∈ ps, Framed last p) :
    ps.flatten.countP last = ps.length := by
  induction ps with
  | nil => rfl
  | cons p ps ih =>
    rw [List.flatten_cons, List.countP_append, (hps p List.mem_cons_self).countP,
      ih fun q hq => hps q (List.mem_cons_of_mem _ hq), List.length_cons, Nat.add_comm]

/-- Packets end with an end mark. -/
theorem flatten_ends {ps : List (List α)} (hps : ∀ p ∈ ps, Framed last p) {l more : List α}
    (hflatten : ps.flatten = l ++ more) (hmore : more.countP last = 0) : more = [] := by
  by_contra hne
  obtain ⟨init, b, rfl⟩ := (List.eq_nil_or_concat' more).resolve_left hne
  rcases List.eq_nil_or_concat' ps with rfl | ⟨before, p, rfl⟩
  · simp at hflatten
  · obtain ⟨q, a, rfl, ha, -⟩ := hps p (by simp)
    have hsame : b = a := by
      have := congrArg List.getLast? hflatten
      simpa [← List.append_assoc] using this.symm
    rw [List.countP_append, hsame] at hmore
    simp [ha] at hmore

theorem tagged_append (ps qs : List (List α)) : tagged (ps ++ qs) = tagged ps ++ tagged qs := by
  simp [tagged]

theorem tagged_map_snd (ps : List (List α)) : (tagged ps).map Prod.snd = ps.flatten := by
  simp [tagged, List.flatMap_def, Function.comp_def]

theorem tagged_length (ps : List (List α)) : (tagged ps).length = ps.flatten.length := by
  rw [← tagged_map_snd, List.length_map]

/-- An element belongs to the packet with as many packets before it as there are end marks. -/
theorem tagged_getElem? {ps : List (List α)} (hps : ∀ p ∈ ps, Framed last p) {n : Nat} {a : α}
    (ha : ps.flatten[n]? = some a) :
    ∃ p, ps[(ps.flatten.take n).countP last]? = some p ∧ (tagged ps)[n]? = some (p, a) := by
  induction ps generalizing n with
  | nil => simp at ha
  | cons p ps ih =>
    have hp := hps p List.mem_cons_self
    have hcons : tagged (p :: ps) = (p.map fun b => (p, b)) ++ tagged ps := by simp [tagged]
    rw [List.flatten_cons] at ha ⊢
    by_cases hn : n < p.length
    · rw [List.getElem?_append_left hn] at ha
      refine ⟨p, ?_, ?_⟩
      · rw [List.take_append_of_le_length (Nat.le_of_lt hn), hp.countP_take hn]
        rfl
      · rw [hcons, List.getElem?_append_left (by simpa using hn), List.getElem?_map, ha]
        rfl
    · rw [List.getElem?_append_right (by omega)] at ha
      obtain ⟨q, hq, htag⟩ := ih (fun q hq => hps q (List.mem_cons_of_mem _ hq)) ha
      refine ⟨q, ?_, ?_⟩
      · rw [List.take_append, List.take_of_length_le (by omega), List.countP_append, hp.countP,
          Nat.add_comm]
        exact hq
      · rw [hcons, List.getElem?_append_right (by simp; omega), List.length_map]
        exact htag

/-- The end of a packet makes the count of end marks that of the packets up to it. -/
theorem countP_take_succ {l : List α} {n : Nat} {a : α} (ha : l[n]? = some a) :
    (l.take (n + 1)).countP last = (l.take n).countP last + if last a then 1 else 0 := by
  rw [List.take_add_one, ha, List.countP_append]
  simp [List.countP_cons]

/-- An element that is not sent yet leaves its packet unfinished. -/
theorem countP_take_lt {ps : List (List α)} (hps : ∀ p ∈ ps, Framed last p) {n : Nat}
    (hn : n < ps.flatten.length) : (ps.flatten.take n).countP last < ps.length := by
  obtain ⟨p, hp, -⟩ := tagged_getElem? hps (List.getElem?_eq_getElem hn)
  exact (List.getElem?_eq_some_iff.mp hp).1

/-- As many packets are unfinished as there are elements left, at most. -/
theorem unfinished_le {ps : List (List α)} (hps : ∀ p ∈ ps, Framed last p) (n : Nat) :
    ps.length - (ps.flatten.take n).countP last ≤ ps.flatten.length - n := by
  have hall := countP_flatten hps
  have hsplit : (ps.flatten.take n).countP last + (ps.flatten.drop n).countP last = ps.length := by
    rw [← List.countP_append, List.take_append_drop, hall]
  have hrest : (ps.flatten.drop n).countP last ≤ (ps.flatten.drop n).length := List.countP_le_length
  rw [List.length_drop] at hrest
  omega

end Packets

/-- The packets of a stream are made of its elements. -/
theorem frames_elements {α : Type} (last : α → Bool) (l : List α) :
    (frames last l).complete.flatten ++ (frames last l).current = l := by
  induction l using List.reverseRecOn with
  | nil => rfl
  | append_singleton l a ih => rw [frames_snoc, Frames.push_elements, ih]

/-- When the key only changes after an element with the end mark, what goes on has the key of the
packet that has not ended. -/
theorem frames_current_key {α κ : Type} {last : α → Bool} (key : α → κ) {l : List α} {b : α}
    (h : (l ++ [b]).IsChain fun x y => last x = false → key y = key x) :
    ∀ x ∈ (frames last l).current, key x = key b := by
  induction l using List.reverseRecOn generalizing b with
  | nil => simp
  | append_singleton l a ih =>
    intro x hx
    rw [frames_snoc, Frames.push] at hx
    split at hx
    · cases hx
    · next ha =>
      have hlast : key b = key a :=
        (List.isChain_append.mp h).2.2 a (by simp) b (by simp) (Bool.eq_false_iff.mpr ha)
      rcases List.mem_append.mp hx with hx | hx
      · rw [ih h.left_of_append x hx, hlast]
      · rw [List.mem_singleton.mp hx, hlast]

/-- Packets that are pieced together from a stream, with the one that has not ended. -/
structure Frames.Framed {α : Type} (last : α → Bool) (f : Frames α) : Prop where
  complete : ∀ p ∈ f.complete, clocked.Framed last p
  current : ∀ a ∈ f.current, last a = false

section Frames

variable {α : Type} {last : α → Bool} {f : Frames α}

theorem Frames.Framed.abort (h : f.Framed last) : f.abort.Framed last :=
  ⟨h.complete, fun _ ha => (by cases ha)⟩

theorem Frames.Framed.push (h : f.Framed last) (a : α) : (f.push last a).Framed last := by
  unfold Frames.push
  split
  · next ha =>
    refine ⟨fun p hp => ?_, fun _ hb => (by cases hb)⟩
    rcases List.mem_append.mp hp with hp | hp
    · exact h.complete p hp
    · rw [List.mem_singleton.mp hp]
      exact ⟨f.current, a, rfl, ha, h.current⟩
  · next ha =>
    refine ⟨h.complete, fun b hb => ?_⟩
    rcases List.mem_append.mp hb with hb | hb
    · exact h.current b hb
    · rw [List.mem_singleton.mp hb]
      exact Bool.eq_false_iff.mpr ha

/-- The packets of every stream are framed. -/
theorem frames_framed (last : α → Bool) (l : List α) : (frames last l).Framed last := by
  induction l using List.reverseRecOn with
  | nil => exact ⟨fun _ hp => (by cases hp), fun _ ha => (by cases ha)⟩
  | append_singleton l a ih =>
    rw [frames_snoc]
    exact ih.push a

/-- The next element belongs to a packet that has ended, when there is an end mark in what follows. -/
theorem initial_of_ended {l l' : List α} {a : α} (hended : 0 < (a :: l').countP last) :
    l ++ [a] <+: (frames last (l ++ a :: l')).complete.flatten := by
  have helements := frames_elements last (l ++ a :: l')
  have hframed := frames_framed last (l ++ a :: l')
  generalize frames last (l ++ a :: l') = f at *
  have hlong : l.length < f.complete.flatten.length := by
    by_contra hshort
    obtain ⟨more, hmore⟩ := List.prefix_of_prefix_length_le ⟨_, helements⟩ ⟨_, rfl⟩
      (Nat.le_of_not_lt hshort)
    rw [← hmore, List.append_assoc] at helements
    have hcurrent := List.append_cancel_left helements
    have hmem : ∀ b ∈ a :: l', last b = false := fun b hb =>
      hframed.current b (by rw [hcurrent]; exact List.mem_append_right _ hb)
    have hnone : (a :: l').countP last = 0 :=
      List.countP_eq_zero.mpr fun b hb => by simp [hmem b hb]
    omega
  refine List.prefix_of_prefix_length_le ⟨l', ?_⟩ ⟨_, helements⟩ ?_
  · rw [List.append_assoc]
    rfl
  · rw [List.length_append, List.length_singleton]
    exact hlong

end Frames

end clocked
