import RecoNIC.Clocked.Packets

namespace clocked

/-- The packets of a stream that is merged from several sources, each of which comes from one. -/
structure Frames.SingleSource {ι α : Type} (f : Frames (ι × α)) : Prop where
  complete : ∀ p ∈ f.complete, p ≠ [] ∧ ∃ k, ∀ x ∈ p, x.1 = k
  current : ∀ x ∈ f.current, ∀ y ∈ f.current, x.1 = y.1

section Merging

variable {ι α : Type}

theorem Frames.SingleSource.push {last : α → Bool} {f : Frames (ι × α)} (h : f.SingleSource) (x : ι × α)
    (hcurrent : ∀ y ∈ f.current, y.1 = x.1) :
    (f.push (fun x => last x.2) x).SingleSource := by
  have hnew : ∀ y ∈ f.current ++ [x], y.1 = x.1 := by
    intro y hy
    rcases List.mem_append.mp hy with hy | hy
    · exact hcurrent y hy
    · rw [List.mem_singleton.mp hy]
  unfold Frames.push
  split
  · refine ⟨fun p hp => ?_, fun y hy => (by cases hy)⟩
    rcases List.mem_append.mp hp with hp | hp
    · exact h.complete p hp
    · rw [List.mem_singleton.mp hp]
      exact ⟨by simp, x.1, hnew⟩
  · exact ⟨h.complete, fun y hy z hz => (hnew y hy).trans (hnew z hz).symm⟩

variable [DecidableEq ι]

/-- Whether a packet comes from a source. -/
def from_source (k : ι) (p : List (ι × α)) : Bool := p.all fun x => decide (x.1 = k)

/-- The packets of a merged stream that come from a source, without its mark. -/
def Frames.of_source (k : ι) (f : Frames (ι × α)) : Frames α :=
  ⟨(f.complete.filter (from_source k)).map (List.map Prod.snd),
    if from_source k f.current then f.current.map Prod.snd else []⟩

@[simp] theorem from_source_nil (k : ι) : from_source k ([] : List (ι × α)) = true := rfl

variable {last : α → Bool} {f : Frames (ι × α)}

/-- A beat of a source belongs to its own packets only. -/
theorem Frames.of_source_push (k : ι) (x : ι × α) (hcurrent : ∀ y ∈ f.current, y.1 = x.1) :
    (f.push (fun x => last x.2) x).of_source k =
      if x.1 = k then (f.of_source k).push last x.2 else f.of_source k := by
  have hnew : from_source k (f.current ++ [x]) = decide (x.1 = k) := by
    rw [from_source, List.all_append]
    by_cases hx : x.1 = k
    · rw [List.all_eq_true.mpr fun y hy => decide_eq_true ((hcurrent y hy).trans hx)]
      simp [hx]
    · simp [hx]
  have hmine : x.1 = k → from_source k f.current = true := fun hx =>
    List.all_eq_true.mpr fun y hy => decide_eq_true ((hcurrent y hy).trans hx)
  have hother : x.1 ≠ k → (if from_source k f.current then f.current.map Prod.snd else []) = [] := by
    intro hx
    cases hcur : f.current with
    | nil => simp
    | cons y ys =>
      have hy := hcurrent y (hcur ▸ List.mem_cons_self)
      simp [from_source, hy, hx]
  unfold Frames.push
  by_cases hlast : last x.2 = true <;> by_cases hx : x.1 = k
  · simp [Frames.of_source, List.filter_append, hlast, hnew, hx, hmine hx]
  · simp [Frames.of_source, List.filter_append, hlast, hnew, hx, hother hx]
  · simp [Frames.of_source, hlast, hnew, hx, hmine hx]
  · simp [Frames.of_source, hlast, hnew, hx, hother hx]

end Merging

end clocked
