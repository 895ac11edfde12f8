import Mathlib.Data.List.Induction
import Mathlib.Tactic.Common

namespace clocked

/-- A stream cut into packets at the elements that carry the end mark: the
packets that have ended, and the beats of the one that has not. -/
structure Frames (α : Type) where
  complete : List (List α)
  current : List α

def Frames.push {α : Type} (last : α → Bool) (f : Frames α) (a : α) : Frames α :=
  if last a then ⟨f.complete ++ [f.current ++ [a]], []⟩ else ⟨f.complete, f.current ++ [a]⟩

/-- The packet that has not ended is given up. -/
def Frames.abort {α : Type} (f : Frames α) : Frames α := ⟨f.complete, []⟩

/-- The packets of a stream. -/
def frames {α : Type} (last : α → Bool) (l : List α) : Frames α :=
  l.foldl (Frames.push last) ⟨[], []⟩

/-- All packets that have begun, the one that has not ended included. -/
def Frames.packets {α : Type} (f : Frames α) : List (List α) :=
  if f.current.isEmpty then f.complete else f.complete ++ [f.current]

/-- How many elements of `l` begin a packet, when the stream before it has
stopped inside a packet (`mid`) or at a packet boundary. -/
def heads {α : Type} (last : α → Bool) : Bool → List α → Nat
  | _, [] => 0
  | true, a :: l => heads last (!last a) l
  | false, a :: l => heads last (!last a) l + 1

/-- Whether the stream is inside a packet after `l`. -/
def midAfter {α : Type} (last : α → Bool) (mid : Bool) (l : List α) : Bool :=
  l.foldl (fun _ a => !last a) mid

@[simp] theorem frames_nil {α : Type} (last : α → Bool) : frames last [] = ⟨[], []⟩ := rfl

@[simp] theorem frames_snoc {α : Type} (last : α → Bool) (l : List α) (a : α) :
    frames last (l ++ [a]) = (frames last l).push last a := by
  simp [frames]

/-- The elements of all packets, the one that has not ended included. -/
theorem Frames.push_elements {α : Type} (last : α → Bool) (f : Frames α) (a : α) :
    (f.push last a).complete.flatten ++ (f.push last a).current =
      f.complete.flatten ++ f.current ++ [a] := by
  by_cases ha : last a <;> simp [Frames.push, ha]

theorem Frames.complete_push {α : Type} (last : α → Bool) (f : Frames α) (a : α) :
    f.complete <+: (f.push last a).complete := by
  by_cases ha : last a <;> simp [Frames.push, ha]

/-- Every element extends the current packet, be it by its first beat. -/
theorem Frames.packets_push {α : Type} (last : α → Bool) (f : Frames α) (a : α) :
    (f.push last a).packets = f.complete ++ [f.current ++ [a]] := by
  by_cases ha : last a <;> simp [Frames.push, Frames.packets, ha]

theorem Frames.packets_of_boundary {α : Type} {f : Frames α} (h : f.current = []) :
    f.packets = f.complete := by
  simp [Frames.packets, h]

theorem Frames.packets_of_inside {α : Type} {f : Frames α} (h : f.current ≠ []) :
    f.packets = f.complete ++ [f.current] := by
  simp [Frames.packets, h]

/-- Packets that have ended stay as they are when the stream goes on. -/
theorem frames_complete_initial {α : Type} (last : α → Bool) {l l' : List α} (h : l <+: l') :
    (frames last l).complete <+: (frames last l').complete := by
  obtain ⟨rest, rfl⟩ := h
  induction rest using List.reverseRecOn with
  | nil => simp
  | append_singleton rest a ih =>
    refine ih.trans ?_
    rw [← List.append_assoc, frames_snoc]
    by_cases ha : last a <;> simp [Frames.push, ha]

theorem midAfter_snoc {α : Type} (last : α → Bool) (mid : Bool) (l : List α) (a : α) :
    midAfter last mid (l ++ [a]) = !last a := by
  simp [midAfter]

/-- Appending one element adds a head exactly at a packet boundary. -/
theorem heads_snoc {α : Type} (last : α → Bool) (mid : Bool) (l : List α) (a : α) :
    heads last mid (l ++ [a]) = heads last mid l + (if midAfter last mid l then 0 else 1) := by
  induction l generalizing mid with
  | nil => cases mid <;> simp [heads, midAfter]
  | cons b l ih =>
    cases mid with
    | true => exact ih (!last b)
    | false =>
      simp only [List.cons_append, heads, ih]
      exact Nat.add_right_comm _ _ _

/-- A stream has at most as many heads as elements. -/
theorem heads_le_length {α : Type} (last : α → Bool) (mid : Bool) (l : List α) :
    heads last mid l ≤ l.length := by
  induction l generalizing mid with
  | nil => simp [heads]
  | cons a l ih =>
    have hrest := ih (!last a)
    cases mid <;> simp only [heads, List.length_cons] <;> omega

end clocked
