import Mathlib.Data.List.Basic
import Mathlib.Data.List.GetD
import RecoNIC.Bits.Numerals

namespace bits

/-- A memory of bytes under 64-bit addresses. -/
abbrev Memory := BitVec 64 → Byte

/-- The memory after bytes have been stored from an address on. -/
def Memory.store (m : Memory) (address : BitVec 64) (bytes : List Byte) : Memory := fun a =>
  bytes.getD (a - address).toNat (m a)

def Memory.load (m : Memory) (address : BitVec 64) (n : Nat) : List Byte :=
  (List.range n).map fun k => m (address + BitVec.ofNat 64 k)

@[simp] theorem Memory.load_length (m : Memory) (address : BitVec 64) (n : Nat) :
    (m.load address n).length = n := by
  rw [Memory.load, List.length_map, List.length_range]

theorem Memory.load_store (m : Memory) (address : BitVec 64) (bytes : List Byte)
    (hfits : bytes.length ≤ 2 ^ 64) : (m.store address bytes).load address bytes.length = bytes := by
  apply List.ext_getElem
  · exact Memory.load_length ..
  · intro k _ hk
    have hplace : (address + BitVec.ofNat 64 k - address).toNat = k := by
      rw [BitVec.add_comm, BitVec.add_sub_cancel, BitVec.toNat_ofNat, Nat.mod_eq_of_lt (by omega)]
    simp only [Memory.load, Memory.store, List.getElem_map, List.getElem_range, hplace]
    exact List.getD_eq_getElem _ _ hk

theorem Memory.store_outside (m : Memory) {address a : BitVec 64} {bytes : List Byte}
    (houtside : bytes.length ≤ (a - address).toNat) : m.store address bytes a = m a := by
  rw [Memory.store, List.getD_eq_default _ _ houtside]

theorem Memory.load_add (m : Memory) (address : BitVec 64) (n k : Nat) :
    m.load address (n + k) = m.load address n ++ m.load (address + BitVec.ofNat 64 n) k := by
  simp only [Memory.load, List.range_add, List.map_append, List.map_map, Function.comp_def,
    BitVec.add_assoc, BitVec.ofNat_add]

/-- The distance to an address that lies `k` behind another one. -/
theorem sub_add_toNat (a address : BitVec 64) {k : Nat} (hk : k < 2 ^ 64) :
    (a - (address + BitVec.ofNat 64 k)).toNat =
      if k ≤ (a - address).toNat then (a - address).toNat - k
      else 2 ^ 64 - k + (a - address).toNat := by
  have hsub : a - (address + BitVec.ofNat 64 k) = a - address - BitVec.ofNat 64 k := by
    rw [BitVec.sub_sub]
  have hlt := (a - address).isLt
  rw [hsub, BitVec.toNat_sub, BitVec.toNat_ofNat, Nat.mod_eq_of_lt hk]
  split <;> omega

/-- Storing behind bytes that have just been stored. -/
theorem Memory.store_append (m : Memory) (address : BitVec 64) (front back : List Byte)
    (hfits : (front ++ back).length < 2 ^ 64) :
    (m.store address front).store (address + BitVec.ofNat 64 front.length) back =
      m.store address (front ++ back) := by
  funext a
  rw [List.length_append] at hfits
  have hdistance := sub_add_toNat a address (k := front.length) (by omega)
  simp only [Memory.store, hdistance]
  obtain hbefore | hbehind := Nat.lt_or_ge (a - address).toNat front.length
  · have hback : back.length ≤ 2 ^ 64 - front.length + (a - address).toNat := by omega
    rw [if_neg (by omega), List.getD_eq_default _ _ hback, List.getD_append _ _ _ _ hbefore]
  · rw [if_pos hbehind, List.getD_append_right _ _ _ _ hbehind, List.getD_eq_default front _ hbehind]

/-- Storing into bytes that have just been stored. -/
theorem Memory.store_store (m : Memory) (address : BitVec 64) (front back : List Byte)
    {old new : List Byte} (hlength : old.length = new.length)
    (hfits : (front ++ old ++ back).length < 2 ^ 64) :
    (m.store address (front ++ old ++ back)).store (address + BitVec.ofNat 64 front.length) new =
      m.store address (front ++ new ++ back) := by
  funext a
  simp only [List.length_append] at hfits
  have hdistance := sub_add_toNat a address (k := front.length) (by omega)
  simp only [Memory.store, hdistance]
  obtain hbefore | hbehind := Nat.lt_or_ge (a - address).toNat front.length
  · have hnew : new.length ≤ 2 ^ 64 - front.length + (a - address).toNat := by omega
    rw [if_neg (by omega), List.getD_eq_default _ _ hnew, List.append_assoc, List.append_assoc,
      List.getD_append _ _ _ _ hbefore, List.getD_append _ _ _ _ hbefore]
  · rw [if_pos hbehind]
    simp only [List.append_assoc, List.getD_append_right _ _ _ _ hbehind]
    obtain hinside | hafter := Nat.lt_or_ge ((a - address).toNat - front.length) new.length
    · rw [List.getD_append _ _ _ _ hinside, List.getD_eq_getElem _ _ hinside,
        List.getD_eq_getElem _ _ hinside]
    · rw [List.getD_eq_default new _ hafter, List.getD_append_right new _ _ _ hafter,
        List.getD_append_right old _ _ _ (hlength ▸ hafter), hlength]

/-- The fields of a record in their order in memory, and the sizes of these. -/
structure Layout (F : Type) where
  fields : List F
  size : F → Nat
  nodup : fields.Nodup

section Layout

variable {F : Type} (L : Layout F)

def Layout.total : Nat := (L.fields.map L.size).sum

/-- The bytes of a record with these values. -/
def Layout.encode (value : F → Nat) : List Byte :=
  L.fields.flatMap fun field => little_endian (L.size field) (value field)

/-- The number that a record makes up, with its first field in the lowest place. -/
def Layout.word (value : F → Nat) : Nat :=
  L.fields.foldr (fun field rest => value field + 256 ^ L.size field * rest) 0

/-- It fits into the bytes of the record. -/
theorem Layout.word_lt {value : F → Nat}
    (hvalue : ∀ field ∈ L.fields, value field < 256 ^ L.size field) :
    L.word value < 256 ^ L.total := by
  rw [Layout.word, Layout.total]
  revert hvalue
  generalize L.fields = fields
  induction fields with
  | nil => exact fun _ => Nat.one_pos
  | cons field fields ih =>
    intro hvalue
    have hfirst := hvalue field (List.mem_cons_self ..)
    have hrest := ih fun f hf => hvalue f (List.mem_cons_of_mem _ hf)
    rw [List.foldr_cons, List.map_cons, List.sum_cons, Nat.pow_add]
    generalize fields.foldr (fun field rest => value field + 256 ^ L.size field * rest) 0 = rest
      at hrest ⊢
    calc value field + 256 ^ L.size field * rest
        < 256 ^ L.size field + 256 ^ L.size field * rest := Nat.add_lt_add_right hfirst _
      _ = 256 ^ L.size field * (rest + 1) := by ring
      _ ≤ _ := Nat.mul_le_mul_left _ hrest

theorem flatMap_little_endian_length (size value : F → Nat) (fields : List F) :
    (fields.flatMap fun field => little_endian (size field) (value field)).length =
      (fields.map size).sum := by
  simp [List.length_flatMap]

theorem Layout.encode_length (value : F → Nat) : (L.encode value).length = L.total :=
  flatMap_little_endian_length L.size value L.fields

theorem Layout.encode_zero : L.encode (fun _ => 0) = List.replicate L.total 0#8 := by
  rw [Layout.encode, Layout.total]
  generalize L.fields = fields
  induction fields with
  | nil => rfl
  | cons field fields ih =>
    rw [List.flatMap_cons, ih, little_endian_zero, List.map_cons, List.sum_cons,
      List.replicate_append_replicate]

/-- The bytes of a record are those of the number that it makes up. -/
theorem Layout.encode_eq_little_endian (value : F → Nat)
    (hvalue : ∀ field ∈ L.fields, value field < 256 ^ L.size field) :
    L.encode value = little_endian L.total (L.word value) := by
  rw [Layout.encode, Layout.total, Layout.word]
  revert hvalue
  generalize L.fields = fields
  induction fields with
  | nil => exact fun _ => rfl
  | cons field fields ih =>
    intro hvalue
    have hrest := ih fun f hf => hvalue f (List.mem_cons_of_mem _ hf)
    rw [List.flatMap_cons, hrest, List.map_cons, List.sum_cons, List.foldr_cons,
      little_endian_add _ _ _ _ (hvalue field (List.mem_cons_self ..))]

variable [DecidableEq F]

/-- The place of a field: what the fields in front of it take. -/
def Layout.offset (field : F) : Nat := ((L.fields.take (L.fields.idxOf field)).map L.size).sum

/-- Storing a field of a record that has just been stored. -/
theorem Layout.store_field (m : Memory) (address : BitVec 64) (value : F → Nat) {field : F}
    (hfield : field ∈ L.fields) (htotal : L.total < 2 ^ 64) (x : Nat) :
    (m.store address (L.encode value)).store (address + BitVec.ofNat 64 (L.offset field))
        (little_endian (L.size field) x) =
      m.store address (L.encode (Function.update value field x)) := by
  obtain ⟨front, back, hfields⟩ := List.append_of_mem hfield
  have hnodup := L.nodup
  rw [hfields] at hnodup
  have hfront : field ∉ front := fun hmem =>
    (List.nodup_append.mp hnodup).2.2 field hmem field (List.mem_cons_self ..) rfl
  have hback : field ∉ back := (List.nodup_cons.mp (List.nodup_append.mp hnodup).2.1).1
  -- The other fields keep their values.
  have hothers : ∀ others : List F, field ∉ others →
      (others.flatMap fun f => little_endian (L.size f) (Function.update value field x f)) =
        others.flatMap fun f => little_endian (L.size f) (value f) := by
    intro others hnot
    refine List.flatMap_congr ?_
    intro f hf
    have hne : f ≠ field := by
      rintro rfl
      exact hnot hf
    rw [Function.update_of_ne hne]
  have hplace : L.offset field =
      (front.flatMap fun f => little_endian (L.size f) (value f)).length := by
    rw [flatMap_little_endian_length, Layout.offset, hfields, List.idxOf_append_of_notMem hfront,
      List.idxOf_cons_self, Nat.add_zero, List.take_left]
  have hold : L.encode value = (front.flatMap fun f => little_endian (L.size f) (value f)) ++
      little_endian (L.size field) (value field) ++
        back.flatMap fun f => little_endian (L.size f) (value f) := by
    rw [Layout.encode, hfields, List.flatMap_append, List.flatMap_cons, List.append_assoc]
  have hnew : L.encode (Function.update value field x) =
      (front.flatMap fun f => little_endian (L.size f) (value f)) ++
        little_endian (L.size field) x ++
          back.flatMap fun f => little_endian (L.size f) (value f) := by
    rw [Layout.encode, hfields, List.flatMap_append, List.flatMap_cons, hothers front hfront,
      hothers back hback, Function.update_self, List.append_assoc]
  have hfits : (L.encode value).length < 2 ^ 64 := by
    rw [L.encode_length]
    exact htotal
  rw [hold] at hfits ⊢
  rw [hplace, hnew]
  exact m.store_store address _ _ (by simp) hfits

end Layout

end bits
