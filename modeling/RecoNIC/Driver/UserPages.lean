import Mathlib.Algebra.Order.Ring.Nat
import Mathlib.Data.List.Chain
import Mathlib.Tactic.Common

namespace reconic.onic_cdev

def PAGE_SHIFT : Nat := 12

def PAGE_SIZE : Nat := 2 ^ PAGE_SHIFT

def offset_in_page (buf : Nat) : Nat := buf % PAGE_SIZE

def ENOMEM : Int := 12

def EFAULT : Int := 14

def EINVAL : Int := 22

/-- A segment of a scatter list, `qdma_sw_sg`. The next segment is named by its index. -/
structure SwSg where
  next : Option Nat
  pg : Nat
  offset : Nat
  len : Nat
  dma_addr : Nat
  deriving DecidableEq

/-- `cdev_io_cb`: the user buffer, and its pages and scatter list while it is mapped. -/
structure Iocb where
  buf : Nat
  len : Nat
  page_nb : Nat
  sgl : Option (List SwSg)
  pages : Option (List Nat)
  deriving DecidableEq

/-- What `get_user_pages_fast` answers: an error, or the pages that it has pinned. -/
inductive Pinning where
  | failed (errno : Nat) (hpos : 0 < errno)
  | pinned (pages : List Nat)
  deriving DecidableEq

/-- The number of pages under a user buffer, an `unsigned int` computed from `unsigned
long` values. -/
def pages_nr (buf len : Nat) : Nat :=
  if len = 0 then 1
  else (len + offset_in_page buf + PAGE_SIZE - 1) % 2 ^ 64 / 2 ^ PAGE_SHIFT % 2 ^ 32

/-- What a function has done about pages and allocations: `put_page` and `kfree`. -/
structure Released where
  put : List Nat
  kfree : Nat
  deriving DecidableEq

def unmap_user_buf (iocb : Iocb) : Iocb × List Nat :=
  match iocb.pages with
  | none => (iocb, [])
  | some pages =>
    if iocb.page_nb = 0 then (iocb, [])
    else ({ iocb with page_nb := 0 }, pages.take iocb.page_nb)

def iocb_release (iocb : Iocb) : Iocb := { iocb with buf := 0, sgl := none, pages := none }

/-- The loop that fills the scatter list: segment `i` of `pages_nr`. -/
def fill_sgl (pages_nr : Nat) : Nat → Nat → Nat → List Nat → List SwSg
  | _, _, _, [] => []
  | i, buf, len, pg :: pages =>
    let offset := offset_in_page buf
    let nbytes := min (PAGE_SIZE - offset) (len % 2 ^ 32)
    { next := if i + 1 = pages_nr then none else some (i + 1)
      pg := pg
      offset := offset
      len := nbytes
      dma_addr := 0 } :: fill_sgl pages_nr (i + 1) (buf + nbytes) (len - nbytes) pages

/-- The exit `err_out` of `map_user_buf_to_sgl`. -/
def map_err_out (iocb : Iocb) (rv : Int) : Int × Iocb × Released :=
  let (iocb, put) := unmap_user_buf iocb
  (rv, iocb_release iocb, ⟨put, 1⟩)

/-- `map_user_buf_to_sgl`, given whether its `kmalloc` succeeds and what
`get_user_pages_fast` answers. -/
def map_user_buf_to_sgl (iocb : Iocb) (kmalloc : Bool) (pinning : Pinning) :
    Int × Iocb × Released :=
  let pages_nr := pages_nr iocb.buf iocb.len
  if pages_nr = 0 then (-EINVAL, iocb, ⟨[], 0⟩)
  else
    let iocb := { iocb with page_nb := 0 }
    if !kmalloc then (-ENOMEM, iocb, ⟨[], 0⟩)
    else
      let iocb := { iocb with sgl := some [] }
      match pinning with
      | .failed errno _ => map_err_out { iocb with pages := some [] } (-errno)
      | .pinned pages =>
        let iocb := { iocb with pages := some pages }
        if pages.length ≠ pages_nr then
          map_err_out { iocb with page_nb := pages.length } (-EFAULT)
        else if pages.IsChain (· ≠ ·) then
          (0, { iocb with
            sgl := some (fill_sgl pages_nr 0 iocb.buf iocb.len pages)
            page_nb := pages_nr }, ⟨[], 0⟩)
        else map_err_out { iocb with page_nb := pages_nr } (-EFAULT)

/-- A user buffer that can be mapped: it has pages, their list can be allocated, all of
them can be pinned, and no two neighbours are the same page. -/
structure Mappable (buf len : Nat) (kmalloc : Bool) (pinning : Pinning) : Prop where
  some_page : pages_nr buf len ≠ 0
  kmalloc : kmalloc = true
  pinned : ∃ pages, pinning = .pinned pages ∧ pages.length = pages_nr buf len ∧
    pages.IsChain (· ≠ ·)

theorem map_err_out_fst (iocb : Iocb) (rv : Int) : (map_err_out iocb rv).1 = rv := rfl

theorem map_user_buf_to_sgl_fails_iff (iocb : Iocb) (kmalloc : Bool) (pinning : Pinning) :
    (map_user_buf_to_sgl iocb kmalloc pinning).1 < 0 ↔
      ¬Mappable iocb.buf iocb.len kmalloc pinning := by
  by_cases hsome : pages_nr iocb.buf iocb.len = 0
  · simp only [map_user_buf_to_sgl, hsome, if_true]
    exact iff_of_true (by decide) fun hmappable => hmappable.some_page hsome
  cases kmalloc with
  | false =>
    simp only [map_user_buf_to_sgl, hsome, if_false, Bool.not_false, if_true]
    exact iff_of_true (by decide) fun hmappable => by simpa using hmappable.kmalloc
  | true =>
    simp only [map_user_buf_to_sgl, hsome, if_false, Bool.not_true, Bool.false_eq_true]
    cases pinning with
    | failed errno hpos =>
      simp only [map_err_out_fst]
      refine iff_of_true (by omega) fun hmappable => ?_
      obtain ⟨pages, hpages, -⟩ := hmappable.pinned
      simp at hpages
    | pinned pages =>
      by_cases hall : pages.length = pages_nr iocb.buf iocb.len
      · by_cases hchain : pages.IsChain (· ≠ ·)
        · simp only [hall, ne_eq, not_true_eq_false, if_false, hchain, if_true]
          exact iff_of_false (by decide) (not_not.mpr ⟨hsome, rfl, pages, rfl, hall, hchain⟩)
        · simp only [hall, ne_eq, not_true_eq_false, if_false, hchain, map_err_out_fst]
          refine iff_of_true (by decide) fun hmappable => ?_
          obtain ⟨_, hpages, -, hdistinct⟩ := hmappable.pinned
          exact hchain (Pinning.pinned.inj hpages ▸ hdistinct)
      · simp only [ne_eq, hall, not_false_eq_true, if_true, map_err_out_fst]
        refine iff_of_true (by decide) fun hmappable => ?_
        obtain ⟨_, hpages, hlength, -⟩ := hmappable.pinned
        exact hall (Pinning.pinned.inj hpages ▸ hlength)

def MAX_RW_COUNT : Nat := 2 ^ 31 - PAGE_SIZE

/-- The bytes that a scatter list names, one after the other: each by its page and its place
in the page. -/
def sgl_bytes (sgl : List SwSg) : List (Option Nat × Nat) :=
  sgl.flatMap fun sg => (List.range sg.len).map fun k => (some sg.pg, sg.offset + k)

/-- Byte `k` of a user buffer, when `pages` are its pages from that of `buf` on. -/
def user_byte (pages : List Nat) (buf k : Nat) : Option Nat × Nat :=
  (pages[(buf + k) / PAGE_SIZE - buf / PAGE_SIZE]?, offset_in_page (buf + k))

/-- The pages that are pinned during a call. -/
def pinned_pages (kmalloc : Bool) (pinning : Pinning) : List Nat :=
  match kmalloc, pinning with
  | true, .pinned pages => pages
  | _, _ => []

/-- A scatter list covers a user buffer: its bytes are those of the buffer, each segment lies in
a page, and the segments are linked up to the last. -/
structure CoversBuffer (buf len : Nat) (pages : List Nat) (sgl : List SwSg) : Prop where
  bytes : sgl_bytes sgl = (List.range len).map (user_byte pages buf)
  inside : ∀ sg ∈ sgl, sg.offset + sg.len ≤ PAGE_SIZE
  linked : ∀ i sg, sgl[i]? = some sg → sg.next = if i + 1 = sgl.length then none else some (i + 1)

theorem fill_sgl_length (pages_nr i buf len : Nat) (pages : List Nat) :
    (fill_sgl pages_nr i buf len pages).length = pages.length := by
  induction pages generalizing i buf len with
  | nil => rfl
  | cons pg pages ih => simp [fill_sgl, ih]

theorem fill_sgl_inside (pages_nr i buf len : Nat) (pages : List Nat) :
    ∀ sg ∈ fill_sgl pages_nr i buf len pages, sg.offset + sg.len ≤ PAGE_SIZE := by
  induction pages generalizing i buf len with
  | nil => simp [fill_sgl]
  | cons pg pages ih =>
    have hoffset : offset_in_page buf < PAGE_SIZE := Nat.mod_lt _ (by decide)
    simp only [fill_sgl, List.forall_mem_cons]
    exact ⟨by omega, ih _ _ _⟩

theorem fill_sgl_linked (pages_nr i buf len : Nat) (pages : List Nat) :
    ∀ j sg, (fill_sgl pages_nr i buf len pages)[j]? = some sg →
      sg.next = if i + j + 1 = pages_nr then none else some (i + j + 1) := by
  induction pages generalizing i buf len with
  | nil => simp [fill_sgl]
  | cons pg pages ih =>
    intro j sg hsg
    cases j with
    | zero =>
      rw [fill_sgl, List.getElem?_cons_zero] at hsg
      cases hsg
      rfl
    | succ j =>
      rw [fill_sgl, List.getElem?_cons_succ] at hsg
      rw [ih _ _ _ j sg hsg, Nat.add_right_comm i 1 j, Nat.add_assoc i j 1]

/-- The bytes of a buffer up to the end of its first page. -/
theorem user_byte_first {pg : Nat} {pages : List Nat} {buf k : Nat}
    (hinside : offset_in_page buf + k < PAGE_SIZE) :
    user_byte (pg :: pages) buf k = (some pg, offset_in_page buf + k) := by
  simp only [offset_in_page, PAGE_SIZE, PAGE_SHIFT] at hinside
  have hsame : (buf + k) / PAGE_SIZE - buf / PAGE_SIZE = 0 := by
    simp only [PAGE_SIZE, PAGE_SHIFT]
    omega
  have hplace : offset_in_page (buf + k) = offset_in_page buf + k := by
    simp only [offset_in_page, PAGE_SIZE, PAGE_SHIFT]
    omega
  rw [user_byte, hsame, hplace, List.getElem?_cons_zero]

/-- What lies behind the first page starts the next one. -/
theorem user_byte_next {pg : Nat} {pages : List Nat} {buf nbytes : Nat}
    (hpage : offset_in_page buf + nbytes = PAGE_SIZE) (k : Nat) :
    user_byte (pg :: pages) buf (nbytes + k) = user_byte pages (buf + nbytes) k := by
  simp only [offset_in_page, PAGE_SIZE, PAGE_SHIFT] at hpage
  have hindex : (buf + (nbytes + k)) / PAGE_SIZE - buf / PAGE_SIZE =
      (buf + nbytes + k) / PAGE_SIZE - (buf + nbytes) / PAGE_SIZE + 1 := by
    simp only [PAGE_SIZE, PAGE_SHIFT]
    omega
  rw [user_byte, user_byte, hindex, List.getElem?_cons_succ, Nat.add_assoc]

/-- The loop takes from each page what the buffer has in it. The induction is on the pages; the
buffer that is left starts at a page border from the second page on. -/
theorem fill_sgl_bytes (pages_nr i : Nat) {buf len : Nat} {pages : List Nat} (hlen : 0 < len)
    (hsmall : len < 2 ^ 32)
    (hpages : pages.length = (len + offset_in_page buf + PAGE_SIZE - 1) / PAGE_SIZE) :
    sgl_bytes (fill_sgl pages_nr i buf len pages) = (List.range len).map (user_byte pages buf) := by
  induction pages generalizing i buf len with
  | nil =>
    simp only [offset_in_page, PAGE_SIZE, PAGE_SHIFT, List.length_nil] at hpages
    omega
  | cons pg pages ih =>
    have hwidth : len % 2 ^ 32 = len := Nat.mod_eq_of_lt hsmall
    have hoffset : offset_in_page buf < PAGE_SIZE := Nat.mod_lt _ (by decide)
    simp only [fill_sgl, hwidth]
    generalize hnbytes : min (PAGE_SIZE - offset_in_page buf) len = nbytes
    have hfirst : (List.range nbytes).map (user_byte (pg :: pages) buf) =
        (List.range nbytes).map fun k => (some pg, offset_in_page buf + k) := by
      apply List.map_congr_left
      intro k hk
      rw [List.mem_range] at hk
      exact user_byte_first (by omega)
    have hrest : sgl_bytes (fill_sgl pages_nr (i + 1) (buf + nbytes) (len - nbytes) pages) =
        (List.range (len - nbytes)).map fun k => user_byte (pg :: pages) buf (nbytes + k) := by
      simp only [offset_in_page, PAGE_SIZE, PAGE_SHIFT, List.length_cons] at hpages hnbytes hoffset
      by_cases hmore : 0 < len - nbytes
      · have hpage : offset_in_page buf + nbytes = PAGE_SIZE := by
          simp only [offset_in_page, PAGE_SIZE, PAGE_SHIFT]
          omega
        rw [ih (i + 1) hmore (by omega) (by simp only [offset_in_page, PAGE_SIZE, PAGE_SHIFT]; omega)]
        exact List.map_congr_left fun k _ => (user_byte_next hpage k).symm
      · have hnone : pages = [] := List.length_eq_zero_iff.mp (by omega)
        have hdone : len - nbytes = 0 := by omega
        rw [hnone, hdone]
        rfl
    have hsplit : len = nbytes + (len - nbytes) := by omega
    rw [hsplit, List.range_add, List.map_append, hfirst, List.map_map, ← hsplit]
    exact congrArg _ hrest

theorem pages_nr_eq {buf len : Nat} (hlen : len ≤ MAX_RW_COUNT) (hsome : len ≠ 0) :
    pages_nr buf len = (len + offset_in_page buf + PAGE_SIZE - 1) / PAGE_SIZE := by
  simp only [MAX_RW_COUNT, PAGE_SIZE, PAGE_SHIFT] at hlen
  simp only [pages_nr, hsome, if_false, offset_in_page, PAGE_SIZE, PAGE_SHIFT]
  omega

theorem fill_sgl_covers {buf len : Nat} {pages : List Nat} (hlen : len ≤ MAX_RW_COUNT)
    (hpages : pages.length = pages_nr buf len) :
    CoversBuffer buf len pages (fill_sgl (pages_nr buf len) 0 buf len pages) where
  bytes := by
    by_cases hzero : len = 0
    · subst hzero
      obtain ⟨pg, rfl⟩ := List.length_eq_one_iff.mp hpages
      simp [fill_sgl, sgl_bytes]
    · refine fill_sgl_bytes _ _ (Nat.pos_of_ne_zero hzero) ?_ ?_
      · simp only [MAX_RW_COUNT, PAGE_SIZE, PAGE_SHIFT] at hlen
        omega
      · rw [hpages, pages_nr_eq hlen hzero]
  inside := fill_sgl_inside _ _ _ _ _
  linked := by
    intro i sg hsg
    rw [fill_sgl_length, hpages, fill_sgl_linked _ _ _ _ _ i sg hsg, Nat.zero_add]

/-- What an exit of `map_user_buf_to_sgl` leaves: nothing is mapped, and what was pinned and
allocated before it has been given back. -/
structure CleanedUp (kmalloc : Bool) (pinning : Pinning) (result : Int × Iocb × Released) :
    Prop where
  put : result.2.2.put = pinned_pages kmalloc pinning
  kfree : result.2.2.kfree = kmalloc.toNat
  page_nb : result.2.1.page_nb = 0

theorem map_err_out_cleaned {iocb : Iocb} {pinning : Pinning} {pages : List Nat} (rv : Int)
    (hpages : iocb.pages = some pages) (hnb : pages.take iocb.page_nb = pinned_pages true pinning) :
    CleanedUp true pinning (map_err_out iocb rv) := by
  by_cases hzero : iocb.page_nb = 0
  · rw [hzero, List.take_zero] at hnb
    have hunmap : unmap_user_buf iocb = (iocb, []) := by
      simp only [unmap_user_buf, hpages, hzero, if_true]
    rw [map_err_out, hunmap]
    exact ⟨hnb, rfl, hzero⟩
  · have hunmap : unmap_user_buf iocb = ({ iocb with page_nb := 0 }, pages.take iocb.page_nb) := by
      simp only [unmap_user_buf, hpages, hzero, if_false]
    rw [map_err_out, hunmap]
    exact ⟨hnb, rfl, rfl⟩

/-- `map_user_buf_to_sgl` covers the user buffer, whatever its length and place, or cleans up. -/
theorem map_user_buf_to_sgl_exact (iocb : Iocb) (hlen : iocb.len ≤ MAX_RW_COUNT) (kmalloc : Bool)
    (pinning : Pinning) :
    let result := map_user_buf_to_sgl iocb kmalloc pinning
    (result.1 = 0 → ∃ sgl, result.2.1.sgl = some sgl ∧ result.2.1.page_nb = sgl.length ∧
      CoversBuffer iocb.buf iocb.len (pinned_pages kmalloc pinning) sgl ∧
        result.2.2 = ⟨[], 0⟩) ∧
    (result.1 ≠ 0 → CleanedUp kmalloc pinning result) := by
  have hsome : pages_nr iocb.buf iocb.len ≠ 0 := by
    by_cases hzero : iocb.len = 0
    · simp [pages_nr, hzero]
    · rw [pages_nr_eq hlen hzero]
      simp only [PAGE_SIZE, PAGE_SHIFT]
      omega
  cases kmalloc with
  | false =>
    simp only [map_user_buf_to_sgl, hsome, if_false, Bool.not_false, if_true]
    exact ⟨fun h => absurd h (by decide), fun _ => ⟨rfl, rfl, rfl⟩⟩
  | true =>
    simp only [map_user_buf_to_sgl, hsome, if_false, Bool.not_true, Bool.false_eq_true]
    cases pinning with
    | failed errno hpos =>
      simp only
      refine ⟨fun h => ?_, fun _ => map_err_out_cleaned _ rfl rfl⟩
      rw [map_err_out_fst] at h
      omega
    | pinned pages =>
      by_cases hall : pages.length = pages_nr iocb.buf iocb.len
      · by_cases hchain : pages.IsChain (· ≠ ·)
        · simp only [hall, ne_eq, not_true_eq_false, if_false, hchain, if_true]
          refine ⟨fun _ => ⟨_, rfl, ?_, fill_sgl_covers hlen hall, trivial⟩, fun h => h.elim⟩
          rw [fill_sgl_length, hall]
        · simp only [hall, ne_eq, not_true_eq_false, if_false, hchain, map_err_out_fst]
          refine ⟨fun h => absurd h (by decide), fun _ => map_err_out_cleaned _ rfl ?_⟩
          exact List.take_of_length_le (Nat.le_of_eq hall)
      · simp only [ne_eq, hall, not_false_eq_true, if_true, map_err_out_fst]
        refine ⟨fun h => absurd h (by decide), fun _ => map_err_out_cleaned _ rfl ?_⟩
        exact List.take_of_length_le (Nat.le_refl _)

/-- Two pages under a buffer that starts in the middle of the first. -/
theorem map_user_buf_to_sgl_two_pages :
    let result := map_user_buf_to_sgl ⟨0x10800, 0x1000, 0, none, none⟩ true (.pinned [7, 3])
    result.1 = 0 ∧ ∃ sgl, result.2.1.sgl = some sgl ∧ result.2.1.page_nb = sgl.length ∧
      CoversBuffer 0x10800 0x1000 [7, 3] sgl ∧ result.2.2 = ⟨[], 0⟩ :=
  ⟨by decide, (map_user_buf_to_sgl_exact ⟨0x10800, 0x1000, 0, none, none⟩ (by decide) true
    (.pinned [7, 3])).1 (by decide)⟩

end reconic.onic_cdev
