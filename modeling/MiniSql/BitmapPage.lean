import MiniSql.Config
import Mathlib.Data.Nat.Bitwise
import Mathlib.Data.Finset.Card

/-!
# The bitmap of an extent

`BitmapPage` of `page/bitmap_page.cpp`, at the size of a page: after eight
bytes that are not used, one bit for each page of the extent, the first page
at the top of the first byte. A bit that is set is an allocated page.
`allocatePage` takes the first page that is free, and every other bit stays as
it is.
-/

namespace MiniSql

/-- `BitmapPage`: the bytes of a page. -/
abbrev BitmapPage := Bytes.Mem

namespace BitmapPage

/-- `MAX_CHARS`. -/
def maxChars : ℕ := pageSize - 8

/-- `GetMaxSupportedSize`. -/
def maxSupportedSize : ℕ := 8 * maxChars

/-- `byte_bit`. -/
def byteBit (j : ℕ) : UInt8 := [0x80, 0x40, 0x20, 0x10, 0x08, 0x04, 0x02, 0x01].getD j 0

/-- `byte_bit_not`. -/
def byteBitNot (j : ℕ) : UInt8 := [0x7F, 0xBF, 0xDF, 0xEF, 0xF7, 0xFB, 0xFD, 0xFE].getD j 0

/-- `bytes[i]`. -/
def byteAt (p : BitmapPage) (i : ℕ) : UInt8 := p (8 + i)

/-- `bytes[i] = b`. -/
def setByte (p : BitmapPage) (i : ℕ) (b : UInt8) : BitmapPage := p.write (8 + i) [b]

/-- The inner loop of `AllocatePage`: the first bit of a byte that is not
set. -/
def freeBit (b : UInt8) : Option ℕ := (List.range 8).find? (fun j => b &&& byteBit j = 0)

/-- The outer loop of `AllocatePage`, from a byte on. -/
def allocateLoop (p : BitmapPage) : ℕ → ℕ → Option (ℕ × BitmapPage)
  | 0, _ => none
  | rounds + 1, i =>
    if p.byteAt i ^^^ 0xFF ≠ 0 then
      match freeBit (p.byteAt i) with
      | some j => some (i * 8 + j, p.setByte i (p.byteAt i ||| byteBit j))
      | none => allocateLoop p rounds (i + 1)
    else allocateLoop p rounds (i + 1)

/-- `AllocatePage`: the page offset, and the page with its bit set. -/
def allocatePage (p : BitmapPage) : Option (ℕ × BitmapPage) := allocateLoop p maxChars 0

/-- `DeAllocatePage`: the page with the bit cleared, if it was set. -/
def deAllocatePage (p : BitmapPage) (pageOffset : ℕ) : Option BitmapPage :=
  if pageOffset < maxChars * 8 ∧ p.byteAt (pageOffset / 8) &&& byteBit (pageOffset % 8) ≠ 0 then
    some (p.setByte (pageOffset / 8) (p.byteAt (pageOffset / 8) &&& byteBitNot (pageOffset % 8)))
  else none

/-- `IsPageFree`. -/
def isPageFree (p : BitmapPage) (pageOffset : ℕ) : Bool :=
  pageOffset < maxChars * 8 && p.byteAt (pageOffset / 8) &&& byteBit (pageOffset % 8) = 0

/-! ## Bits -/

/-- The bit of a page is set. -/
def isAllocated (p : BitmapPage) (pageOffset : ℕ) : Bool :=
  p.byteAt (pageOffset / 8) &&& byteBit (pageOffset % 8) ≠ 0

variable {p p' : BitmapPage} {i j o : ℕ} {b : UInt8}

theorem toNat_byteBit (hj : j < 8) : (byteBit j).toNat = 2 ^ (7 - j) :=
  (by decide : ∀ j < 8, (byteBit j).toNat = 2 ^ (7 - j)) j hj

/-- A bit of a byte, counted from the top. -/
theorem and_byteBit (hj : j < 8) : b &&& byteBit j ≠ 0 ↔ b.toNat.testBit (7 - j) = true := by
  rw [Ne, ← UInt8.toNat_inj, UInt8.toNat_and, toNat_byteBit hj, Nat.and_two_pow]
  cases b.toNat.testBit (7 - j) with
  | false => simp
  | true => simp

/-- Setting one bit. -/
theorem or_byteBit (hi : i < 8) (hj : j < 8) :
    (b ||| byteBit j) &&& byteBit i ≠ 0 ↔ i = j ∨ b &&& byteBit i ≠ 0 := by
  rw [and_byteBit hi, and_byteBit hi, UInt8.toNat_or, Nat.testBit_or, toNat_byteBit hj,
    Nat.testBit_two_pow, Bool.or_eq_true, decide_eq_true_iff, or_comm]
  refine or_congr_left ?_
  omega

theorem byteAt_setByte (i' : ℕ) :
    (p.setByte i b).byteAt i' = if i' = i then b else p.byteAt i' := by
  by_cases h : i' = i
  · rw [if_pos h, h, byteAt, setByte, Bytes.Mem.write, if_pos ⟨le_rfl, Nat.lt_succ_self _⟩,
      Nat.sub_self]
    rfl
  · rw [if_neg h, byteAt, setByte, Bytes.Mem.write_of_not (by
      rw [List.length_singleton]
      omega)]
    rfl

/-- **Setting the bit of one page.** -/
theorem isAllocated_setByte (hj : j < 8) (o : ℕ) :
    (p.setByte i (p.byteAt i ||| byteBit j)).isAllocated o = true ↔
      o = i * 8 + j ∨ p.isAllocated o = true := by
  have ho := Nat.mod_lt o (by omega : 0 < 8)
  rw [isAllocated, isAllocated, decide_eq_true_iff, decide_eq_true_iff, byteAt_setByte]
  by_cases h : o / 8 = i
  · rw [if_pos h, or_byteBit ho hj, h]
    refine or_congr_left ?_
    omega
  · rw [if_neg h]
    refine (or_iff_right ?_).symm
    omega

/-- A byte without a free bit is full. -/
theorem freeBit_eq_none (h : freeBit b = none) (hj : j < 8) : b &&& byteBit j ≠ 0 := by
  have hall := List.find?_eq_none.mp h j (List.mem_range.mpr hj)
  rwa [decide_eq_true_iff] at hall

theorem freeBit_eq_some (h : freeBit b = some j) : j < 8 ∧ b &&& byteBit j = 0 :=
  ⟨List.mem_range.mp (List.mem_of_find?_eq_some h),
    of_decide_eq_true (List.find?_some (p := fun j => decide (b &&& byteBit j = 0)) h)⟩

/-- A byte with all its bits set. -/
theorem and_byteBit_of_xor (h : b ^^^ 0xFF = 0) (hj : j < 8) : b &&& byteBit j ≠ 0 := by
  rw [UInt8.xor_eq_zero_iff.mp h]
  exact (by decide : ∀ j < 8, 0xFF &&& byteBit j ≠ 0) j hj

/-- The loop over the bytes: it sets a bit that was not set, or there is none in
the bytes that it passes. -/
theorem allocateLoop_spec (rounds : ℕ) : match allocateLoop p rounds i with
    | some (o, p') => i * 8 ≤ o ∧ o < (i + rounds) * 8 ∧ p.isAllocated o = false ∧
        ∀ o', p'.isAllocated o' = true ↔ o' = o ∨ p.isAllocated o' = true
    | none => ∀ o, i * 8 ≤ o → o < (i + rounds) * 8 → p.isAllocated o = true := by
  induction rounds generalizing i with
  | zero => exact fun o hle hlt => absurd hlt (by omega)
  | succ rounds ih =>
    -- a byte that is full is passed
    have hskip : (∀ j < 8, p.byteAt i &&& byteBit j ≠ 0) →
        match allocateLoop p rounds (i + 1) with
        | some (o, p') => i * 8 ≤ o ∧ o < (i + (rounds + 1)) * 8 ∧ p.isAllocated o = false ∧
            ∀ o', p'.isAllocated o' = true ↔ o' = o ∨ p.isAllocated o' = true
        | none => ∀ o, i * 8 ≤ o → o < (i + (rounds + 1)) * 8 → p.isAllocated o = true := by
      intro hfull
      have hrest := ih (i := i + 1)
      cases hloop : allocateLoop p rounds (i + 1) with
      | some r =>
        rw [hloop] at hrest
        obtain ⟨hle, hlt, hbits⟩ := hrest
        exact ⟨by omega, by omega, hbits⟩
      | none =>
        rw [hloop] at hrest
        intro o hle hlt
        by_cases ho : o / 8 = i
        · rw [isAllocated, ho]
          exact decide_eq_true (hfull _ (Nat.mod_lt o (by omega)))
        · exact hrest o (by omega) (by omega)
    unfold allocateLoop
    by_cases hbyte : p.byteAt i ^^^ 0xFF ≠ 0
    · rw [if_pos hbyte]
      cases hfree : freeBit (p.byteAt i) with
      | none => exact hskip (fun j => freeBit_eq_none hfree)
      | some j =>
        obtain ⟨hj, hzero⟩ := freeBit_eq_some hfree
        refine ⟨by omega, by omega, ?_, isAllocated_setByte hj⟩
        have hdiv : (i * 8 + j) / 8 = i := by omega
        have hmod : (i * 8 + j) % 8 = j := by omega
        rw [isAllocated, hdiv, hmod, hzero]
        rfl
    · rw [if_neg hbyte]
      exact hskip (fun j => and_byteBit_of_xor (not_not.mp hbyte))

/-- **A page that is allocated** was free, and the bits of the others stay. -/
theorem allocatePage_eq_some (h : p.allocatePage = some (o, p')) :
    o < maxSupportedSize ∧ p.isAllocated o = false ∧
      ∀ o', p'.isAllocated o' = true ↔ o' = o ∨ p.isAllocated o' = true := by
  have hspec := allocateLoop_spec (p := p) (i := 0) maxChars
  unfold allocatePage at h
  rw [h] at hspec
  obtain ⟨-, hlt, hbits⟩ := hspec
  exact ⟨by rw [maxSupportedSize]; omega, hbits⟩

/-- No page is allocated where all are allocated already. -/
theorem allocatePage_eq_none (h : p.allocatePage = none) (ho : o < maxSupportedSize) :
    p.isAllocated o = true := by
  have hspec := allocateLoop_spec (p := p) (i := 0) maxChars
  unfold allocatePage at h
  rw [h] at hspec
  exact hspec o (by omega) (by rw [maxSupportedSize] at ho; omega)

/-- `IsPageFree` of a page of the extent. -/
theorem isPageFree_eq (ho : o < maxSupportedSize) : p.isPageFree o = !p.isAllocated o := by
  have hlt : o < maxChars * 8 := by
    rw [maxSupportedSize] at ho
    omega
  rw [isPageFree, isAllocated, decide_eq_true hlt, Bool.true_and, decide_not, Bool.not_not]

/-- `DeAllocatePage` succeeds for the pages that are allocated. -/
theorem isSome_deAllocatePage (ho : o < maxSupportedSize) :
    (p.deAllocatePage o).isSome = p.isAllocated o := by
  have hlt : o < maxChars * 8 := by
    rw [maxSupportedSize] at ho
    omega
  rw [deAllocatePage, isAllocated]
  by_cases hbit : p.byteAt (o / 8) &&& byteBit (o % 8) ≠ 0
  · rw [if_pos ⟨hlt, hbit⟩, decide_eq_true hbit]
    rfl
  · rw [if_neg (fun hc => hbit hc.2), decide_eq_false hbit]
    rfl

/-! ## Counting -/

/-- The number of bits that are set. -/
def used (p : BitmapPage) : ℕ :=
  ((Finset.range maxSupportedSize).filter (fun o => p.isAllocated o = true)).card

/-- **One more bit** is set by an allocation. -/
theorem used_allocatePage (h : p.allocatePage = some (o, p')) : p'.used = p.used + 1 := by
  obtain ⟨hlt, hfree, hbits⟩ := allocatePage_eq_some h
  have hinsert : (Finset.range maxSupportedSize).filter (fun o' => p'.isAllocated o' = true) =
      insert o ((Finset.range maxSupportedSize).filter (fun o' => p.isAllocated o' = true)) := by
    ext o'
    rw [Finset.mem_insert, Finset.mem_filter, Finset.mem_filter, hbits, Finset.mem_range]
    constructor
    · rintro ⟨ho', rfl | hset⟩
      · exact .inl rfl
      · exact .inr ⟨ho', hset⟩
    · rintro (rfl | ⟨ho', hset⟩)
      · exact ⟨hlt, .inl rfl⟩
      · exact ⟨ho', .inr hset⟩
  rw [used, hinsert, Finset.card_insert_of_notMem (fun hmem => ?_), used]
  rw [Finset.mem_filter, hfree] at hmem
  exact Bool.false_ne_true hmem.2

theorem used_le (p : BitmapPage) : p.used ≤ maxSupportedSize :=
  (Finset.card_filter_le _ _).trans (Finset.card_range _).le

theorem used_congr (h : ∀ o < maxSupportedSize, p'.isAllocated o = p.isAllocated o) :
    p'.used = p.used := by
  unfold used
  refine congrArg Finset.card (Finset.filter_congr (fun o ho => ?_))
  rw [h o (Finset.mem_range.mp ho)]

/-- The bits are those of the bytes of the page. -/
theorem isAllocated_congr (h : ∀ a < pageSize, p' a = p a) (ho : o < maxSupportedSize) :
    p'.isAllocated o = p.isAllocated o := by
  rw [isAllocated, isAllocated, byteAt, byteAt, h]
  rw [maxSupportedSize, maxChars, pageSize] at ho
  rw [pageSize]
  omega

/-- No bit is set in a page of zeroes. -/
theorem isAllocated_zero : isAllocated (fun _ => 0) o = false := by
  rw [isAllocated, byteAt, UInt8.zero_and]
  rfl

theorem used_zero : used (fun _ => 0) = 0 := by
  rw [used, Finset.card_eq_zero, Finset.filter_eq_empty_iff]
  intro o _
  rw [isAllocated_zero]
  exact Bool.false_ne_true

end BitmapPage

end MiniSql
