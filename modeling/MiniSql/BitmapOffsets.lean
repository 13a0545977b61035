import MiniSql.BitmapPage
import MiniSql.Machine

/-!
# A bitmap page is a set of offsets

`BitmapPage<PageSize>` of `page/bitmap_page.cpp`, for pages of any size. What a bitmap page
stands for is the set of the offsets that are allocated, below the capacity of the extent.
`OffsetSet.step` says what the three operations do to such a set, and a bitmap page answers
every sequence of calls as its set does (`run_eq_offsets`).

Offsets are 32-bit numbers. So this holds of pages whose capacity does not exceed `2 ^ 32`,
and there is a larger one on which `AllocatePage` gives an offset that is allocated already
(`not_run_eq_offsets`).
-/

namespace MiniSql

namespace BitmapPage

/-- `GetMaxSupportedSize`, of a page of the given size. -/
def capacity (pageSize : ℕ) : ℕ := 8 * (pageSize - 8)

/-- `AllocatePage`, of a page of the given size. The offset is a 32-bit number. -/
def allocatePageOf (pageSize : ℕ) (p : BitmapPage) : Option (UInt32 × BitmapPage) :=
  (allocateLoop p (pageSize - 8) 0).map (fun r => (UInt32.ofNat r.1, r.2))

/-- `DeAllocatePage`, of a page of the given size. -/
def deAllocatePageOf (pageSize : ℕ) (p : BitmapPage) (o : UInt32) : Option BitmapPage :=
  if o.toNat < (pageSize - 8) * 8 ∧ p.byteAt (o.toNat / 8) &&& byteBit (o.toNat % 8) ≠ 0 then
    some (p.setByte (o.toNat / 8) (p.byteAt (o.toNat / 8) &&& byteBitNot (o.toNat % 8)))
  else none

/-- `IsPageFree`, of a page of the given size. -/
def isPageFreeOf (pageSize : ℕ) (p : BitmapPage) (o : UInt32) : Bool :=
  o.toNat < (pageSize - 8) * 8 && p.byteAt (o.toNat / 8) &&& byteBit (o.toNat % 8) = 0

/-- At the size of a page these are the operations of the disk manager. -/
theorem allocatePageOf_pageSize (p : BitmapPage) : allocatePageOf pageSize p =
    p.allocatePage.map (fun r => (UInt32.ofNat r.1, r.2)) := rfl

theorem deAllocatePageOf_pageSize (p : BitmapPage) (o : UInt32) :
    deAllocatePageOf pageSize p o = p.deAllocatePage o.toNat := rfl

theorem isPageFreeOf_pageSize (p : BitmapPage) (o : UInt32) :
    isPageFreeOf pageSize p o = p.isPageFree o.toNat := rfl

/-- The calls. -/
inductive Call
  | allocatePage
  | deAllocatePage (pageOffset : UInt32)
  | isPageFree (pageOffset : UInt32)

/-- Their answers. -/
inductive Answer
  | allocated (pageOffset : Option ℕ)
  | deAllocated (b : Bool)
  | free (b : Bool)
deriving DecidableEq

/-- One call, of a page of the given size. -/
def step (pageSize : ℕ) (p : BitmapPage) : Call → Option (BitmapPage × Answer)
  | .allocatePage =>
    match allocatePageOf pageSize p with
    | none => some (p, .allocated none)
    | some (o, p') => some (p', .allocated (some o.toNat))
  | .deAllocatePage o =>
    match deAllocatePageOf pageSize p o with
    | none => some (p, .deAllocated false)
    | some p' => some (p', .deAllocated true)
  | .isPageFree o => some (p, .free (isPageFreeOf pageSize p o))

end BitmapPage

/-! ## Sets of offsets -/

namespace OffsetSet

open BitmapPage

/-- The smallest offset below the capacity that is free. -/
def firstFree (n : ℕ) (s : Finset ℕ) : Option ℕ := (List.range n).find? (fun o => o ∉ s)

/-- What a call does to the set of the offsets that are allocated. -/
def step (n : ℕ) (s : Finset ℕ) : Call → Finset ℕ × Answer
  | .allocatePage =>
    match firstFree n s with
    | none => (s, .allocated none)
    | some o => (insert o s, .allocated (some o))
  | .deAllocatePage o =>
    if o.toNat < n ∧ o.toNat ∈ s then (s.erase o.toNat, .deAllocated true)
    else (s, .deAllocated false)
  | .isPageFree o => (s, .free (o.toNat < n ∧ o.toNat ∉ s))

variable {n o : ℕ} {s : Finset ℕ}

/-- It is free, and all before it are allocated. -/
theorem firstFree_eq_some : firstFree n s = some o ↔ o < n ∧ o ∉ s ∧ ∀ o' < o, o' ∈ s := by
  rw [firstFree, List.find?_range_eq_some, List.mem_range, decide_eq_true_eq, and_left_comm]
  refine and_congr_right (fun _ => and_congr_right (fun _ => forall₂_congr (fun o' _ => ?_)))
  rw [Bool.not_eq_true', decide_eq_false_iff_not, not_not]

/-- No offset is free. -/
theorem firstFree_eq_none : firstFree n s = none ↔ ∀ o < n, o ∈ s := by
  rw [firstFree, List.find?_eq_none]
  refine forall_congr' (fun o => ?_)
  rw [List.mem_range, decide_eq_true_eq, not_not]

end OffsetSet

/-! ## The bits and the set -/

namespace BitmapPage

variable {p p' : BitmapPage} {i j o rounds size : ℕ} {b : UInt8}

/-- Clearing one bit. -/
theorem and_byteBitNot (hi : i < 8) (hj : j < 8) :
    (b &&& byteBitNot j) &&& byteBit i ≠ 0 ↔ i ≠ j ∧ b &&& byteBit i ≠ 0 := by
  have hmask : ∀ j < 8, ∀ i < 8, byteBitNot j &&& byteBit i = if i = j then 0 else byteBit i := by
    decide
  rw [UInt8.and_assoc, hmask j hj i hi]
  by_cases hij : i = j
  · rw [if_pos hij, UInt8.and_zero]
    exact iff_of_false (fun hc => hc rfl) (fun hc => hc.1 hij)
  · rw [if_neg hij]
    exact (and_iff_right hij).symm

/-- **Clearing the bit of one page.** -/
theorem isAllocated_clearByte (hj : j < 8) (o : ℕ) :
    (p.setByte i (p.byteAt i &&& byteBitNot j)).isAllocated o = true ↔
      o ≠ i * 8 + j ∧ p.isAllocated o = true := by
  have ho := Nat.mod_lt o (by omega : 0 < 8)
  rw [isAllocated, isAllocated, decide_eq_true_iff, decide_eq_true_iff, byteAt_setByte]
  by_cases h : o / 8 = i
  · rw [if_pos h, and_byteBitNot ho hj, h]
    refine and_congr_left (fun _ => ?_)
    omega
  · rw [if_neg h]
    refine (and_iff_right ?_).symm
    omega

/-- A byte is written in the place of the bits. -/
theorem setByte_of_not {a : ℕ} (hi : i < size - 8) (ha : a < 8 ∨ size ≤ a) :
    p.setByte i b a = p a := by
  refine Bytes.Mem.write_of_not ?_
  rw [List.length_singleton]
  omega

/-- The bits before the one that is found in a byte are set. -/
theorem freeBit_first (h : freeBit b = some j) {i : ℕ} (hi : i < j) : b &&& byteBit i ≠ 0 := by
  have hbefore := (List.find?_range_eq_some.mp h).2.2 i hi
  rw [Bool.not_eq_true', decide_eq_false_iff_not] at hbefore
  exact hbefore

/-- **The loop takes the first free offset**, and writes one byte. -/
theorem allocateLoop_first (h : allocateLoop p rounds i = some (o, p')) :
    (∀ o' < o, i * 8 ≤ o' → p.isAllocated o' = true) ∧
      ∃ k b, k < i + rounds ∧ p' = p.setByte k b := by
  induction rounds generalizing i with
  | zero => cases h
  | succ rounds ih =>
    -- a byte that is full is passed
    have hskip : (∀ j < 8, p.byteAt i &&& byteBit j ≠ 0) →
        allocateLoop p rounds (i + 1) = some (o, p') →
        (∀ o' < o, i * 8 ≤ o' → p.isAllocated o' = true) ∧
          ∃ k b, k < i + (rounds + 1) ∧ p' = p.setByte k b := by
      intro hfull hrest
      obtain ⟨hbefore, k, b, hk, hp⟩ := ih hrest
      refine ⟨fun o' ho' hle => ?_, k, b, by omega, hp⟩
      by_cases hbyte : o' / 8 = i
      · rw [isAllocated, hbyte]
        exact decide_eq_true (hfull _ (Nat.mod_lt o' (by omega)))
      · exact hbefore o' ho' (by omega)
    unfold allocateLoop at h
    by_cases hbyte : p.byteAt i ^^^ 0xFF ≠ 0
    · rw [if_pos hbyte] at h
      cases hfree : freeBit (p.byteAt i) with
      | none =>
        rw [hfree] at h
        exact hskip (fun j => freeBit_eq_none hfree) h
      | some j =>
        rw [hfree] at h
        cases h
        obtain ⟨hj, -⟩ := freeBit_eq_some hfree
        refine ⟨fun o' ho' hle => ?_, i, _, by omega, rfl⟩
        have hdiv : o' / 8 = i := by omega
        have hmod : o' % 8 < j := by omega
        rw [isAllocated, hdiv]
        exact decide_eq_true (freeBit_first hfree hmod)
    · rw [if_neg hbyte] at h
      exact hskip (fun j => and_byteBit_of_xor (not_not.mp hbyte)) h

/-- The offsets that are allocated. -/
def offsets (size : ℕ) (p : BitmapPage) : Finset ℕ :=
  (Finset.range (capacity size)).filter (fun o => p.isAllocated o = true)

theorem mem_offsets : o ∈ offsets size p ↔ o < capacity size ∧ p.isAllocated o = true := by
  rw [offsets, Finset.mem_filter, Finset.mem_range]

/-- The page has the given set, and outside its bits it is as another one. -/
def HasOffsets (size : ℕ) (p₀ p : BitmapPage) (s : Finset ℕ) : Prop :=
  s = offsets size p ∧ ∀ a, a < 8 ∨ size ≤ a → p a = p₀ a

variable {p₀ : BitmapPage} {s : Finset ℕ}

/-- **`AllocatePage`** takes the smallest free offset. -/
theorem allocatePageOf_spec (p : BitmapPage) (hsize : capacity size ≤ 2 ^ 32) :
    match allocatePageOf size p with
    | none => ∀ o < capacity size, p.isAllocated o = true
    | some (o, p') => OffsetSet.firstFree (capacity size) (offsets size p) = some o.toNat ∧
        HasOffsets size p p' (insert o.toNat (offsets size p)) := by
  have hspec := allocateLoop_spec (p := p) (i := 0) (size - 8)
  cases hloop : allocateLoop p (size - 8) 0 with
  | none =>
    rw [hloop] at hspec
    rw [allocatePageOf, hloop]
    exact fun o ho => hspec o (by omega) (by rw [capacity] at ho; omega)
  | some r =>
    obtain ⟨o, p'⟩ := r
    rw [hloop] at hspec
    obtain ⟨-, hlt, hfree, hbits⟩ := hspec
    obtain ⟨hbefore, k, b, hk, rfl⟩ := allocateLoop_first hloop
    have ho : o < capacity size := by
      rw [capacity]
      omega
    have hnat : (UInt32.ofNat o).toNat = o := by
      rw [UInt32.toNat_ofNat', Nat.mod_eq_of_lt (ho.trans_le hsize)]
    rw [allocatePageOf, hloop, Option.map_some]
    dsimp only
    rw [hnat]
    refine ⟨OffsetSet.firstFree_eq_some.mpr ⟨ho, fun hc => ?_, fun o' ho' => ?_⟩, ?_,
      fun a ha => ?_⟩
    · rw [mem_offsets, hfree] at hc
      exact Bool.false_ne_true hc.2
    · exact mem_offsets.mpr ⟨ho'.trans ho, hbefore o' ho' (by omega)⟩
    · ext o'
      rw [Finset.mem_insert, mem_offsets, mem_offsets, hbits]
      by_cases heq : o' = o
      · exact iff_of_true (.inl heq) ⟨heq ▸ ho, .inl heq⟩
      · rw [or_iff_right heq, or_iff_right heq]
    · exact setByte_of_not (by omega) ha

/-- **`DeAllocatePage`** frees the offset, if it is allocated. -/
theorem deAllocatePageOf_spec (size : ℕ) (p : BitmapPage) (o : UInt32) :
    match deAllocatePageOf size p o with
    | none => ¬ (o.toNat < capacity size ∧ o.toNat ∈ offsets size p)
    | some p' => (o.toNat < capacity size ∧ o.toNat ∈ offsets size p) ∧
        HasOffsets size p p' ((offsets size p).erase o.toNat) := by
  have hiff : o.toNat < (size - 8) * 8 ∧
      p.byteAt (o.toNat / 8) &&& byteBit (o.toNat % 8) ≠ 0 ↔
      o.toNat < capacity size ∧ o.toNat ∈ offsets size p := by
    rw [mem_offsets, isAllocated, decide_eq_true_iff, capacity, Nat.mul_comm]
    exact (and_iff_right_of_imp And.left).symm
  unfold deAllocatePageOf
  by_cases hset : o.toNat < (size - 8) * 8 ∧ p.byteAt (o.toNat / 8) &&& byteBit (o.toNat % 8) ≠ 0
  · rw [if_pos hset]
    have hbits := isAllocated_clearByte (p := p) (i := o.toNat / 8)
      (Nat.mod_lt o.toNat (by omega : 0 < 8))
    refine ⟨hiff.mp hset, ?_, fun a ha => setByte_of_not (by omega) ha⟩
    ext o'
    rw [Finset.mem_erase, mem_offsets, mem_offsets, hbits, Nat.div_add_mod']
    exact and_left_comm
  · rw [if_neg hset]
    exact fun hc => hset (hiff.mpr hc)

/-- **`IsPageFree`** tells whether the offset is free. -/
theorem isPageFreeOf_eq (p : BitmapPage) (o : UInt32) : isPageFreeOf size p o =
    decide (o.toNat < capacity size ∧ o.toNat ∉ offsets size p) := by
  rw [isPageFreeOf, Nat.mul_comm, ← Bool.decide_and]
  refine decide_eq_decide.mpr (and_congr_right (fun ho => ?_))
  rw [mem_offsets, isAllocated, decide_eq_true_iff, not_and_not_right]
  exact ⟨fun hzero _ => hzero, fun hzero => hzero ho⟩

/-- **One call**: the page answers as its set does. -/
theorem HasOffsets.step (hsize : capacity size ≤ 2 ^ 32) (h : HasOffsets size p₀ p s) (c : Call) :
    ∃ p', BitmapPage.step size p c = some (p', (OffsetSet.step (capacity size) s c).2) ∧
      HasOffsets size p₀ p' (OffsetSet.step (capacity size) s c).1 := by
  obtain ⟨rfl, hrest⟩ := h
  have hkeep : ∀ {p' s'}, HasOffsets size p p' s' → HasOffsets size p₀ p' s' := fun h =>
    ⟨h.1, fun a ha => (h.2 a ha).trans (hrest a ha)⟩
  cases c with
  | allocatePage =>
    have hspec := allocatePageOf_spec p hsize
    rw [BitmapPage.step, OffsetSet.step]
    cases halloc : allocatePageOf size p with
    | none =>
      rw [halloc] at hspec
      rw [OffsetSet.firstFree_eq_none.mpr (fun o ho => mem_offsets.mpr ⟨ho, hspec o ho⟩)]
      exact ⟨p, rfl, rfl, hrest⟩
    | some r =>
      obtain ⟨o, p'⟩ := r
      rw [halloc] at hspec
      rw [hspec.1]
      exact ⟨p', rfl, hkeep hspec.2⟩
  | deAllocatePage o =>
    have hspec := deAllocatePageOf_spec size p o
    rw [BitmapPage.step, OffsetSet.step]
    cases hfree : deAllocatePageOf size p o with
    | none =>
      rw [hfree] at hspec
      rw [if_neg hspec]
      exact ⟨p, rfl, rfl, hrest⟩
    | some p' =>
      rw [hfree] at hspec
      rw [if_pos hspec.1]
      exact ⟨p', rfl, hkeep hspec.2⟩
  | isPageFree o =>
    refine ⟨p, ?_, rfl, hrest⟩
    rw [BitmapPage.step, isPageFreeOf_eq]
    rfl

/-- **A bitmap page is a set of offsets**: from any content on it answers every sequence of
calls as the set of its offsets does, and nothing changes outside its bits. -/
theorem run_eq_offsets (hsize : capacity size ≤ 2 ^ 32) (p : BitmapPage) (calls : List Call) :
    ∃ p', Machine.run (step size) p calls =
        some (p', Machine.answers (OffsetSet.step (capacity size)) (offsets size p) calls) ∧
      HasOffsets size p p'
        (Machine.final (OffsetSet.step (capacity size)) (offsets size p) calls) := by
  have hsim : ∀ (p₁ : BitmapPage) (s : Finset ℕ) (c : Call), HasOffsets size p p₁ s → True →
      ∃ p', step size p₁ c = some (p', (OffsetSet.step (capacity size) s c).2) ∧
        HasOffsets size p p' (OffsetSet.step (capacity size) s c).1 :=
    fun _ _ c h _ => h.step hsize c
  exact Machine.run_of_simulation hsim ⟨rfl, fun _ _ => rfl⟩
    (Machine.meets_of_forall_mem (fun _ _ => trivial) _)

/-- On a page with eight bits, all of which are zero. -/
theorem run_eq_offsets_zero : ∃ p',
    Machine.run (step 9) (fun _ => 0) [.allocatePage, .allocatePage, .deAllocatePage 0,
        .isPageFree 0, .allocatePage] =
      some (p', [.allocated (some 0), .allocated (some 1), .deAllocated true, .free true,
        .allocated (some 0)]) := by
  have hanswers : Machine.answers (OffsetSet.step (capacity 9)) (offsets 9 (fun _ => 0))
      [.allocatePage, .allocatePage, .deAllocatePage 0, .isPageFree 0, .allocatePage] =
      [.allocated (some 0), .allocated (some 1), .deAllocated true, .free true,
        .allocated (some 0)] := by decide
  have hsize : capacity 9 ≤ 2 ^ 32 := by decide
  obtain ⟨p', hrun, -⟩ := run_eq_offsets hsize (fun _ => 0) [.allocatePage, .allocatePage,
    .deAllocatePage 0, .isPageFree 0, .allocatePage]
  rw [hanswers] at hrun
  exact ⟨p', hrun⟩

/-- **An offset that is allocated already** is given on a page with more than `2 ^ 32` bits,
the first `2 ^ 32` of which are set. -/
theorem not_run_eq_offsets : ¬ ∀ (size : ℕ) (p : BitmapPage) (calls : List Call), 8 < size →
    ∃ p', Machine.run (step size) p calls =
      some (p', Machine.answers (OffsetSet.step (capacity size)) (offsets size p) calls) := by
  intro hall
  let p : BitmapPage := fun a => if a < 8 + 2 ^ 29 then 0xFF else 0
  have hset : ∀ o, p.isAllocated o = true ↔ o < 2 ^ 32 := fun o => by
    have ho := Nat.mod_lt o (by omega : 0 < 8)
    rw [isAllocated, byteAt, decide_eq_true_iff]
    by_cases hlt : o < 2 ^ 32
    · rw [show p (8 + o / 8) = 0xFF from if_pos (by omega)]
      exact iff_of_true ((by decide : ∀ j < 8, 0xFF &&& byteBit j ≠ 0) _ ho) hlt
    · rw [show p (8 + o / 8) = 0 from if_neg (by omega), UInt8.zero_and]
      exact iff_of_false (fun hc => hc rfl) hlt
  have hcapacity : capacity (2 ^ 29 + 9) = 2 ^ 32 + 8 := by decide
  obtain ⟨p', hrun⟩ := hall (2 ^ 29 + 9) p [.allocatePage] (by decide)
  obtain ⟨o, p'', hloop, hzero⟩ : ∃ o p'', allocateLoop p (2 ^ 29 + 9 - 8) 0 = some (o, p'') ∧
      (UInt32.ofNat o).toNat = 0 := by
    have hspec := allocateLoop_spec (p := p) (i := 0) (2 ^ 29 + 9 - 8)
    cases hloop : allocateLoop p (2 ^ 29 + 9 - 8) 0 with
    | none =>
      rw [hloop] at hspec
      exact absurd ((hset _).mp (hspec (2 ^ 32) (Nat.zero_le _) (by decide))) (lt_irrefl _)
    | some r =>
      obtain ⟨o, p''⟩ := r
      rw [hloop] at hspec
      obtain ⟨-, -, hfree, -⟩ := hspec
      have hge : 2 ^ 32 ≤ o := not_lt.mp (fun hlt => by
        rw [(hset o).mpr hlt] at hfree
        cases hfree)
      have hle : o ≤ 2 ^ 32 := not_lt.mp (fun hlt =>
        absurd ((hset _).mp ((allocateLoop_first hloop).1 _ hlt (Nat.zero_le _))) (lt_irrefl _))
      refine ⟨o, p'', rfl, ?_⟩
      rw [le_antisymm hle hge]
      rfl
  have hstep : step (2 ^ 29 + 9) p .allocatePage = some (p'', .allocated (some 0)) := by
    rw [step, allocatePageOf, hloop, Option.map_some]
    dsimp only
    rw [hzero]
  obtain ⟨s', a, as, hstep', -, has⟩ := Machine.run_cons_eq_some hrun
  rw [hstep] at hstep'
  cases hstep'
  have hanswer : (OffsetSet.step (capacity (2 ^ 29 + 9)) (offsets (2 ^ 29 + 9) p)
      .allocatePage).2 = .allocated (some 0) := (List.cons.inj has).1
  rw [OffsetSet.step] at hanswer
  cases hfirst : OffsetSet.firstFree (capacity (2 ^ 29 + 9)) (offsets (2 ^ 29 + 9) p) with
  | none =>
    rw [hfirst] at hanswer
    cases hanswer
  | some o' =>
    rw [hfirst] at hanswer
    cases hanswer
    refine (OffsetSet.firstFree_eq_some.mp hfirst).2.1 (mem_offsets.mpr ⟨?_, (hset 0).mpr ?_⟩)
    · rw [hcapacity]
      decide
    · decide

end BitmapPage

end MiniSql
