import MiniSql.SlotMap
import MiniSql.Tiling
import MiniSql.Machine

/-!
# A slotted page refines its slot map

`TablePage.Represents` relates the bytes of a page to a list of slots: the
directory has the size word of each slot, the bytes of each tuple are at its
offset, and the tuples fill the page from the free space pointer on without
overlapping (`Tiles`). Every call of the page keeps this relation and answers
as `SlotMap.step` does; where one fails an assertion, so does the other.

The two calls that slide tuples, `UpdateTuple` and `ApplyDelete`, are the
same step up to the new length of the tuple, which is zero for a deletion
(`Represents.resize`).
-/

namespace MiniSql

namespace TablePage

open Bytes

/-! ## The size word -/

theorem isDeleted_of_lt {n : ℕ} (hpos : 0 < n) (h : n < 2 ^ 31) : isDeleted n = false := by
  have hand : n &&& deleteMask = 0 := by
    rw [deleteMask, Nat.and_two_pow, Nat.testBit_lt_two_pow h]
    rfl
  simp only [isDeleted, hand, ne_eq, not_true_eq_false, decide_false, Bool.false_or,
    decide_eq_false_iff_not]
  omega

theorem isDeleted_setDeletedFlag (n : ℕ) : isDeleted (setDeletedFlag n) = true := by
  have hbit : (n ||| 2 ^ 31).testBit 31 = true := by
    rw [Nat.testBit_or, Nat.testBit_two_pow_self, Bool.or_true]
  have hand : setDeletedFlag n &&& deleteMask ≠ 0 := by
    rw [setDeletedFlag, deleteMask, Nat.and_two_pow, hbit]
    decide
  simp only [isDeleted, hand, ne_eq, not_false_eq_true, decide_true, Bool.true_or]

theorem unsetDeletedFlag_setDeletedFlag {n : ℕ} (h : n < 2 ^ 31) :
    unsetDeletedFlag (setDeletedFlag n) = n := by
  rw [unsetDeletedFlag, setDeletedFlag, deleteMask, Nat.and_two_pow_sub_one_eq_mod,
    Nat.or_mod_two_pow, Nat.mod_self, Nat.or_zero, Nat.mod_eq_of_lt h]

theorem setDeletedFlag_lt {n : ℕ} (h : n < 2 ^ 31) : setDeletedFlag n < 2 ^ 32 :=
  Nat.or_lt_two_pow (by omega) (by decide)

theorem setDeletedFlag_pos (n : ℕ) : 0 < setDeletedFlag n :=
  Nat.lt_of_lt_of_le (by decide) (Nat.right_le_or)

end TablePage

/-- The bytes of the tuple in a slot. -/
def Slot.bytes : Slot Tuple → List UInt8
  | .free => []
  | .live t => t.bytes
  | .marked t => t.bytes

theorem Slot.length_bytes (s : Slot Tuple) : s.bytes.length = s.len := by
  cases s <;> rfl

/-- The size word of a slot. -/
def Slot.word : Slot Tuple → ℕ
  | .free => 0
  | .live t => t.size
  | .marked t => TablePage.setDeletedFlag t.size

theorem Slot.word_pos {s : Slot Tuple} : 0 < s.word ↔ 0 < s.len := by
  cases s with
  | free => rfl
  | live t => rfl
  | marked t => exact iff_of_true (TablePage.setDeletedFlag_pos _) t.pos

theorem Slot.word_lt {s : Slot Tuple} (h : s.len < 2 ^ 31) : s.word < 2 ^ 32 := by
  cases s with
  | free => decide
  | live t => exact t.lt
  | marked t => exact TablePage.setDeletedFlag_lt h

namespace TablePage

open Bytes

/-! ## The loop over the offsets -/

/-- One round of the loop. -/
def shiftOffset (bound up down : ℕ) (q : TablePage) (i : ℕ) : TablePage :=
  if 0 < q.getTupleSize i ∧ q.getTupleOffsetAtSlot i < bound then
    q.setTupleOffsetAtSlot i (sub32 (add32 (q.getTupleOffsetAtSlot i) up) down)
  else q

/-- The offset that the loop gives to a tuple. -/
def shifted (bound up down off : ℕ) : ℕ :=
  if off < bound then sub32 (add32 off up) down else off

theorem shiftOffset_of_not {bound up down i b : ℕ} {q : TablePage}
    (h : b < 24 + 8 * i ∨ 28 + 8 * i ≤ b) : shiftOffset bound up down q i b = q b := by
  unfold shiftOffset
  split
  · exact Mem.write32_of_not (by omega)
  · rfl

/-- A round changes one offset, in the slot it is about. -/
theorem getTupleOffsetAtSlot_shiftOffset {bound up down i : ℕ} {q : TablePage}
    (h : 0 < q.getTupleSize i) :
    (shiftOffset bound up down q i).getTupleOffsetAtSlot i
      = shifted bound up down (q.getTupleOffsetAtSlot i) := by
  unfold shiftOffset shifted
  by_cases hlt : q.getTupleOffsetAtSlot i < bound
  · rw [if_pos ⟨h, hlt⟩, if_pos hlt, getTupleOffsetAtSlot, setTupleOffsetAtSlot,
      Mem.read32_write32, sub32, Nat.mod_mod]
  · rw [if_neg (fun hc => hlt hc.2), if_neg hlt]

/-- What `n` rounds do: the sizes stay, the offsets of the first `n` slots in
use are shifted, and no other byte changes. -/
theorem foldl_shiftOffset (p : TablePage) (bound up down n : ℕ) :
    let q := (List.range n).foldl (shiftOffset bound up down) p
    (∀ i, q.getTupleSize i = p.getTupleSize i) ∧
      (∀ i, 0 < p.getTupleSize i → q.getTupleOffsetAtSlot i =
        if i < n then shifted bound up down (p.getTupleOffsetAtSlot i)
        else p.getTupleOffsetAtSlot i) ∧
      (∀ i, p.getTupleSize i = 0 → q.getTupleOffsetAtSlot i = p.getTupleOffsetAtSlot i) ∧
      ∀ b, b < 24 ∨ 24 + 8 * n ≤ b → q b = p b := by
  induction n with
  | zero => exact ⟨fun _ => rfl, fun _ _ => rfl, fun _ _ => rfl, fun _ _ => rfl⟩
  | succ n ih =>
    obtain ⟨hsize, hoff, hzero, hkeep⟩ := ih
    simp only [List.range_succ, List.foldl_append, List.foldl_cons, List.foldl_nil]
    generalize (List.range n).foldl (shiftOffset bound up down) p = q at hsize hoff hzero hkeep
    have hother : ∀ a, (a + 4 ≤ 24 + 8 * n ∨ 28 + 8 * n ≤ a) →
        (shiftOffset bound up down q n).read32 a = q.read32 a := fun a ha =>
      Mem.read32_congr (fun b _ _ => shiftOffset_of_not (by omega))
    refine ⟨fun i => (hother _ (by omega)).trans (hsize i), fun i hi => ?_, fun i hi => ?_,
      fun b hb => (shiftOffset_of_not (by omega)).trans (hkeep b (by omega))⟩
    · by_cases hin : i = n
      · subst hin
        rw [getTupleOffsetAtSlot_shiftOffset (by rwa [hsize]), hoff i hi, if_neg (lt_irrefl i),
          if_pos (Nat.lt_succ_self i)]
      · have hread : (shiftOffset bound up down q n).getTupleOffsetAtSlot i
            = q.getTupleOffsetAtSlot i := hother _ (by omega)
        rw [hread, hoff i hi]
        exact if_congr (by omega) rfl rfl
    · by_cases hin : i = n
      · subst hin
        have hskip : shiftOffset bound up down q i = q :=
          if_neg (fun hc => absurd hc.1 (by rw [hsize, hi]; exact lt_irrefl 0))
        rw [hskip, hzero i hi]
      · exact (hother _ (by omega)).trans (hzero i hi)

section Shift

variable (p : TablePage) (bound up down : ℕ)

/-- The loop changes no byte outside the slot directory. -/
theorem shiftOffsets_of_not {b : ℕ} (h : b < 24 ∨ 24 + 8 * p.getTupleCount ≤ b) :
    p.shiftOffsets bound up down b = p b :=
  (foldl_shiftOffset p bound up down p.getTupleCount).2.2.2 b h

theorem getTupleSize_shiftOffsets (i : ℕ) :
    (p.shiftOffsets bound up down).getTupleSize i = p.getTupleSize i :=
  (foldl_shiftOffset p bound up down p.getTupleCount).1 i

theorem getTupleOffsetAtSlot_shiftOffsets {i : ℕ} (hi : i < p.getTupleCount)
    (hpos : 0 < p.getTupleSize i) :
    (p.shiftOffsets bound up down).getTupleOffsetAtSlot i
      = shifted bound up down (p.getTupleOffsetAtSlot i) := by
  have h := (foldl_shiftOffset p bound up down p.getTupleCount).2.1 i hpos
  rwa [if_pos hi] at h

theorem getTupleOffsetAtSlot_shiftOffsets_of_zero {i : ℕ} (hzero : p.getTupleSize i = 0) :
    (p.shiftOffsets bound up down).getTupleOffsetAtSlot i = p.getTupleOffsetAtSlot i :=
  (foldl_shiftOffset p bound up down p.getTupleCount).2.2.1 i hzero

end Shift

/-! ## The relation -/

/-- The bytes of the page represent the slots. -/
structure Represents (pageId : PageId) (p : TablePage) (slots : List (Slot Tuple)) : Prop where
  pageId : p.getTablePageId = pageId
  count : p.getTupleCount = slots.length
  word : ∀ i s, slots[i]? = some s → p.getTupleSize i = s.word
  bytes : ∀ i s, slots[i]? = some s → p.bytes (p.getTupleOffsetAtSlot i) s.len = s.bytes
  freed : ∀ i, slots[i]? = some .free → p.getTupleOffsetAtSlot i = 0
  room : 24 + 8 * slots.length ≤ p.getFreeSpacePointer
  total : p.getFreeSpacePointer + SlotMap.used slots = pageSize
  tiles : Tiles p.getFreeSpacePointer pageSize p.getTupleOffsetAtSlot (SlotMap.lenAt slots)

namespace Represents

open SlotMap

variable {pageId : PageId} {p p' : TablePage} {slots : List (Slot Tuple)} {i : ℕ}
  {s old new : Slot Tuple}

theorem getElem?_eq_none (h : p.Represents pageId slots) (hi : p.getTupleCount ≤ i) :
    slots[i]? = none :=
  List.getElem?_eq_none (h.count ▸ hi)

theorem exists_getElem? (h : p.Represents pageId slots) (hi : i < p.getTupleCount) :
    ∃ s, slots[i]? = some s :=
  ⟨_, List.getElem?_eq_getElem (h.count ▸ hi)⟩

theorem len_lt (h : p.Represents pageId slots) (hs : slots[i]? = some s) : s.len < 2 ^ 31 := by
  have hle := len_le_used hs
  have htotal := h.total
  have hpage : pageSize = 4096 := rfl
  omega

/-- **The free space does not underflow**: it is what lies between the
directory and the tuples. -/
theorem getFreeSpaceRemaining_add (h : p.Represents pageId slots) :
    p.getFreeSpaceRemaining + 24 + 8 * p.getTupleCount = p.getFreeSpacePointer := by
  have hroom := h.room
  have hcount := h.count
  have htotal := h.total
  have hpage : pageSize = 4096 := rfl
  rw [getFreeSpaceRemaining]
  omega

theorem getFreeSpaceRemaining_eq (h : p.Represents pageId slots) :
    p.getFreeSpaceRemaining = SlotMap.room slots := by
  have hadd := h.getFreeSpaceRemaining_add
  have hcount := h.count
  have htotal := h.total
  rw [SlotMap.room]
  omega

/-- The first free slot is the same. -/
theorem freeSlot_eq (h : p.Represents pageId slots) :
    p.freeSlot = slots.findIdx Slot.isFree := by
  have hfree : ∀ s : Slot Tuple, decide (s.word = 0) = s.isFree := fun s => by
    cases s with
    | free => rfl
    | live t => exact decide_eq_false t.pos.ne'
    | marked t => exact decide_eq_false (setDeletedFlag_pos t.size).ne'
  have hmap : (List.range p.getTupleCount).map (fun i => decide (p.getTupleSize i = 0))
      = slots.map Slot.isFree := by
    refine List.ext_getElem (by simp only [List.length_map, List.length_range, h.count]) ?_
    intro i _ hi
    rw [List.length_map] at hi
    simp only [List.getElem_map, List.getElem_range,
      h.word i _ (List.getElem?_eq_getElem hi), hfree]
  have hidx := congrArg (List.findIdx id) hmap
  rwa [List.findIdx_map, List.findIdx_map] at hidx

/-- The offset of a tuple in use is past the free space pointer, and the
tuple ends within the page. -/
theorem inside (h : p.Represents pageId slots) (hs : slots[i]? = some s) (hpos : 0 < s.len) :
    p.getFreeSpacePointer ≤ p.getTupleOffsetAtSlot i ∧
      p.getTupleOffsetAtSlot i + s.len ≤ pageSize := by
  have hlen := lenAt_of_getElem? hs
  have hin := h.tiles.inside i (by rwa [hlen])
  rwa [hlen] at hin

theorem size_pos (h : p.Represents pageId slots) (hs : slots[i]? = some s) :
    0 < p.getTupleSize i ↔ 0 < s.len := by
  rw [h.word i s hs, Slot.word_pos]

/-- Of two tuples one lies in front of the other. -/
theorem before_or_after (h : p.Represents pageId slots) (hs : slots[i]? = some s)
    (hpos : 0 < s.len) {j : ℕ} {x : Slot Tuple} (hx : slots[j]? = some x) (hxpos : 0 < x.len)
    (hj : j ≠ i) :
    (p.getTupleOffsetAtSlot j < p.getTupleOffsetAtSlot i ∧
      p.getTupleOffsetAtSlot j + x.len ≤ p.getTupleOffsetAtSlot i) ∨
    (p.getTupleOffsetAtSlot i ≤ p.getTupleOffsetAtSlot j ∧
      p.getTupleOffsetAtSlot i + s.len ≤ p.getTupleOffsetAtSlot j) := by
  have hleni := lenAt_of_getElem? hs
  have hlenj := lenAt_of_getElem? hx
  have htiles := h.tiles.before_or_after (hleni ▸ hpos) hj (hlenj ▸ hxpos)
  rwa [hleni, hlenj] at htiles

/-- **A tuple gets another length**, and other bytes, and what lies in front
of it slides. The new slot is free where the new length is zero. -/
theorem resize (h : p.Represents pageId slots) (hs : slots[i]? = some old) (hold : 0 < old.len)
    (hfit : 24 + 8 * slots.length + new.len ≤ p.getFreeSpacePointer + old.len)
    (hid : p'.getTablePageId = p.getTablePageId) (hcount : p'.getTupleCount = p.getTupleCount)
    (hfsp : p'.getFreeSpacePointer = p.getFreeSpacePointer + old.len - new.len)
    (hword : p'.getTupleSize i = new.word)
    (hwords : ∀ j, j ≠ i → j < slots.length → p'.getTupleSize j = p.getTupleSize j)
    (hoff : 0 < new.len →
      p'.getTupleOffsetAtSlot i = p.getTupleOffsetAtSlot i + old.len - new.len)
    (hfree : new = .free → p'.getTupleOffsetAtSlot i = 0)
    (hbefore : ∀ j, j ≠ i → j < slots.length → 0 < p.getTupleSize j →
      p.getTupleOffsetAtSlot j < p.getTupleOffsetAtSlot i →
      p'.getTupleOffsetAtSlot j = p.getTupleOffsetAtSlot j + old.len - new.len)
    (hafter : ∀ j, j ≠ i → j < slots.length →
      (0 < p.getTupleSize j → p.getTupleOffsetAtSlot i ≤ p.getTupleOffsetAtSlot j) →
      p'.getTupleOffsetAtSlot j = p.getTupleOffsetAtSlot j)
    (hbytes : p'.bytes (p'.getTupleOffsetAtSlot i) new.len = new.bytes)
    (hmove : ∀ b, p.getFreeSpacePointer ≤ b → b < p.getTupleOffsetAtSlot i →
      p' (b + old.len - new.len) = p b)
    (hkeep : ∀ b, p.getTupleOffsetAtSlot i + old.len ≤ b → p' b = p b) :
    p'.Represents pageId (slots.set i new) := by
  have hilt : i < slots.length := (List.getElem?_eq_some_iff.mp hs).1
  have hleni := lenAt_of_getElem? hs
  have hlt : ∀ j x, slots[j]? = some x → j < slots.length := fun j x hx =>
    (List.getElem?_eq_some_iff.mp hx).1
  have hother : ∀ j x, j ≠ i → (slots.set i new)[j]? = some x → slots[j]? = some x :=
    fun j x hj hx => by rwa [List.getElem?_set_ne (Ne.symm hj)] at hx
  have hself : ∀ x, (slots.set i new)[i]? = some x → x = new := fun x hx => by
    rw [List.getElem?_set_self hilt] at hx
    exact (Option.some.inj hx).symm
  refine ⟨hid.trans h.pageId, by rw [List.length_set, hcount, h.count], ?_, ?_, ?_, ?_, ?_, ?_⟩
  · intro j x hx
    by_cases hj : j = i
    · subst hj
      rw [hself x hx, hword]
    · have hx := hother j x hj hx
      rw [hwords j hj (hlt j x hx), h.word j x hx]
  · intro j x hx
    by_cases hj : j = i
    · subst hj
      rw [hself x hx, hbytes]
    · have hx := hother j x hj hx
      by_cases hzero : x.len = 0
      · rw [hzero, Mem.bytes_zero]
        exact (List.length_eq_zero_iff.mp ((Slot.length_bytes _).trans hzero)).symm
      · have hxpos : 0 < x.len := Nat.pos_of_ne_zero hzero
        have hinj := h.inside hx hxpos
        rw [← h.bytes j x hx]
        rcases h.before_or_after hs hold hx hxpos hj with ⟨hb, hb'⟩ | ⟨ha, ha'⟩
        · rw [hbefore j hj (hlt j x hx) ((h.size_pos hx).mpr hxpos) hb]
          refine Mem.bytes_congr (fun k hk => ?_)
          have hshift : p.getTupleOffsetAtSlot j + old.len - new.len + k
              = p.getTupleOffsetAtSlot j + k + old.len - new.len := by
            have := h.room
            omega
          rw [hshift]
          exact hmove _ (by omega) (by omega)
        · rw [hafter j hj (hlt j x hx) (fun _ => ha)]
          exact Mem.bytes_congr (fun k hk => hkeep _ (by omega))
  · intro j hj'
    by_cases hj : j = i
    · subst hj
      exact hfree (hself _ hj').symm
    · have hx := hother j _ hj hj'
      have hword0 : ¬ 0 < p.getTupleSize j := by
        rw [h.word j _ hx]
        exact lt_irrefl 0
      rw [hafter j hj (hlt j _ hx) (fun hc => absurd hc hword0)]
      exact h.freed j hx
  · rw [List.length_set, hfsp]
    omega
  · have hused := used_set (s := new) hs
    have htotal := h.total
    have hroom := h.room
    rw [hfsp]
    omega
  · have hlen : ∀ j, 0 < lenAt slots j → j < slots.length ∧ 0 < p.getTupleSize j := fun j hj => by
      by_cases hlt' : j < slots.length
      · have hx := List.getElem?_eq_getElem hlt'
        rw [lenAt_of_getElem? hx] at hj
        exact ⟨hlt', (h.size_pos hx).mpr hj⟩
      · rw [lenAt_of_le (by omega)] at hj
        exact absurd hj (lt_irrefl 0)
    have htiles : Tiles (p.getFreeSpacePointer + lenAt slots i - new.len) pageSize
        p'.getTupleOffsetAtSlot (lenAt (slots.set i new)) :=
          h.tiles.resize (hleni ▸ hold) (by rw [hleni]; omega) (lenAt_set_self (s := new) hilt)
      (fun j hj => lenAt_set_ne hj) (fun hn => hleni ▸ hoff hn)
      (fun j hj hjpos hlt' => hleni ▸ hbefore j hj (hlen j hjpos).1 (hlen j hjpos).2 hlt')
      (fun j hj hjpos hle => hafter j hj (hlen j hjpos).1 (fun _ => hle))
    rw [hfsp]
    rwa [hleni] at htiles

/-- **A new tuple** is placed in front of all the others, in a slot that was
free or in a new one. -/
theorem place (h : p.Represents pageId slots) {slots' : List (Slot Tuple)} {row : Tuple}
    (hfree : ∀ x, slots[i]? = some x → x = .free) (hi : slots'[i]? = some (.live row))
    (hslots : ∀ j, j ≠ i → slots'[j]? = slots[j]?)
    (hused : used slots' = used slots + row.size)
    (hroom : 24 + 8 * slots'.length + row.size ≤ p.getFreeSpacePointer)
    (hid : p'.getTablePageId = p.getTablePageId) (hcount : p'.getTupleCount = slots'.length)
    (hfsp : p'.getFreeSpacePointer = p.getFreeSpacePointer - row.size)
    (hword : p'.getTupleSize i = row.size)
    (hwords : ∀ j, j ≠ i → j < slots.length → p'.getTupleSize j = p.getTupleSize j)
    (hoff : p'.getTupleOffsetAtSlot i = p.getFreeSpacePointer - row.size)
    (hoffs : ∀ j, j ≠ i → j < slots.length →
      p'.getTupleOffsetAtSlot j = p.getTupleOffsetAtSlot j)
    (hbytes : p'.bytes (p.getFreeSpacePointer - row.size) row.size = row.bytes)
    (hkeep : ∀ b, p.getFreeSpacePointer ≤ b → p' b = p b) :
    p'.Represents pageId slots' := by
  have hself : ∀ x, slots'[i]? = some x → x = .live row := fun x hx =>
    (Option.some.inj (hi.symm.trans hx)).symm
  have hother : ∀ j x, j ≠ i → slots'[j]? = some x → slots[j]? = some x := fun j x hj hx =>
    (hslots j hj).symm.trans hx
  have hlt : ∀ j x, slots[j]? = some x → j < slots.length := fun j x hx =>
    (List.getElem?_eq_some_iff.mp hx).1
  refine ⟨hid.trans h.pageId, hcount, ?_, ?_, ?_, by omega, ?_, ?_⟩
  · intro j x hx
    by_cases hj : j = i
    · subst hj
      rw [hself x hx, hword, Slot.word]
    · have hx := hother j x hj hx
      rw [hwords j hj (hlt j x hx), h.word j x hx]
  · intro j x hx
    by_cases hj : j = i
    · subst hj
      rw [hself x hx, hoff]
      exact hbytes
    · have hx := hother j x hj hx
      rw [hoffs j hj (hlt j x hx), ← h.bytes j x hx]
      by_cases hzero : x.len = 0
      · rw [hzero, Mem.bytes_zero, Mem.bytes_zero]
      · have hin := h.inside hx (Nat.pos_of_ne_zero hzero)
        exact Mem.bytes_congr (fun k _ => hkeep _ (by omega))
  · intro j hj'
    by_cases hj : j = i
    · subst hj
      cases hself _ hj'
    · have hx := hother j _ hj hj'
      rw [hoffs j hj (hlt j _ hx)]
      exact h.freed j hx
  · have htotal := h.total
    omega
  · have hzero : lenAt slots i = 0 := by
      rcases hx : slots[i]? with _ | x
      · rw [lenAt, hx]
        rfl
      · rw [lenAt_of_getElem? hx, hfree x hx]
        rfl
    have htotal := h.total
    rw [hfsp]
    refine h.tiles.insert hzero row.pos (by omega) (by omega) (lenAt_of_getElem? hi)
      (fun j hj => by rw [lenAt, hslots j hj, lenAt]) hoff (fun j hj hpos => hoffs j hj ?_)
    by_contra hge
    rw [lenAt_of_le (Nat.le_of_not_lt hge)] at hpos
    exact lt_irrefl 0 hpos

/-! ## The calls -/

theorem isDeleted_word (h : p.Represents pageId slots) (hs : slots[i]? = some s) :
    isDeleted s.word = true ↔ ∀ t, s ≠ .live t := by
  cases s with
  | free => exact iff_of_true rfl nofun
  | live t =>
    refine iff_of_false ?_ (fun hn => hn t rfl)
    have hlive : isDeleted t.size = false := isDeleted_of_lt t.pos (h.len_lt hs)
    exact fun hc => Bool.false_ne_true (hlive.symm.trans hc)
  | marked t => exact iff_of_true (isDeleted_setDeletedFlag _) nofun

/-- The word of a slot is overwritten: the slot keeps its bytes and is marked
or not. -/
theorem setTupleSize (h : p.Represents pageId slots) (hs : slots[i]? = some old)
    (hpos : 0 < old.len) (hbytes : new.bytes = old.bytes) :
    TablePage.Represents pageId (p.setTupleSize i new.word) (slots.set i new) := by
  have hlen : new.len = old.len := by
    rw [← Slot.length_bytes, hbytes, Slot.length_bytes]
  have hilt : i < slots.length := (List.getElem?_eq_some_iff.mp hs).1
  have hout : ∀ b, b < 28 + 8 * i ∨ 32 + 8 * i ≤ b → p.setTupleSize i new.word b = p b :=
    fun b hb => Mem.write32_of_not (by omega)
  have hread : ∀ a, a + 4 ≤ 28 + 8 * i ∨ 32 + 8 * i ≤ a →
      (p.setTupleSize i new.word).read32 a = p.read32 a :=
    fun a ha => Mem.read32_write32_of_disjoint (by omega)
  have hfsp : (p.setTupleSize i new.word).getFreeSpacePointer = p.getFreeSpacePointer :=
    hread 16 (by omega)
  have hin := h.inside hs hpos
  have hroom := h.room
  have hword : (p.setTupleSize i new.word).getTupleSize i = new.word := by
    rw [getTupleSize, TablePage.setTupleSize, Mem.read32_write32,
      Nat.mod_eq_of_lt (Slot.word_lt (hlen ▸ h.len_lt hs))]
  have hoff : ∀ j, (p.setTupleSize i new.word).getTupleOffsetAtSlot j
      = p.getTupleOffsetAtSlot j := fun j => hread _ (by omega)
  refine h.resize hs hpos (by omega) ?_ (hread 20 (by omega)) (by rw [hfsp]; omega) hword
    (fun j hj _ => hread _ (by omega)) (fun _ => by rw [hoff]; omega) ?_
    (fun j _ _ _ _ => by rw [hoff]; omega) (fun j _ _ _ => hoff j) ?_ ?_ ?_
  · rw [getTablePageId, hread 0 (by omega), getTablePageId]
  · intro e
    rw [e] at hlen
    exact absurd (hlen ▸ hpos) (lt_irrefl 0)
  · rw [hoff, hlen, hbytes, ← h.bytes i old hs]
    exact Mem.bytes_congr (fun k _ => hout _ (by omega))
  · intro b hb hb'
    rw [hlen, Nat.add_sub_cancel]
    exact hout b (by omega)
  · exact fun b hb => hout b (by omega)

/-- `MarkDelete` marks a live tuple. -/
theorem markDelete (h : p.Represents pageId slots) (rid : RowId) :
    ∃ slots', SlotMap.step pageId slots (.markDelete rid)
        = some (slots', .marked (p.markDelete rid).2) ∧
      (p.markDelete rid).1.Represents pageId slots' := by
  unfold TablePage.markDelete
  by_cases hi : p.getTupleCount ≤ rid.slotNum
  · rw [if_pos hi]
    exact ⟨slots, by simp only [SlotMap.step, SlotMap.markDelete, h.getElem?_eq_none hi], h⟩
  · rw [if_neg hi]
    obtain ⟨s, hs⟩ := h.exists_getElem? (Nat.lt_of_not_le hi)
    have hdel := h.isDeleted_word hs
    rw [← h.word _ _ hs] at hdel
    cases s with
    | free | marked t =>
      rw [if_pos (hdel.mpr (fun _ hlive => by cases hlive))]
      exact ⟨slots, by simp only [SlotMap.step, SlotMap.markDelete, hs], h⟩
    | live t =>
      rw [if_neg (fun hc => hdel.mp hc t rfl)]
      have hword := h.word _ _ hs
      rw [if_pos (by rw [hword]; exact t.pos), hword]
      exact ⟨_, by simp only [SlotMap.step, SlotMap.markDelete, hs],
        h.setTupleSize hs t.pos (rfl : (Slot.marked t).bytes = _)⟩

/-- `RollbackDelete` makes a marked tuple live again. -/
theorem rollbackDelete (h : p.Represents pageId slots) (rid : RowId) :
    (p.rollbackDelete rid = none ∧ SlotMap.step pageId slots (.rollbackDelete rid) = none) ∨
    ∃ p' slots', p.rollbackDelete rid = some p' ∧
      SlotMap.step pageId slots (.rollbackDelete rid) = some (slots', .done) ∧
      p'.Represents pageId slots' := by
  unfold TablePage.rollbackDelete
  by_cases hi : p.getTupleCount ≤ rid.slotNum
  · exact .inl ⟨if_pos hi, by
      simp only [SlotMap.step, SlotMap.rollbackDelete, h.getElem?_eq_none hi, Option.map_none]⟩
  · obtain ⟨s, hs⟩ := h.exists_getElem? (Nat.lt_of_not_le hi)
    have hdel := h.isDeleted_word hs
    rw [← h.word _ _ hs] at hdel
    have hword := h.word _ _ hs
    refine .inr ?_
    rw [if_neg hi]
    cases s with
    | free =>
      -- a free slot has the word zero, with or without the mark
      have hsame : p.setTupleSize rid.slotNum (unsetDeletedFlag (p.getTupleSize rid.slotNum))
          = p := by
        have hzero : unsetDeletedFlag (p.getTupleSize rid.slotNum) =
          p.getTupleSize rid.slotNum := by
          rw [hword]
          rfl
        rw [hzero]
        exact Mem.write32_read32
      rw [if_pos (hdel.mpr (fun _ hlive => by cases hlive)), hsame]
      exact ⟨_, slots, rfl,
        by simp only [SlotMap.step, SlotMap.rollbackDelete, hs, Option.map_some], h⟩
    | live t =>
      rw [if_neg (fun hc => hdel.mp hc t rfl)]
      exact ⟨p, slots, rfl,
        by simp only [SlotMap.step, SlotMap.rollbackDelete, hs, Option.map_some], h⟩
    | marked t =>
      have hunset : unsetDeletedFlag (p.getTupleSize rid.slotNum) = t.size := by
        rw [hword]
        exact unsetDeletedFlag_setDeletedFlag (h.len_lt hs)
      rw [if_pos (hdel.mpr (fun _ hlive => by cases hlive)), hunset]
      exact ⟨_, _, rfl, by simp only [SlotMap.step, SlotMap.rollbackDelete, hs, Option.map_some],
        h.setTupleSize hs t.pos (rfl : (Slot.live t).bytes = _)⟩

/-- The page after a tuple has been written in front of the others and its
slot has been filled. -/
def placed (p : TablePage) (i : ℕ) (row : Tuple) : TablePage :=
  ((((p.write32 16 (p.getFreeSpacePointer - row.size)).write
    (p.getFreeSpacePointer - row.size) row.bytes).write32 (24 + 8 * i)
    (p.getFreeSpacePointer - row.size)).write32 (28 + 8 * i) row.size)

/-- A word outside the slot that is filled. -/
theorem read32_placed {row : Tuple} {a : ℕ} (h₁ : a + 4 ≤ 16 ∨ 20 ≤ a)
    (h₂ : a + 4 ≤ p.getFreeSpacePointer - row.size)
    (h₃ : a + 4 ≤ 24 + 8 * i ∨ 32 + 8 * i ≤ a) : (placed p i row).read32 a = p.read32 a := by
  unfold placed
  rw [Mem.read32_write32_of_disjoint (by omega), Mem.read32_write32_of_disjoint (by omega),
    Mem.read32_write_of_disjoint (by omega), Mem.read32_write32_of_disjoint (by omega)]

/-- A byte past the slot directory and past the new tuple. -/
theorem placed_of_le {row : Tuple} {b : ℕ} (h : 32 + 8 * i + row.size ≤ p.getFreeSpacePointer)
    (hb : p.getFreeSpacePointer ≤ b) : placed p i row b = p b := by
  have hsize : row.bytes.length = row.size := rfl
  unfold placed
  rw [Mem.write32_of_not (by omega), Mem.write32_of_not (by omega),
    Mem.write_of_not (by omega), Mem.write32_of_not (by omega)]

/-- `InsertTuple`, where the tuple fits. -/
theorem insertTuple_eq (h : p.Represents pageId slots) {row : Tuple}
    (hfit : ¬ p.getFreeSpaceRemaining < row.size + 8) :
    p.insertTuple row =
      (if p.freeSlot = p.getTupleCount then
        (placed p p.freeSlot row).write32 20 (p.getTupleCount + 1)
      else placed p p.freeSlot row, some ⟨pageId, p.freeSlot⟩) := by
  have hadd := h.getFreeSpaceRemaining_add
  have hle : p.freeSlot ≤ p.getTupleCount := by
    rw [h.freeSlot_eq, h.count]
    exact List.findIdx_le_length
  have htotal := h.total
  have hpage : pageSize = 4096 := rfl
  have hsub : sub32 p.getFreeSpacePointer row.size = p.getFreeSpacePointer - row.size := by
    rw [sub32]
    omega
  have hfsp : (p.setFreeSpacePointer (p.getFreeSpacePointer - row.size)).getFreeSpacePointer
      = p.getFreeSpacePointer - row.size :=
    (Mem.read32_write32 _).trans (Nat.mod_eq_of_lt (by omega))
  have hfsp' : getFreeSpacePointer (Mem.write
      (p.setFreeSpacePointer (p.getFreeSpacePointer - row.size))
      (p.getFreeSpacePointer - row.size) row.bytes) = p.getFreeSpacePointer - row.size :=
    (Mem.read32_write_of_disjoint (by omega)).trans hfsp
  have hplaced : TablePage.setTupleSize (setTupleOffsetAtSlot (Mem.write
      (p.setFreeSpacePointer (p.getFreeSpacePointer - row.size))
      (p.getFreeSpacePointer - row.size) row.bytes) p.freeSlot
      (p.getFreeSpacePointer - row.size)) p.freeSlot row.size = placed p p.freeSlot row := rfl
  have hcount : (placed p p.freeSlot row).getTupleCount = p.getTupleCount :=
    read32_placed (by omega) (by omega) (by omega)
  have hid : getTablePageId (placed p p.freeSlot row) = pageId := by
    rw [getTablePageId, read32_placed (by omega) (by omega) (by omega)]
    exact h.pageId
  have hsucc : add32 p.getTupleCount 1 = p.getTupleCount + 1 := Nat.mod_eq_of_lt (by omega)
  unfold TablePage.insertTuple
  rw [if_neg hfit, if_neg (fun hc => hfit hc.2), hsub]
  simp only [hfsp, hfsp', hplaced, hcount, hid, hsucc, setTupleCount]

/-- `InsertTuple` puts a tuple into the first free slot or into a new one. -/
theorem insertTuple (h : p.Represents pageId slots) (row : Tuple) :
    ∃ slots', SlotMap.step pageId slots (.insertTuple row)
        = some (slots', .inserted (p.insertTuple row).2) ∧
      (p.insertTuple row).1.Represents pageId slots' := by
  have hroom : SlotMap.room slots < Sized.size row + 8
      ↔ p.getFreeSpaceRemaining < row.size + 8 := by
    rw [h.getFreeSpaceRemaining_eq]
    exact Iff.rfl
  by_cases hfull : p.getFreeSpaceRemaining < row.size + 8
  · refine ⟨slots, ?_, ?_⟩
    · simp only [SlotMap.step, SlotMap.insertTuple, TablePage.insertTuple, if_pos hfull,
        if_pos (hroom.mpr hfull), Option.map_none]
    · simpa only [TablePage.insertTuple, if_pos hfull] using h
  have hadd := h.getFreeSpaceRemaining_add
  have hcount := h.count
  have htotal := h.total
  have hpage : pageSize = 4096 := rfl
  have hslot := h.freeSlot_eq
  have hle : p.freeSlot ≤ p.getTupleCount := by
    rw [hslot, hcount]
    exact List.findIdx_le_length
  have hsize : row.bytes.length = row.size := rfl
  have hpos : 0 < row.size := row.pos
  let slots' : List (Slot Tuple) := if p.freeSlot = slots.length then slots ++ [.live row]
    else slots.set p.freeSlot (.live row)
  have hinsert : SlotMap.insertTuple slots row = (slots', some p.freeSlot) := by
    simp only [SlotMap.insertTuple, ← hslot, if_neg (fun hc => hfull (hroom.mp hc)), slots']
  have hstep : SlotMap.step pageId slots (.insertTuple row)
      = some (slots', .inserted (some ⟨pageId, p.freeSlot⟩)) := by
    simp only [SlotMap.step, hinsert, Option.map_some]
  obtain ⟨-, hold, hnew, hother⟩ := insertTuple_eq_some hinsert
  have hfree : ∀ x, slots[p.freeSlot]? = some x → x = .free := fun x hx => by
    rcases hold with hnone | hfree
    · rw [hnone] at hx
      cases hx
    · rw [hfree] at hx
      exact (Option.some.inj hx).symm
  have hused : used slots' = used slots + row.size := by
    by_cases hlen : p.freeSlot = slots.length
    · simp only [slots', if_pos hlen]
      exact used_append
    · obtain ⟨x, hx⟩ := h.exists_getElem? (show p.freeSlot < p.getTupleCount by omega)
      have hset := used_set (s := .live row) hx
      simp only [slots', if_neg hlen]
      rw [hfree x hx] at hset
      exact hset
  -- the page, whether or not the count has been raised
  obtain ⟨p', hp', hread, hbyte, hcount'⟩ : ∃ p' : TablePage,
      p.insertTuple row = (p', some ⟨pageId, p.freeSlot⟩) ∧
      (∀ a, a + 4 ≤ 20 ∨ 24 ≤ a → p'.read32 a = (placed p p.freeSlot row).read32 a) ∧
      (∀ b, 24 ≤ b → p' b = placed p p.freeSlot row b) ∧ p'.getTupleCount = slots'.length := by
    rw [h.insertTuple_eq hfull]
    by_cases hlen : p.freeSlot = slots.length
    · refine ⟨_, by rw [if_pos (by omega)], fun a ha => Mem.read32_write32_of_disjoint (by omega),
        fun b hb => Mem.write32_of_not (by omega), ?_⟩
      simp only [slots', if_pos hlen, List.length_append, List.length_singleton]
      rw [getTupleCount, Mem.read32_write32, hcount]
      exact Nat.mod_eq_of_lt (by omega)
    · refine ⟨_, by rw [if_neg (by omega)], fun _ _ => rfl, fun _ _ => rfl, ?_⟩
      simp only [slots', if_neg hlen, List.length_set]
      rw [← hcount]
      exact read32_placed (by omega) (by omega) (by omega)
  have hlen' : slots'.length ≤ slots.length + 1 := by
    simp only [slots']
    split
    · rw [List.length_append, List.length_singleton]
    · rw [List.length_set]
      omega
  rw [hp']
  refine ⟨slots', hstep, h.place hfree hnew hother hused (by omega) ?_ hcount' ?_ ?_ ?_ ?_ ?_ ?_
    ?_⟩
  · rw [getTablePageId, hread 0 (by omega), read32_placed (by omega) (by omega) (by omega),
      getTablePageId]
  · rw [getFreeSpacePointer, hread 16 (by omega), placed, Mem.read32_write32_of_disjoint (by omega),
      Mem.read32_write32_of_disjoint (by omega), Mem.read32_write_of_disjoint (by omega),
      Mem.read32_write32]
    exact Nat.mod_eq_of_lt (by omega)
  · rw [getTupleSize, hread _ (by omega), placed, Mem.read32_write32]
    exact Nat.mod_eq_of_lt (by omega)
  · intro j hj hjlt
    exact (hread _ (by omega)).trans (read32_placed (by omega) (by omega) (by omega))
  · rw [getTupleOffsetAtSlot, hread _ (by omega), placed,
      Mem.read32_write32_of_disjoint (by omega), Mem.read32_write32]
    exact Nat.mod_eq_of_lt (by omega)
  · intro j hj hjlt
    exact (hread _ (by omega)).trans (read32_placed (by omega) (by omega) (by omega))
  · refine Eq.trans (Mem.bytes_congr (fun k hk => (hbyte _ (by omega)).trans ?_))
      (Mem.bytes_write (m := p.write32 16 (p.getFreeSpacePointer - row.size))
        (a := p.getFreeSpacePointer - row.size) row.bytes)
    rw [placed, Mem.write32_of_not (by omega), Mem.write32_of_not (by omega)]
  · intro b hb
    exact (hbyte b (by omega)).trans (placed_of_le (by omega) hb)

variable (new) in
/-- **The loop over the offsets completes a resizing.** Before it runs, `q` has
the new free space pointer, the new word of the slot and the moved bytes, but
still the old offsets. -/
theorem shiftOffsets (h : p.Represents pageId slots) (hs : slots[i]? = some old)
    (hold : 0 < old.len)
    (hfit : 24 + 8 * slots.length + new.len ≤ p.getFreeSpacePointer + old.len) {q : TablePage}
    {bound : ℕ} (hbound : p.getTupleOffsetAtSlot i ≤ bound)
    (hbound' : bound ≤ p.getTupleOffsetAtSlot i + old.len)
    (hself : 0 < new.len → p.getTupleOffsetAtSlot i < bound)
    (hread : ∀ a, a + 4 ≤ 16 ∨ 20 ≤ a → a + 4 ≤ 24 + 8 * slots.length →
      a + 4 ≤ 24 + 8 * i ∨ 32 + 8 * i ≤ a → q.read32 a = p.read32 a)
    (hfsp : q.getFreeSpacePointer = p.getFreeSpacePointer + old.len - new.len)
    (hword : q.getTupleSize i = new.word)
    (hoff : 0 < new.len → q.getTupleOffsetAtSlot i = p.getTupleOffsetAtSlot i)
    (hfree : new = .free → q.getTupleOffsetAtSlot i = 0)
    (hbytes : q.bytes (p.getTupleOffsetAtSlot i + old.len - new.len) new.len = new.bytes)
    (hmove : ∀ b, p.getFreeSpacePointer ≤ b → b < p.getTupleOffsetAtSlot i →
      q (b + old.len - new.len) = p b)
    (hkeep : ∀ b, p.getTupleOffsetAtSlot i + old.len ≤ b → q b = p b) :
    (q.shiftOffsets bound old.len new.len).Represents pageId (slots.set i new) := by
  have hcount := h.count
  have htotal := h.total
  have hpage : pageSize = 4096 := rfl
  have hroom := h.room
  have hilt : i < slots.length := (List.getElem?_eq_some_iff.mp hs).1
  have hin := h.inside hs hold
  have hleni := lenAt_of_getElem? hs
  have hqcount : q.getTupleCount = slots.length :=
    (hread 20 (by omega) (by omega) (by omega)).trans hcount
  have hout : ∀ b, 24 + 8 * slots.length ≤ b →
      q.shiftOffsets bound old.len new.len b = q b := fun b hb =>
    shiftOffsets_of_not _ _ _ _ (by omega)
  have hhead : ∀ a, a + 4 ≤ 24 →
      (q.shiftOffsets bound old.len new.len).read32 a = q.read32 a := fun a ha =>
    Mem.read32_congr (fun b _ _ => shiftOffsets_of_not _ _ _ _ (by omega))
  have hsize : ∀ j, (q.shiftOffsets bound old.len new.len).getTupleSize j = q.getTupleSize j :=
    getTupleSize_shiftOffsets _ _ _ _
  have hsizes : ∀ j, j ≠ i → j < slots.length → q.getTupleSize j = p.getTupleSize j :=
    fun j hj hlt => hread _ (by omega) (by omega) (by omega)
  have hoffs : ∀ j, j ≠ i → j < slots.length →
      q.getTupleOffsetAtSlot j = p.getTupleOffsetAtSlot j :=
    fun j hj hlt => hread _ (by omega) (by omega) (by omega)
  have hshifted : ∀ n, n < bound → n + old.len < 2 ^ 32 → new.len ≤ n + old.len →
      shifted bound old.len new.len n = n + old.len - new.len := fun n hn hlt hle => by
    rw [shifted, if_pos hn, add32, sub32]
    omega
  have hnew : 0 < new.len → (q.shiftOffsets bound old.len new.len).getTupleOffsetAtSlot i
      = p.getTupleOffsetAtSlot i + old.len - new.len := fun hn => by
    rw [getTupleOffsetAtSlot_shiftOffsets _ _ _ _ (by omega) (hword ▸ Slot.word_pos.mpr hn),
      hoff hn, hshifted _ (hself hn) (by omega) (by omega)]
  refine h.resize hs hold hfit ?_ ?_ ((hhead 16 (by omega)).trans hfsp) ((hsize i).trans hword)
    ?_ hnew ?_ ?_ ?_ ?_ ?_ ?_
  · rw [getTablePageId, hhead 0 (by omega), hread 0 (by omega) (by omega) (by omega),
      getTablePageId]
  · exact (hhead 20 (by omega)).trans (hread 20 (by omega) (by omega) (by omega))
  · exact fun j hj hjlt => (hsize j).trans (hsizes j hj hjlt)
  · intro e
    have hzero : q.getTupleSize i = 0 := by
      rw [hword, e]
      rfl
    rw [getTupleOffsetAtSlot_shiftOffsets_of_zero _ _ _ _ hzero, hfree e]
  · intro j hj hjlt hjpos hb
    have hx := List.getElem?_eq_getElem hjlt
    have hinj := h.inside hx ((h.size_pos hx).mp hjpos)
    rw [getTupleOffsetAtSlot_shiftOffsets _ _ _ _ (by omega) (by rwa [hsizes j hj hjlt]),
      hoffs j hj hjlt, hshifted _ (by omega) (by omega) (by omega)]
  · intro j hj hjlt hjafter
    by_cases hjpos : 0 < p.getTupleSize j
    · have hx := List.getElem?_eq_getElem hjlt
      have hle := hjafter hjpos
      rcases h.before_or_after hs hold hx ((h.size_pos hx).mp hjpos) hj with ⟨hb, -⟩ | ⟨-, ha⟩
      · omega
      · rw [getTupleOffsetAtSlot_shiftOffsets _ _ _ _ (by omega) (by rwa [hsizes j hj hjlt]),
          hoffs j hj hjlt, shifted, if_neg (by omega)]
    · rw [getTupleOffsetAtSlot_shiftOffsets_of_zero _ _ _ _ (by rw [hsizes j hj hjlt]; omega),
        hoffs j hj hjlt]
  · by_cases hn : 0 < new.len
    · rw [hnew hn, ← hbytes]
      exact Mem.bytes_congr (fun k _ => hout _ (by omega))
    · have hzero : new.len = 0 := by omega
      rw [hzero, Mem.bytes_zero]
      exact (List.length_eq_zero_iff.mp ((Slot.length_bytes _).trans hzero)).symm
  · intro b hb hb'
    rw [hout _ (by omega)]
    exact hmove b hb hb'
  · intro b hb
    rw [hout _ (by omega)]
    exact hkeep b hb

/-- `UpdateTuple` gives a live tuple new contents where they fit. -/
theorem updateTuple (h : p.Represents pageId slots) (row : Tuple) (rid : RowId) :
    (p.updateTuple row rid = none ∧ SlotMap.step pageId slots (.updateTuple row rid) = none) ∨
    ∃ p' slots' code oldRow, p.updateTuple row rid = some (p', code, oldRow) ∧
      SlotMap.step pageId slots (.updateTuple row rid) = some (slots', .updated code oldRow) ∧
      p'.Represents pageId slots' := by
  unfold TablePage.updateTuple
  by_cases hrid : rid = invalidRowId
  · exact .inl ⟨if_pos hrid, if_pos hrid⟩
  refine .inr ?_
  simp only [if_neg hrid, SlotMap.step, SlotMap.updateTuple]
  by_cases hi : p.getTupleCount ≤ rid.slotNum
  · rw [if_pos hi]
    exact ⟨p, slots, -1, none, rfl, by simp only [h.getElem?_eq_none hi, Option.map_none], h⟩
  rw [if_neg hi]
  obtain ⟨s, hs⟩ := h.exists_getElem? (Nat.lt_of_not_le hi)
  have hdel := h.isDeleted_word hs
  rw [← h.word _ _ hs] at hdel
  cases s with
  | free | marked t =>
    rw [if_pos (hdel.mpr (fun _ hlive => by cases hlive))]
    exact ⟨p, slots, -1, none, rfl, by simp only [hs, Option.map_none], h⟩
  | live old =>
    have hword : p.getTupleSize rid.slotNum = old.size := h.word _ _ hs
    have hin := h.inside hs old.pos
    have hadd := h.getFreeSpaceRemaining_add
    have hcount := h.count
    have htotal := h.total
    have hlt := h.len_lt hs
    have hpos : 0 < old.size := old.pos
    have hlen : (Slot.live old).len = old.size := rfl
    have hnew : (Slot.live row).len = row.size := rfl
    have hsize : row.bytes.length = row.size := rfl
    have hpage : pageSize = 4096 := rfl
    rw [if_neg (fun hc => hdel.mp hc old rfl), hword]
    have hroom : add32 p.getFreeSpaceRemaining old.size = SlotMap.room slots + old.size := by
      rw [add32, ← h.getFreeSpaceRemaining_eq]
      omega
    rw [hroom]
    by_cases hfull : SlotMap.room slots + old.size < row.size
    · rw [if_pos hfull]
      have hfull' : SlotMap.room slots + Sized.size old < Sized.size row := hfull
      exact ⟨p, slots, 0, none, rfl, by simp only [hs, if_pos hfull', Option.map_none], h⟩
    rw [if_neg hfull, if_neg (by omega)]
    rw [← h.getFreeSpaceRemaining_eq] at hfull
    have hsub : sub32 (add32 p.getFreeSpacePointer old.size) row.size
        = p.getFreeSpacePointer + old.size - row.size := by
      rw [sub32, add32]
      omega
    have hbound : add32 (p.getTupleOffsetAtSlot rid.slotNum) old.size
        = p.getTupleOffsetAtSlot rid.slotNum + old.size := by
      rw [add32]
      omega
    have hold : p.bytes (p.getTupleOffsetAtSlot rid.slotNum) old.size = old.bytes :=
      h.bytes _ _ hs
    rw [hsub, hbound, hold]
    refine ⟨_, slots.set rid.slotNum (.live row), 1, some old.bytes, rfl, ?_, ?_⟩
    · simp only [hs]
      rw [if_neg (by rwa [← h.getFreeSpaceRemaining_eq])]
      rfl
    have hlive : Slot.live row ≠ .free := fun hfree => by cases hfree
    refine h.shiftOffsets (.live row) hs old.pos ?_ ?_ ?_ ?_ ?_ ?_ ?_ ?_ hlive.elim ?_ ?_ ?_
    · omega
    · omega
    · omega
    · intro _
      omega
    · intro a h₁ h₂ h₃
      rw [TablePage.setTupleSize, setFreeSpacePointer, Mem.read32_write32_of_disjoint (by omega),
        Mem.read32_write_of_disjoint (by omega), Mem.read32_write32_of_disjoint (by omega),
        Mem.read32_move_of_disjoint (by omega)]
    · rw [getFreeSpacePointer, TablePage.setTupleSize, setFreeSpacePointer,
        Mem.read32_write32_of_disjoint (by omega), Mem.read32_write_of_disjoint (by omega),
        Mem.read32_write32]
      exact Nat.mod_eq_of_lt (by omega)
    · rw [getTupleSize, TablePage.setTupleSize, Mem.read32_write32]
      exact Nat.mod_eq_of_lt row.lt
    · intro _
      rw [getTupleOffsetAtSlot, TablePage.setTupleSize, setFreeSpacePointer,
        Mem.read32_write32_of_disjoint (by omega), Mem.read32_write_of_disjoint (by omega),
        Mem.read32_write32_of_disjoint (by omega), Mem.read32_move_of_disjoint (by omega),
        getTupleOffsetAtSlot]
    · refine Eq.trans (Mem.bytes_congr (fun k _ => Mem.write32_of_not (by omega)))
        (Mem.bytes_write row.bytes)
    · intro b hb hb'
      have hsrc : p.getFreeSpacePointer + (b + old.size - row.size
          - (p.getFreeSpacePointer + old.size - row.size)) = b := by omega
      rw [TablePage.setTupleSize, setFreeSpacePointer, Mem.write32_of_not (by omega),
        Mem.write_of_not (by omega), Mem.write32_of_not (by omega),
        Mem.move_of_mem (by omega) (by omega)]
      exact congrArg p hsrc
    · intro b hb
      rw [TablePage.setTupleSize, setFreeSpacePointer, Mem.write32_of_not (by omega),
        Mem.write_of_not (by omega), Mem.write32_of_not (by omega), Mem.move_of_not (by omega)]

/-- `ApplyDelete` frees a slot that holds a tuple; a slot that is free already
has offset zero, which the assertion refuses. -/
theorem applyDelete (h : p.Represents pageId slots) (rid : RowId) :
    (p.applyDelete rid = none ∧ SlotMap.step pageId slots (.applyDelete rid) = none) ∨
    ∃ p' slots', p.applyDelete rid = some p' ∧
      SlotMap.step pageId slots (.applyDelete rid) = some (slots', .done) ∧
      p'.Represents pageId slots' := by
  unfold TablePage.applyDelete
  by_cases hi : p.getTupleCount ≤ rid.slotNum
  · exact .inl ⟨if_pos hi, by
      simp only [SlotMap.step, SlotMap.applyDelete, h.getElem?_eq_none hi, Option.map_none]⟩
  obtain ⟨s, hs⟩ := h.exists_getElem? (Nat.lt_of_not_le hi)
  have hdel := h.isDeleted_word hs
  rw [← h.word _ _ hs] at hdel
  have hword := h.word _ _ hs
  have hlt := h.len_lt hs
  have hroom := h.room
  simp only [if_neg hi]
  -- with the flag removed, the size is the length of the tuple
  have hsize : (if isDeleted (p.getTupleSize rid.slotNum) = true then
      unsetDeletedFlag (p.getTupleSize rid.slotNum) else p.getTupleSize rid.slotNum) = s.len := by
    cases s with
    | free =>
      rw [if_pos (hdel.mpr (fun _ hlive => by cases hlive)), hword]
      rfl
    | live t => rw [if_neg (fun hc => hdel.mp hc t rfl), hword]; rfl
    | marked t =>
      rw [if_pos (hdel.mpr (fun _ hlive => by cases hlive)), hword]
      exact unsetDeletedFlag_setDeletedFlag hlt
  rw [hsize]
  by_cases hfree : s = .free
  · refine .inl ⟨if_pos ?_, by
      simp only [SlotMap.step, SlotMap.applyDelete, hs, hfree, Option.map_none]⟩
    rw [h.freed _ (hfree ▸ hs)]
    omega
  have hpos : 0 < s.len := by
    cases s with
    | free => exact absurd rfl hfree
    | live t | marked t => exact t.pos
  have hin := h.inside hs hpos
  have hcount := h.count
  have htotal := h.total
  have hnew : (Slot.free : Slot Tuple).len = 0 := rfl
  have hpage : pageSize = 4096 := rfl
  have hadd : add32 p.getFreeSpacePointer s.len = p.getFreeSpacePointer + s.len := by
    rw [add32]
    omega
  rw [if_neg (by omega), hadd]
  refine .inr ⟨_, slots.set rid.slotNum .free, rfl, ?_, ?_⟩
  · cases s with
    | free => exact absurd rfl hfree
    | live t | marked t => simp only [SlotMap.step, SlotMap.applyDelete, hs, Option.map_some]
  refine h.shiftOffsets .free hs hpos ?_ ?_ ?_ ?_ ?_ ?_ ?_ ?_ ?_ ?_ ?_ ?_
  · omega
  · omega
  · omega
  · exact fun hc => absurd hc (lt_irrefl 0)
  · intro a h₁ h₂ h₃
    rw [TablePage.setTupleSize, setFreeSpacePointer, setTupleOffsetAtSlot,
      Mem.read32_write32_of_disjoint (by omega), Mem.read32_write32_of_disjoint (by omega),
      Mem.read32_write32_of_disjoint (by omega), Mem.read32_move_of_disjoint (by omega)]
  · rw [getFreeSpacePointer, TablePage.setTupleSize, setFreeSpacePointer, setTupleOffsetAtSlot,
      Mem.read32_write32_of_disjoint (by omega), Mem.read32_write32_of_disjoint (by omega),
      Mem.read32_write32]
    exact Nat.mod_eq_of_lt (by omega)
  · rw [getTupleSize, TablePage.setTupleSize, setTupleOffsetAtSlot,
      Mem.read32_write32_of_disjoint (by omega), Mem.read32_write32]
    rfl
  · exact fun hc => absurd hc (lt_irrefl 0)
  · intro _
    rw [getTupleOffsetAtSlot, setTupleOffsetAtSlot, Mem.read32_write32]
    rfl
  · rfl
  · intro b hb hb'
    have hsrc : p.getFreeSpacePointer + (b + s.len - 0 - (p.getFreeSpacePointer + s.len)) = b := by
      omega
    rw [TablePage.setTupleSize, setFreeSpacePointer, setTupleOffsetAtSlot, hnew,
      Mem.write32_of_not (by omega), Mem.write32_of_not (by omega),
      Mem.write32_of_not (by omega), Mem.move_of_mem (by omega) (by omega)]
    exact congrArg p hsrc
  · intro b hb
    rw [TablePage.setTupleSize, setFreeSpacePointer, setTupleOffsetAtSlot,
      Mem.write32_of_not (by omega), Mem.write32_of_not (by omega),
      Mem.write32_of_not (by omega), Mem.move_of_not (by omega)]

/-- `GetTuple` gives the bytes of a live tuple. -/
theorem getTuple (h : p.Represents pageId slots) (rid : RowId) :
    (p.getTuple rid).map (fun r => (slots, TableAnswer.got r))
      = SlotMap.step pageId slots (.getTuple rid) := by
  unfold TablePage.getTuple
  by_cases hrid : rid = invalidRowId
  · simp only [SlotMap.step, if_pos hrid, Option.map_none]
  simp only [SlotMap.step, SlotMap.getTuple, if_neg hrid]
  by_cases hi : p.getTupleCount ≤ rid.slotNum
  · rw [if_pos hi, h.getElem?_eq_none hi]
    rfl
  rw [if_neg hi]
  obtain ⟨s, hs⟩ := h.exists_getElem? (Nat.lt_of_not_le hi)
  have hdel := h.isDeleted_word hs
  rw [← h.word _ _ hs] at hdel
  have hword := h.word _ _ hs
  cases s with
  | free | marked t =>
    rw [if_pos (hdel.mpr (fun _ hlive => by cases hlive)), hs]
    rfl
  | live t =>
    have hbytes : p.bytes (p.getTupleOffsetAtSlot rid.slotNum) t.size = t.bytes := h.bytes _ _ hs
    have hsize : p.getTupleSize rid.slotNum = t.size := hword
    rw [if_neg (fun hc => hdel.mp hc t rfl), hs, hsize, hbytes]
    rfl

/-- **One call**: the page and the slot map both fail an assertion, or both
give the same answer and the page still represents the slots. -/
theorem step (h : p.Represents pageId slots) (call : TableCall) :
    (p.step call = none ∧ SlotMap.step pageId slots call = none) ∨
    ∃ p' slots' a, p.step call = some (p', a) ∧
      SlotMap.step pageId slots call = some (slots', a) ∧ p'.Represents pageId slots' := by
  cases call with
  | insertTuple row =>
    obtain ⟨slots', hs, h'⟩ := h.insertTuple row
    exact .inr ⟨_, slots', _, rfl, hs, h'⟩
  | updateTuple row rid =>
    rcases h.updateTuple row rid with ⟨hp, hs⟩ | ⟨p', slots', code, oldRow, hp, hs, h'⟩
    · exact .inl ⟨by rw [TablePage.step, hp]; rfl, hs⟩
    · exact .inr ⟨p', slots', _, by rw [TablePage.step, hp]; rfl, hs, h'⟩
  | markDelete rid =>
    obtain ⟨slots', hs, h'⟩ := h.markDelete rid
    exact .inr ⟨_, slots', _, rfl, hs, h'⟩
  | rollbackDelete rid =>
    rcases h.rollbackDelete rid with ⟨hp, hs⟩ | ⟨p', slots', hp, hs, h'⟩
    · exact .inl ⟨by rw [TablePage.step, hp]; rfl, hs⟩
    · exact .inr ⟨p', slots', _, by rw [TablePage.step, hp]; rfl, hs, h'⟩
  | applyDelete rid =>
    rcases h.applyDelete rid with ⟨hp, hs⟩ | ⟨p', slots', hp, hs, h'⟩
    · exact .inl ⟨by rw [TablePage.step, hp]; rfl, hs⟩
    · exact .inr ⟨p', slots', _, by rw [TablePage.step, hp]; rfl, hs, h'⟩
  | getTuple rid =>
    rw [← h.getTuple rid, TablePage.step]
    rcases p.getTuple rid with _ | r
    · exact .inl ⟨rfl, rfl⟩
    · exact .inr ⟨p, slots, _, rfl, rfl, h⟩

end Represents

/-- A page fresh from `Init` has no slots, whatever was in its memory. -/
theorem represents_init (m : Mem) (pageId prevId : Int32) :
    (init m pageId prevId).Represents pageId.toInt [] := by
  have hfsp : (init m pageId prevId).getFreeSpacePointer = pageSize := by
    rw [init, setTupleCount, setFreeSpacePointer, getFreeSpacePointer,
      Mem.read32_write32_of_disjoint (by decide), Mem.read32_write32]
    rfl
  refine ⟨?_, ?_, nofun, nofun, nofun, by rw [hfsp]; decide, by rw [hfsp]; rfl, ?_⟩
  · rw [init, setTupleCount, setFreeSpacePointer, setNextPageId, setPrevPageId, getTablePageId,
      Mem.read32_write32_of_disjoint (by decide), Mem.read32_write32_of_disjoint (by decide),
      Mem.read32_write32_of_disjoint (by decide), Mem.read32_write32_of_disjoint (by decide),
      Mem.read32_write32, ofPageId, Nat.mod_eq_of_lt pageId.toUInt32.toNat_lt,
      UInt32.ofNat_toNat, Int32.toInt32_toUInt32]
  · rw [init, setTupleCount, getTupleCount, Mem.read32_write32]
    rfl
  · rw [hfsp]
    exact Tiles.empty

/-- **A slotted page refines its slot map.** A sequence of calls on a fresh
page gets stuck on a failed assertion exactly when the slot map does, else it
gives the same answers. The page then represents the slots, its free space
does not underflow, and a further call changes no other slot than the one it
is about. -/
theorem refines_slotMap (m : Mem) (pageId prevId : Int32) (calls : List TableCall) :
    (Machine.run step (init m pageId prevId) calls = none ∧
      Machine.run (SlotMap.step pageId.toInt) [] calls = none) ∨
    ∃ p slots answers, Machine.run step (init m pageId prevId) calls = some (p, answers) ∧
      Machine.run (SlotMap.step pageId.toInt) [] calls = some (slots, answers) ∧
      p.Represents pageId.toInt slots ∧
      p.getFreeSpaceRemaining + 24 + 8 * p.getTupleCount = p.getFreeSpacePointer ∧
      ∀ call p' a, p.step call = some (p', a) → ∃ slots',
        SlotMap.step pageId.toInt slots call = some (slots', a) ∧
        p'.Represents pageId.toInt slots' ∧
        ∀ j, SlotMap.target call a ≠ some j → slots'[j]? = slots[j]? := by
  rcases Machine.run_of_bisimulation (R := Represents pageId.toInt)
    (fun p slots call h => h.step call) (represents_init m pageId prevId) calls with
    hstuck | ⟨p, slots, answers, hp, hslots, h⟩
  · exact .inl hstuck
  · refine .inr ⟨p, slots, answers, hp, hslots, h, h.getFreeSpaceRemaining_add, ?_⟩
    intro call p' a hcall
    rcases h.step call with ⟨hnone, -⟩ | ⟨p'', slots', a', hp'', hslots', h'⟩
    · rw [hnone] at hcall
      cases hcall
    · rw [hp''] at hcall
      cases hcall
      exact ⟨slots', hslots', h', fun j hj => SlotMap.step_getElem? hslots' hj⟩

end TablePage

end MiniSql
