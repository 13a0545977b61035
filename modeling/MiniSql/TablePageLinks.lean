import MiniSql.TablePageRefines

/-!
# The links of a slotted page

The first twenty-four bytes of a slotted page are its header, and the two
words at 8 and 12 link it to the pages before and after it. No operation on
the tuples changes the bytes below 16 (`Represents.step_header`), and setting
a link changes no tuple (`Represents.of_header`), so that the links and the
slots of a page can be looked at apart.

A slot counts as live for the functions that look for a live tuple exactly when
there is one in it (`Represents.isDeleted_getTupleSize`).
-/

namespace MiniSql

namespace TablePage

open Bytes

/-- A page id is read from the word that it has been stored in. -/
theorem toPageId_ofPageId (id : Int32) : toPageId (ofPageId id) = id.toInt := by
  rw [toPageId, ofPageId, UInt32.ofNat_toNat, Int32.toInt32_toUInt32]

theorem ofPageId_lt (id : Int32) : ofPageId id < 2 ^ 32 := id.toUInt32.toNat_lt

/-- The link to the page after this one. -/
theorem getNextPageId_setNextPageId (p : TablePage) (id : Int32) :
    (p.setNextPageId id).getNextPageId = id.toInt := by
  rw [getNextPageId, setNextPageId, Mem.read32_write32, Nat.mod_eq_of_lt (ofPageId_lt id),
    toPageId_ofPageId]

theorem getPrevPageId_setNextPageId (p : TablePage) (id : Int32) :
    (p.setNextPageId id).getPrevPageId = p.getPrevPageId := by
  rw [getPrevPageId, setNextPageId, Mem.read32_write32_of_disjoint (by omega), getPrevPageId]

/-- The links of a page fresh from `Init`. -/
theorem links_init (m : Mem) (pageId prevId : Int32) :
    (init m pageId prevId).getPrevPageId = prevId.toInt ∧
      (init m pageId prevId).getNextPageId = invalidPageId := by
  constructor
  · rw [init, setTupleCount, setFreeSpacePointer, setNextPageId, setPrevPageId, getPrevPageId,
      Mem.read32_write32_of_disjoint (by omega), Mem.read32_write32_of_disjoint (by omega),
      Mem.read32_write32_of_disjoint (by omega), Mem.read32_write32,
      Nat.mod_eq_of_lt (ofPageId_lt prevId), toPageId_ofPageId]
  · rw [init, setTupleCount, setFreeSpacePointer, setNextPageId, getNextPageId,
      Mem.read32_write32_of_disjoint (by omega), Mem.read32_write32_of_disjoint (by omega),
      Mem.read32_write32, Nat.mod_eq_of_lt (ofPageId_lt (-1)), toPageId_ofPageId]
    rfl

/-- Pages with the same header have the same links. -/
theorem links_congr {p p' : TablePage} (h : ∀ b < 16, p' b = p b) :
    p'.getPrevPageId = p.getPrevPageId ∧ p'.getNextPageId = p.getNextPageId := by
  constructor
  · rw [getPrevPageId, getPrevPageId, Mem.read32_congr (fun i _ hi => h i (by omega))]
  · rw [getNextPageId, getNextPageId, Mem.read32_congr (fun i _ hi => h i (by omega))]

namespace Represents

variable {pageId : PageId} {p p' : TablePage} {slots : List (Slot Tuple)} {i b : ℕ} {row : Tuple}
  {rid : RowId}

/-- Only the page id and what is behind the links counts. -/
theorem of_header (h : p.Represents pageId slots) (hid : p'.read32 0 = p.read32 0)
    (hsame : ∀ b, 16 ≤ b → p' b = p b) : p'.Represents pageId slots := by
  have hread : ∀ a, 16 ≤ a → p'.read32 a = p.read32 a := fun a ha =>
    Mem.read32_congr (fun i hi _ => hsame i (ha.trans hi))
  have hfsp : p'.getFreeSpacePointer = p.getFreeSpacePointer := hread 16 le_rfl
  have hoff : p'.getTupleOffsetAtSlot = p.getTupleOffsetAtSlot :=
    funext (fun i => hread _ (by omega))
  refine ⟨?_, (hread 20 (by omega)).trans h.count, fun i s hs => (hread _ (by omega)).trans
    (h.word i s hs), fun i s hs => ?_, fun i hi => by rw [hoff]; exact h.freed i hi,
    hfsp ▸ h.room, hfsp ▸ h.total, by rw [hoff, hfsp]; exact h.tiles⟩
  · rw [getTablePageId, hid]
    exact h.pageId
  · rw [hoff, ← h.bytes i s hs]
    by_cases hlen : s.len = 0
    · rw [hlen, Mem.bytes_zero, Mem.bytes_zero]
    · have hin := h.inside hs (Nat.pos_of_ne_zero hlen)
      have hroom := h.room
      exact Mem.bytes_congr (fun k _ => hsame _ (by omega))

theorem setNextPageId (h : p.Represents pageId slots) (id : Int32) :
    (TablePage.setNextPageId p id).Represents pageId slots :=
  h.of_header (Mem.read32_write32_of_disjoint (by omega)) (fun _ hb =>
    Mem.write32_of_not (by omega))

/-! ## The operations keep the header -/

theorem insertTuple_header (h : p.Represents pageId slots) (hb : b < 16) :
    (p.insertTuple row).1 b = p b := by
  by_cases hfull : p.getFreeSpaceRemaining < row.size + 8
  · rw [TablePage.insertTuple, if_pos hfull]
  · have hadd := h.getFreeSpaceRemaining_add
    have hplaced : placed p p.freeSlot row b = p b := by
      rw [placed, Mem.write32_of_not (by omega), Mem.write32_of_not (by omega),
        Mem.write_of_not (by omega), Mem.write32_of_not (by omega)]
    rw [h.insertTuple_eq hfull]
    show (if p.freeSlot = p.getTupleCount then _ else _ : TablePage) b = p b
    split
    · exact (Mem.write32_of_not (by omega)).trans hplaced
    · exact hplaced

theorem setTupleSize_header (p : TablePage) {n : ℕ} (hb : b < 16) :
    TablePage.setTupleSize p i n b = p b :=
  Mem.write32_of_not (by omega)

theorem markDelete_header (p : TablePage) (hb : b < 16) : (p.markDelete rid).1 b = p b := by
  unfold TablePage.markDelete
  simp only
  split
  · rfl
  · split
    · rfl
    · split
      · exact setTupleSize_header p hb
      · rfl

theorem rollbackDelete_header (hs : p.rollbackDelete rid = some p') (hb : b < 16) :
    p' b = p b := by
  unfold TablePage.rollbackDelete at hs
  simp only at hs
  split at hs
  · cases hs
  · split at hs
    · cases hs
      exact setTupleSize_header p hb
    · cases hs
      rfl

theorem applyDelete_header (h : p.Represents pageId slots) (hs : p.applyDelete rid = some p')
    (hb : b < 16) : p' b = p b := by
  have hroom := h.room
  unfold TablePage.applyDelete at hs
  simp only at hs
  split at hs
  · cases hs
  · split at hs
    · cases hs
    · cases hs
      rw [shiftOffsets_of_not _ _ _ _ (.inl (by omega))]
      rw [setTupleOffsetAtSlot, Mem.write32_of_not (by omega), TablePage.setTupleSize,
        Mem.write32_of_not (by omega), setFreeSpacePointer, Mem.write32_of_not (by omega),
        Mem.move_of_not (by omega)]

theorem updateTuple_header (h : p.Represents pageId slots) {code : ℤ} {old : Option (List UInt8)}
    (hs : p.updateTuple row rid = some (p', code, old)) (hb : b < 16) : p' b = p b := by
  have hadd := h.getFreeSpaceRemaining_add
  have htotal := h.total
  have hpage : pageSize = 4096 := rfl
  have hsize : row.bytes.length = row.size := rfl
  unfold TablePage.updateTuple at hs
  simp only at hs
  split at hs
  · cases hs
  split at hs
  · cases hs
    rfl
  rename_i hcount
  split at hs
  · cases hs
    rfl
  rename_i hdel
  split at hs
  · cases hs
    rfl
  rename_i hfit
  split at hs
  · cases hs
  rename_i hoff
  cases hs
  -- A slot whose word is not that of a deleted tuple is live, so that its word is a size and
  -- the sum with the free space does not wrap.
  obtain ⟨s, hslot⟩ := h.exists_getElem? (Nat.lt_of_not_le hcount)
  rw [h.word _ _ hslot] at hdel
  obtain ⟨old, rfl⟩ : ∃ old, s = .live old := by
    by_contra hno
    exact hdel ((h.isDeleted_word hslot).mpr (fun t ht => hno ⟨t, ht⟩))
  have hword : p.getTupleSize rid.slotNum = old.size := h.word _ _ hslot
  have hin := h.inside hslot old.pos
  have hlen : (Slot.live old).len = old.size := rfl
  rw [hword] at hfit ⊢
  have hroom : add32 p.getFreeSpaceRemaining old.size = p.getFreeSpaceRemaining + old.size := by
    rw [add32]
    omega
  rw [hroom] at hfit
  rw [shiftOffsets_of_not _ _ _ _ (.inl (by omega)), TablePage.setTupleSize,
    Mem.write32_of_not (by omega), Mem.write_of_not (by omega), setFreeSpacePointer,
    Mem.write32_of_not (by omega), Mem.move_of_not (by omega)]

/-- **No call changes the links.** -/
theorem step_header (h : p.Represents pageId slots) {call : TableCall} {a : TableAnswer}
    (hs : p.step call = some (p', a)) (hb : b < 16) : p' b = p b := by
  cases call with
  | insertTuple row =>
    cases hs
    exact h.insertTuple_header hb
  | updateTuple row rid =>
    obtain ⟨⟨q, code, old⟩, hq, hr⟩ := Option.map_eq_some_iff.mp hs
    cases hr
    exact h.updateTuple_header hq hb
  | markDelete rid =>
    cases hs
    exact markDelete_header p hb
  | rollbackDelete rid =>
    obtain ⟨q, hq, hr⟩ := Option.map_eq_some_iff.mp hs
    cases hr
    exact rollbackDelete_header hq hb
  | applyDelete rid =>
    obtain ⟨q, hq, hr⟩ := Option.map_eq_some_iff.mp hs
    cases hr
    exact h.applyDelete_header hq hb
  | getTuple rid =>
    obtain ⟨q, -, hr⟩ := Option.map_eq_some_iff.mp hs
    cases hr
    rfl

/-! ## The live tuples -/

/-- A slot with a live tuple. -/
theorem isDeleted_getTupleSize (h : p.Represents pageId slots) (hi : i < slots.length) :
    isDeleted (p.getTupleSize i) = false ↔ ∃ t, slots[i]? = some (.live t) := by
  obtain ⟨s, hs⟩ := h.exists_getElem? (h.count ▸ hi)
  rw [h.word i s hs, ← Bool.not_eq_true, h.isDeleted_word hs, hs]
  constructor
  · intro hno
    by_contra hnone
    exact hno (fun t ht => hnone ⟨t, by rw [ht]⟩)
  · rintro ⟨t, ht⟩ hno
    exact hno t (Option.some.inj ht)

end Represents

end TablePage

end MiniSql
