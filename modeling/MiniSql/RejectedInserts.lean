import MiniSql.HeapUpdate
import MiniSql.PagedHeapPool

/-!
# Insertions that are rejected

`InsertTuple` of a row that fits in no page returns `false`, but before it finds
that out it has allocated a new page and linked it to the last one. The new page
stays where it is, empty. So the tuples and the pin counts are as before, and the
chain and the set of pages in use have become longer, by one page for each
attempt (`PooledHeap.insertAgain_oversized`, `PooledHeap.insertTuple_unpinned`).
-/

namespace MiniSql

open PoolCalls Program

/-- `GetSerializedSize` of the row is larger than `SIZE_MAX_ROW`, which is
`PAGE_SIZE - 32`. -/
def Oversized (row : List Field) : Prop :=
  ∃ n, Row.sizeFields row = some n ∧ TablePage.sizeMaxRow < n.toNat

/-- What is written has a type. -/
theorem Row.ne_invalid_of_serializeFields {fs : List Field} {r : List UInt8 × UInt32}
    (h : Row.serializeFields fs = some r) : ∀ f ∈ fs, f.typeId ≠ .kTypeInvalid := by
  induction fs generalizing r with
  | nil => exact fun f hf => absurd hf List.not_mem_nil
  | cons f fs ih =>
    simp only [Row.serializeFields] at h
    split at h
    · rename_i bs move rest ofs hf hfs
      refine List.forall_mem_cons.mpr ⟨fun hinvalid => ?_, ih hfs⟩
      cases f with
      | null t =>
        cases (show t = .kTypeInvalid from hinvalid)
        cases hf
      | integer | float | chars => cases hinvalid
    · cases h

/-- The bytes of such a row are more than a page has room for. -/
theorem Oversized.lt_size {row : List Field} {t : Tuple} (h : Oversized row)
    (hrow : Tuple.ofFields row = some t) : TablePage.sizeMaxRow < t.size := by
  obtain ⟨n, hn, hlarge⟩ := h
  unfold Tuple.ofFields at hrow
  split at hrow
  · cases hrow
  · rename_i bytes m hser
    split at hrow
    · rename_i hpos
      cases hrow
      obtain ⟨bs, hbs, hsize⟩ := Row.serializeFields_eq (Row.ne_invalid_of_serializeFields hser)
      rw [hser] at hbs
      cases hbs
      rw [hn] at hsize
      cases hsize
      rwa [UInt32.toNat_ofNat', Nat.mod_eq_of_lt hpos.2] at hlarge
    · cases hrow

namespace PooledHeap

variable {s s' : PooledHeap} {row : List Field} {newPageId : PageId} {held : PageId → ℕ}
  {q pageId : PageId} {p : Pointer PageId} {page : Option (Pointer PageId)} {n : ℕ} {t : Tuple}
  {insert : TablePage → TablePage × Option RowId}

/-- `InsertTuple` with the same row again and again, with the ids that `NewPage`
gives. -/
def insertAgain (row : List Field) : List PageId → HeapM (List (Option RowId))
  | [] => return []
  | newPageId :: newPageIds => do
    let rid ← insertTuple row newPageId
    let rids ← insertAgain row newPageIds
    return rid :: rids

/-- **The heap is left alone**: all insertions are rejected, and the tuples, the
chain, the pages in use and the pin counts are as before. -/
def LeavesHeap (s : PooledHeap) (row : List Field) (newPageIds : List PageId) : Prop :=
  ∃ rids s', insertAgain row newPageIds s = some (rids, s') ∧ (∀ rid ∈ rids, rid = none) ∧
    (∀ rid, s'.heap.tupleAt rid = s.heap.tupleAt rid) ∧
    (∀ ids, s'.heap.IsChain ids ↔ s.heap.IsChain ids) ∧
    (∀ q, q ∈ s'.heap.bufferPool.allocated ↔ q ∈ s.heap.bufferPool.allocated) ∧
    pinCount s'.log = pinCount s.log

/-! ## The pin counts -/

/-- The pages that are pinned are among those that are held. -/
def Holding (held : PageId → ℕ) (s : PooledHeap) : Prop := Holds held s.log

theorem use_holding : Keeps (Holding held) (emit (.use p)) :=
  Triple.update (fun _ h => Holds.use h)

theorem deref_holding : Keeps (Holding held) (deref p) := by
  refine Triple.bind use_holding (fun _ => ?_)
  refine Triple.bind (Triple.read (Q := fun _ => Holding held) (fun _ h => h)) (fun s => ?_)
  exact Triple.lift (fun _ _ _ h => h)

theorem getPageId_holding : Triple (Holding held) (getPageId p)
    (fun id s => id = p.page ∧ Holding held s) :=
  Triple.bind use_holding (fun _ => Triple.ret (fun _ h => ⟨rfl, h⟩))

theorem fetchPage_holding : Triple (Holding held) (fetchPage q)
    (fun p s => p.page = q ∧ Holding (held + one q) s) := by
  refine Triple.bind (Triple.read (Q := fun _ => Holding held) (fun _ h => h)) (fun a => ?_)
  refine Triple.bind (Triple.lift (Q := fun _ => Holding held) (fun _ _ _ h => h)) (fun x => ?_)
  exact Triple.bind (Triple.update (Q := fun _ => Holding (held + one q)) (fun _ h => h.fetch))
    (fun _ => Triple.ret (fun _ h => ⟨rfl, h⟩))

theorem newPage_holding : Triple (Holding held) (newPage q) (fun _ => Holding (held + one q)) := by
  intro s u s' h hrun
  cases hnew : s.heap.bufferPool.newPage q with
  | none =>
    rw [newPage_none hnew] at hrun
    cases hrun
  | some pool =>
    rw [newPage_some hnew] at hrun
    cases hrun
    exact Holds.new h

theorem unpinPage_holding :
    Triple (Holding (held + one q)) (unpinPage q) (fun _ => Holding held) :=
  Triple.update (fun _ h => Holds.unpin h)

theorem write_holding {x : TablePage} : Keeps (Holding held) (write p x) :=
  Triple.update (fun _ h => h)

/-- The loop unpins each page that it has fetched. -/
theorem insertLoop_holding : Keeps (Holding held) (insertLoop insert n pageId page) := by
  induction n generalizing pageId page with
  | zero => exact Triple.ite (fun _ => Triple.ret (fun _ h => h)) (fun _ => Triple.stuck)
  | succ n ih =>
    refine Triple.ite (fun _ => Triple.ret (fun _ h => h)) (fun _ => ?_)
    refine Triple.andThen fetchPage_holding (fun p hp => ?_)
    refine Triple.bind deref_holding (fun x => ?_)
    rcases insert x with ⟨x', _ | rid⟩
    · refine Triple.bind deref_holding (fun x => ?_)
      refine Triple.andThen getPageId_holding (fun id hid => ?_)
      rw [hid, hp]
      exact Triple.bind unpinPage_holding (fun _ => ih)
    · refine Triple.bind write_holding (fun _ => ?_)
      refine Triple.andThen getPageId_holding (fun id hid => ?_)
      rw [hid, hp]
      exact Triple.bind unpinPage_holding (fun _ => Triple.ret (fun _ h => h))

/-- A new page has two pins, from `NewPage` and from `FetchPage`, and is unpinned
twice. -/
theorem insertInNewPage_holding : Keeps (Holding held) (insertInNewPage p t newPageId) := by
  refine Triple.bind newPage_holding (fun _ => ?_)
  refine Triple.andThen getPageId_holding (fun currPageId _ => ?_)
  refine Triple.bind deref_holding (fun x => Triple.bind write_holding (fun _ => ?_))
  refine Triple.andThen getPageId_holding (fun _ _ => ?_)
  refine Triple.andThen fetchPage_holding (fun page hpage => ?_)
  refine Triple.bind deref_holding (fun x => Triple.bind write_holding (fun _ => ?_))
  refine Triple.andThen getPageId_holding (fun id hid => ?_)
  rw [hid, hpage]
  refine Triple.bind unpinPage_holding (fun _ => ?_)
  refine Triple.andThen getPageId_holding (fun id hid => ?_)
  rw [hid, hpage]
  exact Triple.bind unpinPage_holding (fun _ => Triple.ret (fun _ h => h))

/-- **`InsertTuple` leaves no pins**, whatever comes of it. -/
theorem insertTuple_unpinned : Keeps (Holding held) (insertTuple row newPageId) := by
  refine Triple.bind (Triple.lift (Q := fun _ => Holding held) (fun _ _ _ h => h)) (fun t => ?_)
  refine Triple.bind (Triple.read (Q := fun _ => Holding held) (fun _ h => h)) (fun s => ?_)
  refine Triple.bind insertLoop_holding (fun r => ?_)
  obtain ⟨rid, page⟩ := r
  cases rid with
  | some rid => exact Triple.ret (fun _ h => h)
  | none =>
    exact Triple.bind (Triple.lift (Q := fun _ => Holding held) (fun _ _ _ h => h))
      (fun p => insertInNewPage_holding)

/-! ## The chain -/

/-- **What rejected insertions do**: the chain gets one page more for each of
them, and the tuples stay. -/
theorem insertAgain_oversized {ids : List PageId} {slots : PageId → List (Slot Tuple)}
    (hrow : Oversized row) {newPageIds : List PageId} {rids : List (Option RowId)}
    (hl : PagedHeap.Laid (fun _ => True) s.heap ids slots)
    (hrun : insertAgain row newPageIds s = some (rids, s')) :
    (∀ rid ∈ rids, rid = none) ∧ (∀ rid, s'.heap.tupleAt rid = s.heap.tupleAt rid) ∧
      ∃ slots', PagedHeap.Laid (fun _ => True) s'.heap (ids ++ newPageIds) slots' := by
  induction newPageIds generalizing s ids slots rids with
  | nil =>
    cases hrun
    exact ⟨fun _ hmem => absurd hmem List.not_mem_nil, fun _ => rfl, slots,
      (List.append_nil ids).symm ▸ hl⟩
  | cons newPageId newPageIds ih =>
    obtain ⟨⟨rid, s₁⟩, hins, hrun⟩ := Option.bind_eq_some_iff.mp hrun
    obtain ⟨⟨rids', s₂⟩, hrest, hrun⟩ := Option.bind_eq_some_iff.mp hrun
    cases hrun
    have hheap : s.heap.insertTuple row newPageId = some (s₁.heap, rid) := by
      rw [← forget_insertTuple, hins]
      rfl
    obtain ⟨t, ht⟩ : ∃ t, Tuple.ofFields row = some t := by
      obtain ⟨t, -, -, ht, -⟩ := insertTuple_cases hins
      exact ⟨t, ht⟩
    obtain ⟨rfl, hnew, hl₁⟩ := hl.insertTuple_of_oversized ht (hrow.lt_size ht) hheap
    obtain ⟨hnone, hsame, slots', hl'⟩ := ih hl₁ hrest
    refine ⟨List.forall_mem_cons.mpr ⟨rfl, hnone⟩, fun rid => (hsame rid).trans ?_, slots', ?_⟩
    · exact hl.tupleAt_of_append hnew hl₁ (fun _ => rfl)
    · rwa [List.append_assoc] at hl'

/-- **Rejected insertions do not leave the heap alone**, in any state of a heap,
unless there are none. -/
theorem leavesHeap_iff_nil {schema : Schema} {id : PageId} {h₀ : PagedHeap}
    (hcreate : PagedHeap.create schema id = some h₀) {calls : List PagedHeap.Call}
    {answers : List PagedHeap.Answer}
    (hrun : Machine.run PagedHeap.step h₀ calls = some (s.heap, answers)) (hrow : Oversized row)
    (newPageIds : List PageId) : s.LeavesHeap row newPageIds ↔ newPageIds = [] := by
  obtain ⟨-, ids, slots, hl⟩ :=
    PagedHeap.exists_laid_of_run hcreate (fun c _ => c.brings_true) hrun
  constructor
  · rintro ⟨rids, s', hagain, -, -, -, halloc, -⟩
    obtain ⟨-, -, slots', hl'⟩ := insertAgain_oversized hrow hl hagain
    refine List.eq_nil_iff_forall_not_mem.mpr (fun q hq => ?_)
    have hin : q ∈ ids := (hl.inUse q).mp ((halloc q).mp
      ((hl'.inUse q).mpr (List.mem_append_right ids hq)))
    exact (List.nodup_append.mp hl'.nodup).2.2 q hin q hq rfl
  · rintro rfl
    exact ⟨[], s, rfl, fun _ hmem => absurd hmem List.not_mem_nil, fun _ => rfl, fun _ => Iff.rfl,
      fun _ => Iff.rfl, rfl⟩

/-- A row of two strings of 2040 bytes needs 4088 bytes. -/
theorem oversized_twoWideRow : Oversized (PagedHeap.twoWideRow 2040) := by
  refine ⟨4088, ?_, by decide⟩
  unfold PagedHeap.twoWideRow
  simp only [Row.sizeFields, Field.getSerializedSize, List.length_replicate]
  rfl

/-- One attempt to insert it into a new heap does not leave the heap alone. -/
theorem leavesHeap_iff_nil_twoWide :
    ∃ h₀, PagedHeap.create PagedHeap.twoWideSchema 0 = some h₀ ∧
      ¬ LeavesHeap ⟨h₀, []⟩ (PagedHeap.twoWideRow 2040) [1] := by
  obtain ⟨h₀, hcreate⟩ : ∃ h₀, PagedHeap.create PagedHeap.twoWideSchema 0 = some h₀ := ⟨_, rfl⟩
  refine ⟨h₀, hcreate, fun hleaves => ?_⟩
  have hrun : Machine.run PagedHeap.step h₀ [] = some ((⟨h₀, []⟩ : PooledHeap).heap, []) := rfl
  exact absurd ((leavesHeap_iff_nil hcreate hrun oversized_twoWideRow [1]).mp hleaves)
    (List.cons_ne_nil 1 [])

/-- **A page is lost**: after the attempt page 1 is in use. -/
theorem not_leavesHeap : ¬ ∀ (schema : Schema) (h₀ : PagedHeap) (s : PooledHeap)
    (calls : List PagedHeap.Call) (answers : List PagedHeap.Answer) (row : List Field)
    (newPageIds : List PageId), PagedHeap.create schema 0 = some h₀ →
    Machine.run PagedHeap.step h₀ calls = some (s.heap, answers) → Oversized row →
    newPageIds.Nodup → (∀ q ∈ newPageIds, s.heap.Fresh q) → s.LeavesHeap row newPageIds := by
  intro hall
  have hruns : ((PagedHeap.create PagedHeap.twoWideSchema 0).bind (fun h₀ =>
      (insertAgain (PagedHeap.twoWideRow 2040) [1] ⟨h₀, []⟩).map (fun r =>
        (h₀.bufferPool.allocated, r.1, r.2.heap.bufferPool.allocated)))) =
      some ([0], [none], [1, 0]) := by decide +kernel
  obtain ⟨h₀, hcreate, hruns⟩ := Option.bind_eq_some_iff.mp hruns
  obtain ⟨⟨rids, s'⟩, hagain, hends⟩ := Option.map_eq_some_iff.mp hruns
  obtain ⟨halloc, hends⟩ := Prod.mk.inj hends
  obtain ⟨-, halloc'⟩ := Prod.mk.inj hends
  have hfresh : ∀ q ∈ [(1 : PageId)], h₀.Fresh q := fun q hq => by
    rw [List.mem_singleton.mp hq]
    exact ⟨by rw [halloc]; decide, by decide⟩
  obtain ⟨rids', s'', hagain', -, -, -, hsame, -⟩ := hall _ h₀ ⟨h₀, []⟩ [] [] _ [1] hcreate rfl
    oversized_twoWideRow (List.nodup_singleton 1) hfresh
  rw [hagain] at hagain'
  cases hagain'
  have hin : (1 : PageId) ∈ h₀.bufferPool.allocated :=
    (hsame 1).mp (by rw [halloc']; exact List.mem_cons_self)
  rw [halloc] at hin
  exact absurd hin (by decide)

end PooledHeap

end MiniSql
