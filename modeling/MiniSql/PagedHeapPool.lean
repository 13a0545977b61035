import MiniSql.PagedHeapChain
import MiniSql.PoolCalls
import MiniSql.Triples

/-!
# The table heap and its buffer pool

`InsertTuple` of `storage/table_heap.cpp` once more, with the calls that it makes
to the buffer pool and the uses of the pointers in between. What it makes of the
heap is what `PagedHeap.insertTuple` does (`forget_insertTuple`).

Each page is unpinned before the next one is looked at. Where no page has room,
the last one is linked to the new page through a pointer that has been given up
before `NewPage`.
-/

namespace MiniSql

open PoolCalls Program

/-- `TableHeap`, with the calls that have been made to the buffer pool. -/
structure PooledHeap where
  /-- The heap and its pages. -/
  heap : PagedHeap
  /-- The calls and the uses of pointers. -/
  log : List (Event PageId)

/-- Code of the heap. -/
abbrev HeapM := StateT PooledHeap Option

/-- **Some page** of the chain takes the row. -/
def PagedHeap.HasRoom (h : PagedHeap) (row : List Field) (ids : List PageId) : Prop :=
  ∃ t, Tuple.ofFields row = some t ∧
    ∃ id ∈ ids, (TablePage.insertTuple (h.bufferPool.data id) t).2 ≠ none

namespace PooledHeap

/-- Something happens to the buffer pool. -/
def emit (e : Event PageId) : HeapM PUnit := modify (fun s => { s with log := s.log ++ [e] })

/-- `FetchPage`. -/
def fetchPage (pageId : PageId) : HeapM (Pointer PageId) := do
  let s ← get
  let _page ← s.heap.bufferPool.fetchPage pageId
  emit (.fetch pageId)
  return ⟨pageId, s.log.length + 1⟩

/-- `UnpinPage`. -/
def unpinPage (pageId : PageId) : HeapM PUnit := emit (.unpin pageId)

/-- `NewPage`, when it gives this id. -/
def newPage (pageId : PageId) : HeapM PUnit := do
  let s ← get
  let bufferPool ← s.heap.bufferPool.newPage pageId
  set { s with heap := { s.heap with bufferPool } }
  emit (.new pageId)

/-- The page behind a pointer. -/
def deref (p : Pointer PageId) : HeapM TablePage := do
  emit (.use p)
  let s ← get
  s.heap.bufferPool.fetchPage p.page

/-- The page behind a pointer is written. -/
def write (p : Pointer PageId) (page : TablePage) : HeapM PUnit :=
  modify (fun s => { s with heap :=
    { s.heap with bufferPool := s.heap.bufferPool.writePage p.page page } })

/-- `GetPageId` of a frame. -/
def getPageId (p : Pointer PageId) : HeapM PageId := do
  emit (.use p)
  return p.page

/-- The loop of `InsertTuple` with `TablePage::InsertTuple` as `insert`, for at
most the given number of rounds: the row id, if a page has room, and what `page`
points to at the end. -/
def insertLoop (insert : TablePage → TablePage × Option RowId) :
    ℕ → PageId → Option (Pointer PageId) → HeapM (Option RowId × Option (Pointer PageId))
  | 0, pageId, page => if pageId = invalidPageId then return (none, page) else failure
  | rounds + 1, pageId, page =>
    if pageId = invalidPageId then return (none, page)
    else do
      let page ← fetchPage pageId
      match insert (← deref page) with
      | (q, some rid) => do
        write page q
        unpinPage (← getPageId page)
        return (some rid, some page)
      | (_, none) => do
        let pageId := TablePage.getNextPageId (← deref page)
        unpinPage (← getPageId page)
        insertLoop insert rounds pageId (some page)

/-- `InsertTuple` behind the loop: a new page after the last one. `FlushPage`
asks for no frame. -/
def insertInNewPage (page : Pointer PageId) (t : Tuple) (newPageId : PageId) :
    HeapM (Option RowId) := do
  newPage newPageId
  let currPageId ← getPageId page
  write page (TablePage.setNextPageId (← deref page) (Int32.ofInt newPageId))
  let _flushed ← getPageId page
  let page ← fetchPage newPageId
  let (q, rid) := TablePage.insertTuple
    (TablePage.init (← deref page) (Int32.ofInt newPageId) (Int32.ofInt currPageId)) t
  write page q
  unpinPage (← getPageId page)
  unpinPage (← getPageId page)
  return rid

/-- `InsertTuple`, with the id that `NewPage` gives where it is called. -/
def insertTuple (row : List Field) (newPageId : PageId) : HeapM (Option RowId) := do
  let t ← Tuple.ofFields row
  let s ← get
  let (rid, page) ← insertLoop (TablePage.insertTuple · t) s.heap.bufferPool.allocated.length
    s.heap.firstPageId none
  match rid with
  | some rid => return some rid
  | none => insertInNewPage (← page) t newPageId

/-! ## What the code does to the heap -/

variable {insert : TablePage → TablePage × Option RowId} {n : ℕ} {pageId q : PageId}
  {page : Option (Pointer PageId)} {s s' : PooledHeap} {p : Pointer PageId}
  {α β : Type} {m : HeapM α} {f : α → HeapM β} {a : α}

/-- The code goes on from what the first statement leaves. -/
theorem bind_some (a : α) (s' : PooledHeap) (h : m s = some (a, s')) : (m >>= f) s = f a s' := by
  show (m s).bind _ = _
  rw [h]
  rfl

theorem bind_none (h : m s = none) : (m >>= f) s = none := by
  show (m s).bind _ = _
  rw [h]
  rfl

/-- One more event. -/
def and (s : PooledHeap) (e : Event PageId) : PooledHeap := { s with log := s.log ++ [e] }

theorem fetchPage_some {x : TablePage} (h : s.heap.bufferPool.fetchPage q = some x) :
    fetchPage q s = some (⟨q, s.log.length + 1⟩, s.and (.fetch q)) := by
  refine (bind_some s s rfl).trans ?_
  refine (bind_some x s ?_).trans rfl
  rw [h]
  rfl

theorem fetchPage_none (h : s.heap.bufferPool.fetchPage q = none) : fetchPage q s = none := by
  refine (bind_some s s rfl).trans ?_
  refine bind_none ?_
  rw [h]
  rfl

theorem deref_some {x : TablePage} (h : s.heap.bufferPool.fetchPage p.page = some x) :
    deref p s = some (x, s.and (.use p)) := by
  refine (bind_some ⟨⟩ (s.and (.use p)) rfl).trans ?_
  refine (bind_some (s.and (.use p)) (s.and (.use p)) rfl).trans ?_
  show (liftM (s.heap.bufferPool.fetchPage p.page) : HeapM _) _ = _
  rw [h]
  rfl

theorem deref_none (h : s.heap.bufferPool.fetchPage p.page = none) : deref p s = none := by
  refine (bind_some ⟨⟩ (s.and (.use p)) rfl).trans ?_
  refine (bind_some (s.and (.use p)) (s.and (.use p)) rfl).trans ?_
  show (liftM (s.heap.bufferPool.fetchPage p.page) : HeapM _) _ = _
  rw [h]
  rfl

theorem newPage_some {pool : PageStore} (h : s.heap.bufferPool.newPage q = some pool) :
    newPage q s = some (⟨⟩, ⟨{ s.heap with bufferPool := pool }, s.log ++ [.new q]⟩) := by
  refine (bind_some s s rfl).trans ?_
  refine (bind_some pool s ?_).trans rfl
  rw [h]
  rfl

theorem newPage_none (h : s.heap.bufferPool.newPage q = none) : newPage q s = none := by
  refine (bind_some s s rfl).trans ?_
  refine bind_none ?_
  rw [h]
  rfl

/-- **One round** of the loop. -/
theorem insertLoop_succ (hne : pageId ≠ invalidPageId) :
    insertLoop insert (n + 1) pageId page s =
      (s.heap.bufferPool.fetchPage pageId).bind (fun q =>
        let p : Pointer PageId := ⟨pageId, s.log.length + 1⟩
        match insert q with
        | (q', some rid) => some ((some rid, some p),
            { heap := { s.heap with bufferPool := s.heap.bufferPool.writePage pageId q' }
              log := s.log ++ [.fetch pageId] ++ [.use p] ++ [.use p] ++ [.unpin pageId] })
        | (_, none) => insertLoop insert n (TablePage.getNextPageId q) (some p)
            (((((s.and (.fetch pageId)).and (.use p)).and (.use p)).and (.use p)).and
              (.unpin pageId))) := by
  conv_lhs => unfold insertLoop
  rw [if_neg hne]
  cases hq : s.heap.bufferPool.fetchPage pageId with
  | none => exact bind_none (fetchPage_none hq)
  | some q =>
    refine (bind_some _ _ (fetchPage_some hq)).trans ?_
    refine (bind_some _ _ (deref_some hq)).trans ?_
    show _ = (match insert q with | (q', some rid) => _ | (_, none) => _)
    rcases insert q with ⟨q', _ | rid⟩
    · refine (bind_some _ _ (deref_some hq)).trans ?_
      rfl
    · rfl

/-- The loop is over. -/
theorem insertLoop_invalid : insertLoop insert n invalidPageId page s = some ((none, page), s) := by
  cases n <;> rfl

/-- **The loop** does to the pages what it does without a buffer pool. -/
theorem forget_insertLoop (insert : TablePage → TablePage × Option RowId) (n : ℕ) (pageId : PageId)
    (page : Option (Pointer PageId)) (s : PooledHeap) : (insertLoop insert n pageId page s).map
      (fun r => (r.2.heap, r.1.1, r.1.2.map Pointer.page)) =
    (PagedHeap.insertLoop s.heap.bufferPool insert n pageId (page.map Pointer.page)).map
      (fun r => ({ s.heap with bufferPool := r.1 }, r.2)) := by
  induction n generalizing pageId page s with
  | zero =>
    by_cases hp : pageId = invalidPageId
    · rw [hp, insertLoop_invalid]
      rfl
    · unfold insertLoop PagedHeap.insertLoop
      rw [if_neg hp, if_neg hp]
      rfl
  | succ n ih =>
    by_cases hp : pageId = invalidPageId
    · rw [hp, insertLoop_invalid]
      rfl
    · rw [insertLoop_succ hp]
      unfold PagedHeap.insertLoop
      rw [if_neg hp]
      cases hq : s.heap.bufferPool.fetchPage pageId with
      | none => rfl
      | some q =>
        show Option.map _ (match insert q with | (q', some rid) => _ | (_, none) => _) =
          Option.map _ (match insert q with | (q', some rid) => _ | (_, none) => _)
        rcases insert q with ⟨q', _ | rid⟩
        · exact ih _ _ _
        · rfl

/-- **A new page** is linked and filled as without a buffer pool. -/
theorem forget_insertInNewPage {t : Tuple} {newPageId : PageId} :
    (insertInNewPage p t newPageId s).map (fun r => (r.2.heap, r.1)) = (do
      let pool ← s.heap.bufferPool.newPage newPageId
      let page ← pool.fetchPage p.page
      let pool := pool.writePage p.page (TablePage.setNextPageId page (Int32.ofInt newPageId))
      let page ← pool.fetchPage newPageId
      let (page, rid) := TablePage.insertTuple
        (TablePage.init page (Int32.ofInt newPageId) (Int32.ofInt p.page)) t
      some ({ s.heap with bufferPool := pool.writePage newPageId page }, rid)) := by
  unfold insertInNewPage
  cases hnew : s.heap.bufferPool.newPage newPageId with
  | none =>
    rw [bind_none (newPage_none hnew)]
    rfl
  | some pool =>
    rw [bind_some _ _ (newPage_some hnew), bind_some _ _ rfl]
    cases hlast : pool.fetchPage p.page with
    | none =>
      rw [bind_none (deref_none hlast)]
      exact (congrArg (fun o => Option.bind o _) hlast).symm
    | some last =>
      rw [bind_some _ _ (deref_some hlast), bind_some _ _ rfl, bind_some _ _ rfl]
      cases hfetch : (pool.writePage p.page
          (TablePage.setNextPageId last (Int32.ofInt newPageId))).fetchPage newPageId with
      | none =>
        rw [bind_none (fetchPage_none hfetch)]
        simp only [Option.bind_eq_bind, Option.bind_some, hlast, hfetch, Option.bind_none,
          Option.map_none]
      | some page =>
        rw [bind_some _ _ (fetchPage_some hfetch), bind_some _ _ (deref_some hfetch)]
        simp only [Option.bind_eq_bind, Option.bind_some, hlast, hfetch]
        rcases TablePage.insertTuple (TablePage.init page (Int32.ofInt newPageId)
          (Int32.ofInt p.page)) t with ⟨q, rid⟩
        rfl

/-- **`InsertTuple`** does to the heap what it does without a buffer pool. -/
theorem forget_insertTuple {row : List Field} {newPageId : PageId} :
    (insertTuple row newPageId s).map (fun r => (r.2.heap, r.1)) =
      s.heap.insertTuple row newPageId := by
  unfold insertTuple PagedHeap.insertTuple
  cases ht : Tuple.ofFields row with
  | none => rfl
  | some t =>
    have hloop := forget_insertLoop (TablePage.insertTuple · t) s.heap.bufferPool.allocated.length
      s.heap.firstPageId none s
    rw [Option.map_none] at hloop
    rw [bind_some t s rfl, bind_some s s rfl]
    simp only [Option.bind_eq_bind, Option.bind_some]
    cases hrun : insertLoop (TablePage.insertTuple · t) s.heap.bufferPool.allocated.length
      s.heap.firstPageId none s with
    | none =>
      rw [hrun] at hloop
      rw [bind_none hrun, Option.map_eq_none_iff.mp hloop.symm]
      rfl
    | some r =>
      obtain ⟨⟨rid, page⟩, s'⟩ := r
      rw [hrun] at hloop
      rw [bind_some _ _ hrun]
      obtain ⟨⟨pool, rid', page'⟩, hr, heq⟩ := Option.map_eq_some_iff.mp hloop.symm
      have hheap : s'.heap = { s.heap with bufferPool := pool } := (congrArg Prod.fst heq).symm
      have hrid : rid' = rid := congrArg (fun r => r.2.1) heq
      have hpage : page' = page.map Pointer.page := congrArg (fun r => r.2.2) heq
      rw [hr, hrid, hpage]
      cases rid with
      | some rid => exact congrArg (fun h => some (h, some rid)) hheap
      | none =>
        cases page with
        | none => rfl
        | some p =>
          refine Eq.trans (congrArg (Option.map _) (bind_some p s' rfl)) ?_
          refine forget_insertInNewPage.trans ?_
          simp only [Option.bind_eq_bind, hheap, Option.bind_some, Option.map_some]

/-! ## The uses of pointers -/

/-- While a page is looked at. -/
def Visits (p : Pointer PageId) (s : PooledHeap) : Prop :=
  Clean s.log ∧ Holds (one p.page) s.log ∧ Fresh s.log p

/-- Between two pages: nothing is pinned. -/
def Quiet (page : Option (Pointer PageId)) (s : PooledHeap) : Prop :=
  Clean s.log ∧ Holds 0 s.log ∧ ∀ p ∈ page, p.since ≤ s.log.length

theorem fetchPage_visits : Triple (Quiet page) (fetchPage q)
    (fun p s => p.page = q ∧ Visits p s) := by
  refine Triple.bind (Triple.read (Q := fun a s => s = a ∧ Quiet page s) (fun _ h => ⟨rfl, h⟩))
    (fun a => ?_)
  refine Triple.bind (Triple.lift (Q := fun _ s => s = a ∧ Quiet page s) (fun _ _ _ h => h))
    (fun x => ?_)
  refine Triple.bind (Triple.update (Q := fun _ => Visits ⟨q, a.log.length + 1⟩) ?_)
    (fun _ => Triple.ret (fun _ h => ⟨rfl, h⟩))
  rintro s ⟨rfl, hclean, hheld, -⟩
  refine ⟨hclean.fetch, ?_, fresh_fetch⟩
  exact (hheld.fetch (q := q)).mono (fun r => by rw [zero_add])

theorem use_visits : Keeps (Visits p) (emit (.use p)) :=
  Triple.update (fun _ h => ⟨h.1.use_fresh h.2.2, h.2.1.use, h.2.2.append not_false⟩)

theorem deref_visits : Keeps (Visits p) (deref p) := by
  refine Triple.bind use_visits (fun _ => ?_)
  refine Triple.bind (Triple.read (Q := fun _ => Visits p) (fun _ h => h)) (fun s => ?_)
  exact Triple.lift (fun _ _ _ h => h)

theorem getPageId_visits : Triple (Visits p) (getPageId p)
    (fun id s => id = p.page ∧ Visits p s) :=
  Triple.bind use_visits (fun _ => Triple.ret (fun _ h => ⟨rfl, h⟩))

/-- The page is given up. -/
theorem unpinPage_visits : Triple (Visits p) (unpinPage p.page) (fun _ => Quiet (some p)) := by
  refine Triple.update (fun s h => ⟨h.1.unpin, ?_, ?_⟩)
  · exact Holds.unpin (h.2.1.mono (fun r => by rw [zero_add]))
  · rintro _ ⟨⟩
    exact (h.2.2.append (e := .unpin p.page) not_false).1

/-- **The loop** gives up every page before it goes on. -/
theorem insertLoop_quiet : Triple (Quiet page) (insertLoop insert n pageId page)
    (fun r => Quiet r.2) := by
  induction n generalizing pageId page with
  | zero => exact Triple.ite (fun _ => Triple.ret (fun _ h => h)) (fun _ => Triple.stuck)
  | succ n ih =>
    refine Triple.ite (fun _ => Triple.ret (fun _ h => h)) (fun _ => ?_)
    refine Triple.andThen fetchPage_visits (fun p _ => ?_)
    refine Triple.bind deref_visits (fun x => ?_)
    rcases insert x with ⟨x', _ | rid⟩
    · refine Triple.bind deref_visits (fun x => ?_)
      refine Triple.andThen getPageId_visits (fun id hid => ?_)
      rw [hid]
      exact Triple.bind unpinPage_visits (fun _ => ih)
    · refine Triple.bind (Triple.update (Q := fun _ => Visits p) (fun _ h => h)) (fun _ => ?_)
      refine Triple.andThen getPageId_visits (fun id hid => ?_)
      rw [hid]
      exact Triple.bind unpinPage_visits (fun _ => Triple.ret (fun _ h => h))

/-! ## The link to a new page -/

/-- A use was not safe. -/
def Spoiled (s : PooledHeap) : Prop := ¬ UsesSafe s.log

theorem emit_spoiled {e : Event PageId} : Keeps Spoiled (emit e) :=
  Triple.update (fun _ h hs => h hs.of_append)

theorem deref_spoiled : Keeps Spoiled (deref p) := by
  refine Triple.bind emit_spoiled (fun _ => ?_)
  refine Triple.bind (Triple.read (Q := fun _ => Spoiled) (fun _ h => h)) (fun s => ?_)
  exact Triple.lift (fun _ _ _ h => h)

theorem getPageId_spoiled : Keeps Spoiled (getPageId p) :=
  Triple.bind emit_spoiled (fun _ => Triple.ret (fun _ h => h))

theorem fetchPage_spoiled : Keeps Spoiled (fetchPage q) := by
  refine Triple.bind (Triple.read (Q := fun _ => Spoiled) (fun _ h => h)) (fun s => ?_)
  refine Triple.bind (Triple.lift (Q := fun _ => Spoiled) (fun _ _ _ h => h)) (fun _ => ?_)
  exact Triple.bind emit_spoiled (fun _ => Triple.ret (fun _ h => h))

/-- **The last page is used unpinned**, after `NewPage` has asked for a frame. -/
theorem insertInNewPage_spoils {t : Tuple} {newPageId : PageId} :
    Triple (fun s => Quiet (some p) s ∧ p.page ∈ s.heap.bufferPool.allocated)
      (insertInNewPage p t newPageId) (fun _ => Spoiled) := by
  refine Triple.bind (Q := fun _ s => ∃ l, s.log = l ++ [.new newPageId] ∧ Holds 0 l ∧
    p.since ≤ l.length ∧ p.page ≠ newPageId) ?_ (fun _ => ?_)
  · rintro s u s' ⟨⟨-, hheld, hsince⟩, hmem⟩ hrun
    cases hnew : s.heap.bufferPool.newPage newPageId with
    | none =>
      rw [newPage_none hnew] at hrun
      cases hrun
    | some pool =>
      rw [newPage_some hnew] at hrun
      cases hrun
      refine ⟨s.log, rfl, hheld, hsince p rfl, ?_⟩
      rintro rfl
      exact (PageStore.newPage_eq_some hnew).1.1 hmem
  refine Triple.bind (Q := fun _ => Spoiled) ?_ (fun currPageId => ?_)
  · refine Triple.bind (Triple.update (Q := fun _ => Spoiled) ?_)
      (fun _ => Triple.ret (fun _ h => h))
    rintro s ⟨l, hl, hheld, hsince, hne⟩
    rw [Spoiled, hl]
    have hmem : Event.new newPageId ∈ (l ++ [Event.new newPageId]).drop p.since := by
      rw [List.drop_append_of_le_length hsince]
      exact List.mem_append_right _ (List.mem_singleton_self _)
    refine not_usesSafe_use (hsince.trans (by simp)) hmem trivial ?_
    · rw [pinCount_append, Event.pins, Function.update_of_ne hne]
      exact Nat.le_zero.mp (hheld p.page)
  refine Triple.bind deref_spoiled (fun x => ?_)
  refine Triple.bind (Triple.update (Q := fun _ => Spoiled) (fun _ h => h)) (fun _ => ?_)
  refine Triple.bind getPageId_spoiled (fun _ => ?_)
  refine Triple.bind fetchPage_spoiled (fun page => ?_)
  refine Triple.bind deref_spoiled (fun x => ?_)
  refine Triple.bind (Triple.update (Q := fun _ => Spoiled) (fun _ h => h)) (fun _ => ?_)
  refine Triple.bind getPageId_spoiled (fun _ => Triple.bind emit_spoiled (fun _ => ?_))
  refine Triple.bind getPageId_spoiled (fun _ => Triple.bind emit_spoiled (fun _ => ?_))
  exact Triple.ret (fun _ h => h)

/-! ## When the uses are safe -/

/-- What `InsertTuple` is made up of. -/
theorem insertTuple_cases {row : List Field} {newPageId : PageId} {rid : Option RowId}
    {s'' : PooledHeap} (h : insertTuple row newPageId s = some (rid, s'')) :
    ∃ t r s', Tuple.ofFields row = some t ∧
      insertLoop (TablePage.insertTuple · t) s.heap.bufferPool.allocated.length s.heap.firstPageId
        none s = some (r, s') ∧
      ((r.1 ≠ none ∧ s'' = s') ∨
        (r.1 = none ∧ ∃ p, r.2 = some p ∧ insertInNewPage p t newPageId s' = some (rid, s''))) := by
  obtain ⟨⟨t, s₁⟩, ht, h⟩ := Option.bind_eq_some_iff.mp h
  obtain ⟨t', ht', heq⟩ := Option.bind_eq_some_iff.mp ht
  cases heq
  obtain ⟨⟨⟨rid', page⟩, s'⟩, hloop, h⟩ := Option.bind_eq_some_iff.mp h
  refine ⟨t, _, s', ht', hloop, ?_⟩
  cases rid' with
  | some rid' =>
    cases h
    exact .inl ⟨nofun, rfl⟩
  | none =>
    obtain ⟨⟨p, s₁⟩, hp, h⟩ := Option.bind_eq_some_iff.mp h
    obtain ⟨p', hp', heq⟩ := Option.bind_eq_some_iff.mp hp
    cases heq
    exact .inr ⟨rfl, p, hp', h⟩

/-- **The uses are safe** if and only if a page of the chain has room for the
row. -/
theorem usesSafe_iff_hasRoom {h : PagedHeap} {ids : List PageId} (hchain : h.IsChain ids)
    {row : List Field} {newPageId : PageId} {rid : Option RowId}
    (hrun : insertTuple row newPageId ⟨h, []⟩ = some (rid, s')) :
    (UsesSafe s'.log ∧ UsesFind s'.log) ↔ h.HasRoom row ids := by
  obtain ⟨hnodup, hin, hlinked⟩ := hchain
  obtain ⟨t, r, s₁, ht, hloop, hcases⟩ := insertTuple_cases hrun
  have hquiet : Quiet r.2 s₁ :=
    insertLoop_quiet _ _ _ (⟨Clean.nil, Holds.nil, nofun⟩ : Quiet none ⟨h, []⟩) hloop
  have hforget := forget_insertLoop (TablePage.insertTuple · t) h.bufferPool.allocated.length
    h.firstPageId none ⟨h, []⟩
  rw [hloop, Option.map_none] at hforget
  have hlength : ids.length ≤ h.bufferPool.allocated.length :=
    (hnodup.subperm (fun id hid => (hin id hid).1)).length_le
  rcases @PagedHeap.insertLoop_spec _ _ _ (TablePage.insertTuple · t) _ hlinked hin _
    hlength none with ⟨id, hid, q, rid', hins, hspec⟩ | ⟨hfull, hspec⟩
  · -- A page takes the row, and the loop has ended there.
    refine iff_of_true ?_ ⟨t, ht, id, hid, by rw [hins]; exact nofun⟩
    rw [hspec] at hforget
    have hr : r.1 = some rid' := congrArg (fun x => x.2.1) (Option.some.inj hforget)
    rcases hcases with ⟨-, rfl⟩ | ⟨hnone, -⟩
    · exact ⟨hquiet.1.safe, hquiet.1.usesFind⟩
    · rw [hr] at hnone
      exact absurd hnone nofun
  · -- No page does, and the last one is linked to a new one.
    have hno : ¬ h.HasRoom row ids := by
      rintro ⟨t', ht', id, hid, hne⟩
      cases ht.symm.trans ht'
      obtain ⟨q, hq⟩ := hfull id hid
      rw [hq] at hne
      exact hne rfl
    refine iff_of_false (fun hsafe => ?_) hno
    rw [hspec] at hforget
    have hforget := Option.some.inj hforget
    have hr : r.1 = none := congrArg (fun x => x.2.1) hforget
    have hpage : r.2.map Pointer.page = ids.getLast?.or none := congrArg (fun x => x.2.2) hforget
    have hheap : s₁.heap = { h with bufferPool := h.bufferPool } := congrArg (fun x => x.1) hforget
    rcases hcases with ⟨hsome, -⟩ | ⟨-, p, hp, hnew⟩
    · exact hsome hr
    · rw [hp] at hpage hquiet
      rw [Option.or_none] at hpage
      have hmem : p.page ∈ s₁.heap.bufferPool.allocated := by
        rw [hheap]
        exact (hin _ (List.mem_of_getLast? hpage.symm)).1
      exact insertInNewPage_spoils _ _ _ ⟨hquiet, hmem⟩ hnew hsafe.1

end PooledHeap

end MiniSql
