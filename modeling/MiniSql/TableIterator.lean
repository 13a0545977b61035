import MiniSql.PagedHeapInsert

/-!
# The table iterator

`TableIterator` of `storage/table_iterator.cpp` with `Begin` and `End` of the
table heap. An iterator is compared by its row id only, and `End` is the one
with `INVALID_ROWID`.

`operator++` goes on through the pages of the chain until it meets a live
tuple; `Begin` looks at the first page only. So a scan visits all live tuples
(`PagedHeap.YieldsLive`), unless the first page has none while another page
has one: then `Begin` is `End` (`PagedHeap.yieldsLive_iff_startsLive`).
-/

namespace MiniSql

/-- `TableIterator`: the row that it is on. -/
structure TableIterator where
  /-- `row_->rid_` -/
  rid : RowId
  /-- `row_->fields_` -/
  fields : List Field

namespace PagedHeap

open TablePage

/-! ## The iterator -/

/-- `GetTuple` into the row of an iterator, which keeps its fields where there
is no live tuple. -/
def readInto (h : PagedHeap) (page : TablePage) (rid : RowId) (fields : List Field) :
    Option TableIterator :=
  (getRow page h.schema rid).map (fun row => ⟨rid, row.getD fields⟩)

/-- `Begin`. -/
def begin (h : PagedHeap) : Option TableIterator := do
  let page ← h.bufferPool.fetchPage h.firstPageId
  let rid := (getFirstTupleRid page).1
  if rid = invalidRowId then some ⟨rid, []⟩ else h.readInto page rid []

/-- `End`. -/
def endOf : TableIterator := ⟨invalidRowId, []⟩

/-- The loop of `operator++`, for at most the given number of rounds: the page
at its end and the row id that has been found last. -/
def nextLoop (p : PageStore) : ℕ → TablePage → RowId → Option (TablePage × RowId)
  | 0, _, _ => none
  | n + 1, page, rid =>
    if getNextPageId page = invalidPageId then some (page, rid)
    else
      match p.fetchPage (getNextPageId page) with
      | none => none
      | some page =>
        if (getFirstTupleRid page).2 then some (page, (getFirstTupleRid page).1)
        else nextLoop p n page (getFirstTupleRid page).1

/-- `operator++`. -/
def next (h : PagedHeap) (it : TableIterator) : Option TableIterator := do
  let page ← h.bufferPool.fetchPage it.rid.pageId
  let (rid, found) ← getNextTupleRid page it.rid
  let (page, rid) ←
    if found then some (page, rid)
    else nextLoop h.bufferPool h.bufferPool.allocated.length page rid
  if rid = invalidRowId then some ⟨rid, it.fields⟩ else h.readInto page rid it.fields

/-- The loop over the rows from an iterator on, for at most the given number
of rounds. -/
def scanFrom (h : PagedHeap) : ℕ → TableIterator → Option (List TableIterator)
  | 0, _ => none
  | rounds + 1, it =>
    if it.rid = endOf.rid then some []
    else (h.next it).bind (fun it' => (h.scanFrom rounds it').map (it :: ·))

/-- `for (it = Begin(); it != End(); ++it)`. -/
def scan (h : PagedHeap) (rounds : ℕ) : Option (List TableIterator) :=
  h.begin.bind (h.scanFrom rounds)

/-! ## What a scan is for -/

/-- The row ids of the live tuples, by page and then by slot. -/
def liveRids (h : PagedHeap) (ids : List PageId) : List RowId :=
  ids.flatMap (fun id =>
    ((List.range (getTupleCount (h.bufferPool.data id))).map (RowId.mk id)).filter
      (fun rid => (h.tupleAt rid).isLive))

/-- **The scan is complete**: it stops, and has then visited every live tuple
once, in the order of the chain, with the fields that `GetTuple` gives. -/
def YieldsLive (h : PagedHeap) : Prop :=
  ∃ ids rounds visited, h.IsChain ids ∧ h.scan rounds = some visited ∧
    visited.map TableIterator.rid = h.liveRids ids ∧
    ∀ it ∈ visited, h.getTuple it.rid = some (some it.fields)

/-- The first page has a live tuple, unless there is none at all. -/
def StartsLive (h : PagedHeap) : Prop :=
  (∃ i, (h.tupleAt ⟨h.firstPageId, i⟩).isLive = true) ∨ ∀ rid, (h.tupleAt rid).isLive = false

/-- The bytes of every live tuple are those of a row of the schema. -/
def Readable (h : PagedHeap) : Prop :=
  ∀ rid bytes, h.tupleAt rid = .live bytes → ∃ fields, readRow h.schema bytes = some fields

/-! ## The live slots of a page -/

/-- What comes after a number that a condition selects from a range. -/
theorem filter_range'_eq {p : ℕ → Bool} {a b : List ℕ} {i n start : ℕ}
    (h : (List.range' start n).filter p = a ++ i :: b) :
    i < start + n ∧ b = (List.range' (i + 1) (start + n - (i + 1))).filter p := by
  induction n generalizing start a with
  | zero => exact absurd h.symm (List.append_ne_nil_of_right_ne_nil a (List.cons_ne_nil i b))
  | succ n ih =>
    rw [List.range'_succ] at h
    have hend : start + 1 + n = start + (n + 1) := by omega
    by_cases hp : p start = true
    · rw [List.filter_cons_of_pos hp] at h
      cases a with
      | nil =>
        obtain ⟨rfl, rfl⟩ := List.cons.inj h
        have hlen : start + (n + 1) - (start + 1) = n := by omega
        rw [hlen]
        exact ⟨by omega, rfl⟩
      | cons x a =>
        rw [← hend]
        exact ih (List.cons.inj h).2
    · rw [List.filter_cons_of_neg hp] at h
      rw [← hend]
      exact ih h

/-- The live slots from a given one on. -/
def liveFrom (s : List (Slot Tuple)) (start : ℕ) : List ℕ :=
  (List.range' start (s.length - start)).filter (fun i => ((s[i]?).getD .free).isLive)

variable {P : Tuple → Prop} {h : PagedHeap} {ids : List PageId}
  {slots : PageId → List (Slot Tuple)} {id : PageId} {page : TablePage} {s : List (Slot Tuple)}

theorem liveSlotFrom_eq (hrep : Represents id page s) (start : ℕ) :
    page.liveSlotFrom start = (liveFrom s start).head? := by
  unfold liveSlotFrom liveFrom
  rw [hrep.count, ← List.head?_filter]
  congr 1
  refine List.filter_congr (fun i hi => ?_)
  have hlt : i < s.length := by
    rw [List.mem_range'_1] at hi
    omega
  rw [Bool.eq_iff_iff, Bool.not_eq_true', hrep.isDeleted_getTupleSize hlt, Slot.isLive_iff,
    List.getElem?_eq_getElem hlt]
  exact exists_congr (fun t => by rw [Option.getD_some, Option.some_inj])

/-- The row ids of the live slots of a page. -/
def pageRids (slots : PageId → List (Slot Tuple)) (id : PageId) : List RowId :=
  (liveFrom (slots id) 0).map (RowId.mk id)

theorem getFirstTupleRid_eq (hrep : Represents id page (slots id)) :
    page.getFirstTupleRid =
      (((pageRids slots id).head?).getD invalidRowId, (pageRids slots id).head?.isSome) := by
  rw [getFirstTupleRid, liveSlotFrom_eq hrep, pageRids, List.head?_map]
  cases (liveFrom (slots id) 0).head? with
  | none => rfl
  | some i =>
    show (RowId.mk page.getTablePageId i, true) = (RowId.mk id i, true)
    rw [hrep.pageId]

/-- The live tuples of the heap are in the live slots of its pages. -/
theorem Laid.liveRids_eq (hl : Laid P h ids slots) :
    h.liveRids ids = ids.flatMap (pageRids slots) := by
  unfold liveRids
  refine List.flatMap_congr (fun id hid => ?_)
  rw [List.filter_map, (hl.pages id hid).count, pageRids, liveFrom, Nat.sub_zero,
    List.range_eq_range']
  refine congrArg (List.map _) (List.filter_congr (fun i _ => ?_))
  show (h.tupleAt ⟨id, i⟩).isLive = _
  rw [hl.tupleAt_eq, if_pos hid, Slot.isLive_map]

/-! ## One step -/

/-- Where an element of a concatenation is. -/
theorem flatMap_eq_append {α β : Type} {f : α → List β} {l : List α} {A B : List β} {r : β}
    (h : l.flatMap f = A ++ r :: B) : ∃ pre x rest a b, l = pre ++ x :: rest ∧
      f x = a ++ r :: b ∧ B = b ++ rest.flatMap f := by
  induction l generalizing A with
  | nil => exact absurd h.symm (List.append_ne_nil_of_right_ne_nil A (List.cons_ne_nil r B))
  | cons x l ih =>
    rw [List.flatMap_cons] at h
    rcases List.append_eq_append_iff.mp h with ⟨A', -, hrest⟩ | ⟨c, hx, hrest⟩
    · obtain ⟨pre, y, rest, a, b, rfl, hy, hB⟩ := ih hrest
      exact ⟨x :: pre, y, rest, a, b, rfl, hy, hB⟩
    · cases c with
      | nil =>
        obtain ⟨pre, y, rest, a, b, rfl, hy, hB⟩ := @ih [] hrest.symm
        exact ⟨x :: pre, y, rest, a, b, rfl, hy, hB⟩
      | cons r' b =>
        obtain ⟨rfl, rfl⟩ := List.cons.inj hrest
        exact ⟨[], x, l, A, b, rfl, hx, rfl⟩

/-- The links from a page of the chain on. -/
theorem Linked.rest {p : PageStore} {pre rest : List PageId} {prev cur : PageId}
    (hl : Linked p prev cur (pre ++ id :: rest)) :
    Linked p id (getNextPageId (p.data id)) rest := by
  induction pre generalizing prev cur with
  | nil => exact hl.2.2
  | cons q pre ih => exact ih hl.2.2

/-- The loop of `operator++` ends on the next live tuple, if there is one on a
page behind. -/
theorem Laid.nextLoop_eq (hl : Laid P h ids slots) {rest : List PageId}
    (hrest : ∀ q ∈ rest, q ∈ ids)
    (hlinked : Linked h.bufferPool id (getNextPageId page) rest) {n : ℕ} (hn : rest.length < n) :
    ∃ page', nextLoop h.bufferPool n page invalidRowId =
        some (page', ((rest.flatMap (pageRids slots)).head?).getD invalidRowId) ∧
      ∀ r ∈ (rest.flatMap (pageRids slots)).head?,
        h.bufferPool.fetchPage r.pageId = some page' := by
  induction rest generalizing page id n with
  | nil =>
    obtain ⟨n, rfl⟩ : ∃ m, n = m + 1 := ⟨n - 1, by omega⟩
    have hnext : getNextPageId page = invalidPageId := hlinked
    exact ⟨page, if_pos hnext, nofun⟩
  | cons q rest ih =>
    obtain ⟨n, rfl⟩ : ∃ m, n = m + 1 := ⟨n - 1, by omega⟩
    obtain ⟨hnext, -, hlinked⟩ := hlinked
    have hq : q ∈ ids := hrest q List.mem_cons_self
    have hfirst := getFirstTupleRid_eq (hl.pages q hq)
    unfold nextLoop
    rw [hnext, if_neg (hl.ne_invalid hq), hl.fetchPage hq]
    simp only [hfirst, List.flatMap_cons, List.head?_append]
    cases hhead : (pageRids slots q).head? with
    | none =>
      simp only [Option.isSome_none, Bool.false_eq_true, if_false, Option.getD_none,
        Option.none_or]
      exact ih (fun x hx => hrest x (List.mem_cons_of_mem q hx)) hlinked
        (Nat.lt_of_succ_lt_succ hn)
    | some r =>
      simp only [Option.isSome_some, if_true, Option.getD_some, Option.some_or]
      refine ⟨_, rfl, fun r' hr' => ?_⟩
      obtain rfl : r = r' := Option.some.inj hr'
      obtain ⟨i, -, rfl⟩ := List.mem_map.mp (List.mem_of_mem_head? hhead)
      exact hl.fetchPage hq

/-- **One step of the iterator** leads from a live tuple to the next one. -/
theorem Laid.next_eq (hl : Laid P h ids slots) {A B : List RowId} {r : RowId}
    (hsplit : ids.flatMap (pageRids slots) = A ++ r :: B) (fields : List Field) :
    h.next ⟨r, fields⟩ = match B.head? with
      | none => some ⟨invalidRowId, fields⟩
      | some r' => (h.getTuple r').map (fun row => ⟨r', row.getD fields⟩) := by
  obtain ⟨pre, id, rest, a, b, rfl, hid, rfl⟩ := flatMap_eq_append hsplit
  obtain ⟨a', c, hlive, -, hc⟩ := List.map_eq_append_iff.mp hid
  obtain ⟨i, b', rfl, rfl, rfl⟩ := List.map_eq_cons_iff.mp hc
  have hmem : id ∈ pre ++ id :: rest := List.mem_append_right pre List.mem_cons_self
  have hrep := hl.pages id hmem
  -- The slots after the one of the row id.
  obtain ⟨hlt, hb⟩ := filter_range'_eq hlive
  rw [Nat.sub_zero, Nat.zero_add] at hlt hb
  obtain rfl : b' = liveFrom (slots id) (i + 1) := hb
  have hadd : add32 i 1 = i + 1 := by
    have hroom := hrep.room
    have htotal := hrep.total
    have hpage : pageSize = 4096 := rfl
    rw [add32]
    omega
  have hnext : getNextTupleRid (h.bufferPool.data id) ⟨id, i⟩ =
      some (ridOfSlot (h.bufferPool.data id) (liveFrom (slots id) (i + 1)).head?) := by
    rw [getNextTupleRid, hrep.pageId, if_pos rfl]
    show some (ridOfSlot _ (liveSlotFrom _ (add32 i 1))) = _
    rw [hadd, liveSlotFrom_eq hrep]
  have hread : ∀ r' page', h.bufferPool.fetchPage (RowId.pageId r') = some page' →
      r' ≠ invalidRowId ∧ h.readInto page' r' fields =
        (h.getTuple r').map (fun row => ⟨r', row.getD fields⟩) := fun r' page' hpage' => by
    have hin : r'.pageId ∈ pre ++ id :: rest := (hl.fetchPage_eq_some.mp hpage').1
    refine ⟨fun heq => hl.ne_invalid hin (by rw [heq]; rfl), ?_⟩
    rw [readInto, PagedHeap.getTuple, hpage']
    rfl
  unfold next
  simp only [Option.bind_eq_bind, hl.fetchPage hmem, Option.bind_some, hnext, List.head?_append,
    List.head?_map]
  cases hhead : (liveFrom (slots id) (i + 1)).head? with
  | some j =>
    obtain ⟨hne, hinto⟩ := hread ⟨id, j⟩ _ (hl.fetchPage hmem)
    simp only [ridOfSlot, hrep.pageId, if_true, if_neg hne, Option.map_some, Option.some_or]
    exact hinto
  | none =>
    obtain ⟨page', hloop, hfetch⟩ := hl.nextLoop_eq
      (fun q hq => List.mem_append_right pre (List.mem_cons_of_mem id hq)) hl.linked.rest
      (n := h.bufferPool.allocated.length) (by
        have hlen := hl.length_le
        rw [List.length_append, List.length_cons] at hlen
        omega)
    have hinvalid : (⟨invalidPageId, 0⟩ : RowId) = invalidRowId := rfl
    simp only [ridOfSlot, Bool.false_eq_true, if_false, hinvalid, hloop, Option.bind_some,
      Option.map_none, Option.none_or]
    cases hrest : (rest.flatMap (pageRids slots)).head? with
    | none => exact if_pos rfl
    | some r' =>
      obtain ⟨hne, hinto⟩ := hread r' page' (hfetch r' hrest)
      rw [Option.getD_some, if_neg hne]
      exact hinto

/-! ## The scan -/

theorem mem_pageRids {r : RowId} : r ∈ pageRids slots id ↔
    r.pageId = id ∧ (((slots id)[r.slotNum]?).getD .free).isLive = true := by
  constructor
  · intro hr
    obtain ⟨i, hi, rfl⟩ := List.mem_map.mp hr
    exact ⟨rfl, (List.mem_filter.mp hi).2⟩
  · rintro ⟨rfl, hlive⟩
    have hlt : r.slotNum < (slots r.pageId).length := by
      by_contra hge
      rw [List.getElem?_eq_none (Nat.le_of_not_lt hge)] at hlive
      cases hlive
    refine List.mem_map.mpr ⟨r.slotNum, List.mem_filter.mpr ⟨?_, hlive⟩, rfl⟩
    exact List.mem_range'_1.mpr ⟨Nat.zero_le _, by omega⟩

/-- The row ids of the list are those of the live tuples. -/
theorem Laid.mem_rids (hl : Laid P h ids slots) (r : RowId) :
    r ∈ ids.flatMap (pageRids slots) ↔ (h.tupleAt r).isLive = true := by
  rw [hl.tupleAt_eq, List.mem_flatMap]
  constructor
  · rintro ⟨id, hid, hr⟩
    obtain ⟨rfl, hlive⟩ := mem_pageRids.mp hr
    rw [if_pos hid, Slot.isLive_map]
    exact hlive
  · intro hlive
    by_cases hid : r.pageId ∈ ids
    · rw [if_pos hid, Slot.isLive_map] at hlive
      exact ⟨r.pageId, hid, mem_pageRids.mpr ⟨rfl, hlive⟩⟩
    · rw [if_neg hid] at hlive
      cases hlive

/-- `GetTuple` on a live tuple. -/
theorem Laid.live_of_mem (hl : Laid P h ids slots) {r : RowId}
    (hr : r ∈ ids.flatMap (pageRids slots)) :
    ∃ t : Tuple, h.tupleAt r = .live t.bytes ∧
      h.getTuple r = (readRow h.schema t.bytes).map some := by
  obtain ⟨id, hid, hr⟩ := List.mem_flatMap.mp hr
  obtain ⟨rfl, hlive⟩ := mem_pageRids.mp hr
  obtain ⟨t, ht⟩ := Slot.isLive_iff.mp hlive
  have hslot : (slots r.pageId)[r.slotNum]? = some (.live t) := by
    cases hget : (slots r.pageId)[r.slotNum]? with
    | none =>
      rw [hget] at ht
      cases ht
    | some x =>
      rw [hget] at ht
      exact congrArg some ht
  refine ⟨t, ?_, hl.getTuple_of_live hid hslot⟩
  rw [hl.tupleAt_eq, if_pos hid, ht]
  rfl

theorem Laid.ne_invalidRowId (hl : Laid P h ids slots) {r : RowId}
    (hr : r ∈ ids.flatMap (pageRids slots)) : r ≠ invalidRowId := by
  obtain ⟨id, hid, hr⟩ := List.mem_flatMap.mp hr
  obtain ⟨i, -, rfl⟩ := List.mem_map.mp hr
  exact fun heq => hl.ne_invalid hid (congrArg RowId.pageId heq)

theorem scanFrom_succ {r : RowId} (hr : r ≠ invalidRowId) (n : ℕ) (fields : List Field) :
    h.scanFrom (n + 1) ⟨r, fields⟩ =
      (h.next ⟨r, fields⟩).bind (fun it => (h.scanFrom n it).map (⟨r, fields⟩ :: ·)) :=
  if_neg hr

theorem scanFrom_invalid (n : ℕ) (fields : List Field) :
    h.scanFrom (n + 1) ⟨invalidRowId, fields⟩ = some [] :=
  if_pos rfl

/-- What a scan has visited from a live tuple on. -/
theorem Laid.scanFrom_spec (hl : Laid P h ids slots) {A B : List RowId} {r : RowId}
    {fields : List Field} {n : ℕ} {visited : List TableIterator}
    (hsplit : ids.flatMap (pageRids slots) = A ++ r :: B)
    (hscan : h.scanFrom n ⟨r, fields⟩ = some visited) :
    ∃ its, visited = ⟨r, fields⟩ :: its ∧ its.map TableIterator.rid = B ∧
      ∀ it ∈ its, h.getTuple it.rid = some (some it.fields) := by
  have hr : r ∈ ids.flatMap (pageRids slots) :=
    hsplit ▸ List.mem_append_right A List.mem_cons_self
  induction n generalizing A B r fields visited with
  | zero => cases hscan
  | succ n ih =>
    rw [scanFrom_succ (hl.ne_invalidRowId hr), hl.next_eq hsplit] at hscan
    obtain ⟨it', hnext, hscan⟩ := Option.bind_eq_some_iff.mp hscan
    obtain ⟨its, hits, rfl⟩ := Option.map_eq_some_iff.mp hscan
    refine ⟨its, rfl, ?_⟩
    cases B with
    | nil =>
      cases hnext
      cases n with
      | zero => cases hits
      | succ n =>
        rw [scanFrom_invalid] at hits
        cases hits
        exact ⟨rfl, fun _ hmem => absurd hmem List.not_mem_nil⟩
    | cons r' B =>
      have hsplit' : ids.flatMap (pageRids slots) = (A ++ [r]) ++ r' :: B := by
        rw [hsplit, List.append_assoc]
        rfl
      have hr' : r' ∈ ids.flatMap (pageRids slots) :=
        hsplit' ▸ List.mem_append_right _ List.mem_cons_self
      obtain ⟨t, -, hget⟩ := hl.live_of_mem hr'
      obtain ⟨row, hrow, rfl⟩ := Option.map_eq_some_iff.mp hnext
      obtain ⟨fields', hread, rfl⟩ := Option.map_eq_some_iff.mp (hget.symm.trans hrow)
      obtain ⟨its', rfl, hrids, hfields⟩ := ih hsplit' hits hr'
      refine ⟨congrArg (r' :: ·) hrids, List.forall_mem_cons.mpr ⟨?_, hfields⟩⟩
      exact hrow

/-- The scan stops, if all that is live can be read. -/
theorem Laid.exists_scanFrom (hl : Laid P h ids slots) {A B : List RowId} {r : RowId}
    (hsplit : ids.flatMap (pageRids slots) = A ++ r :: B)
    (hread : ∀ r' ∈ B, ∃ row, h.getTuple r' = some (some row)) (fields : List Field) :
    ∃ n visited, h.scanFrom n ⟨r, fields⟩ = some visited := by
  have hr : r ∈ ids.flatMap (pageRids slots) :=
    hsplit ▸ List.mem_append_right A List.mem_cons_self
  induction B generalizing A r fields with
  | nil =>
    refine ⟨2, [⟨r, fields⟩], ?_⟩
    rw [scanFrom_succ (hl.ne_invalidRowId hr), hl.next_eq hsplit]
    rfl
  | cons r' B ih =>
    have hsplit' : ids.flatMap (pageRids slots) = (A ++ [r]) ++ r' :: B := by
      rw [hsplit, List.append_assoc]
      rfl
    obtain ⟨row, hrow⟩ := hread r' List.mem_cons_self
    obtain ⟨n, visited, hn⟩ := ih hsplit' (fun q hq => hread q (List.mem_cons_of_mem r' hq)) row
      (hsplit' ▸ List.mem_append_right _ List.mem_cons_self)
    refine ⟨n + 1, ⟨r, fields⟩ :: visited, ?_⟩
    rw [scanFrom_succ (hl.ne_invalidRowId hr), hl.next_eq hsplit]
    show ((h.getTuple r').map _).bind _ = _
    rw [hrow]
    show (h.scanFrom n ⟨r', row⟩).map _ = _
    rw [hn]
    rfl

/-- There is only one chain. -/
theorem Linked.unique {p : PageStore} {prev cur : PageId} {ids' : List PageId}
    (hl : Linked p prev cur ids) (hl' : Linked p prev cur ids')
    (hids : ∀ q ∈ ids, q ≠ invalidPageId) (hids' : ∀ q ∈ ids', q ≠ invalidPageId) : ids = ids' := by
  induction ids generalizing prev cur ids' with
  | nil =>
    cases ids' with
    | nil => rfl
    | cons q ids' => exact absurd (hl'.1.symm.trans hl) (hids' q List.mem_cons_self)
  | cons q ids ih =>
    cases ids' with
    | nil => exact absurd (hl.1.symm.trans hl') (hids q List.mem_cons_self)
    | cons q' ids' =>
      obtain rfl : q = q' := hl.1.symm.trans hl'.1
      rw [ih hl.2.2 hl'.2.2 (fun x hx => hids x (List.mem_cons_of_mem q hx))
        (fun x hx => hids' x (List.mem_cons_of_mem q hx))]

/-- `Begin` is on the first live tuple of the first page, if there is one. -/
theorem Laid.begin_eq (hl : Laid P h ids slots) : h.begin =
    match (pageRids slots h.firstPageId).head? with
      | none => some ⟨invalidRowId, []⟩
      | some r => (h.getTuple r).map (fun row => ⟨r, row.getD []⟩) := by
  have hid : h.firstPageId ∈ ids := by
    obtain ⟨q, rest, rfl⟩ := List.exists_cons_of_ne_nil hl.ne_nil
    rw [hl.linked.1]
    exact List.mem_cons_self
  have hfirst := getFirstTupleRid_eq (hl.pages _ hid)
  unfold begin
  simp only [Option.bind_eq_bind, hl.fetchPage hid, Option.bind_some, hfirst]
  cases hhead : (pageRids slots h.firstPageId).head? with
  | none => exact if_pos rfl
  | some r =>
    obtain ⟨i, -, rfl⟩ := List.mem_map.mp (List.mem_of_mem_head? hhead)
    have hne : (⟨h.firstPageId, i⟩ : RowId) ≠ invalidRowId := fun heq =>
      hl.ne_invalid hid (congrArg RowId.pageId heq)
    rw [Option.getD_some, if_neg hne]
    show Option.map _ _ = Option.map _ (Option.bind _ _)
    rw [hl.fetchPage hid]
    rfl

/-- **When the scan is complete.** -/
theorem Laid.yields_iff (hl : Laid P h ids slots) :
    h.YieldsLive ↔ h.StartsLive ∧ h.Readable := by
  have hsplit : ids.flatMap (pageRids slots) =
      pageRids slots h.firstPageId ++ ids.tail.flatMap (pageRids slots) := by
    obtain ⟨q, rest, rfl⟩ := List.exists_cons_of_ne_nil hl.ne_nil
    rw [hl.linked.1]
    rfl
  constructor
  · rintro ⟨ids', n, visited, hchain, hscan, hrids, hfields⟩
    obtain rfl : ids = ids' := hl.linked.unique hchain.2.2 (fun q hq => hl.ne_invalid hq)
      (fun q hq => (hchain.2.1 q hq).2)
    rw [hl.liveRids_eq] at hrids
    refine ⟨?_, fun rid bytes hbytes => ?_⟩
    · cases hhead : (pageRids slots h.firstPageId).head? with
      | some r =>
        refine .inl ?_
        have hr := List.mem_of_mem_head? hhead
        obtain ⟨i, -, rfl⟩ := List.mem_map.mp hr
        exact ⟨i, (hl.mem_rids _).mp (hsplit ▸ List.mem_append_left _ hr)⟩
      | none =>
        -- `Begin` is `End`, so that nothing has been visited.
        refine .inr (fun rid => ?_)
        rw [scan, hl.begin_eq, hhead] at hscan
        cases n with
        | zero => cases hscan
        | succ n =>
          have hnil : visited = [] := (Option.some.inj hscan).symm
          rw [hnil] at hrids
          rw [← Bool.not_eq_true, ← hl.mem_rids, ← hrids]
          exact List.not_mem_nil
    · have hmem : rid ∈ visited.map TableIterator.rid := by
        rw [hrids, hl.mem_rids, hbytes]
        rfl
      obtain ⟨it, hit, rfl⟩ := List.mem_map.mp hmem
      obtain ⟨t, ht, hget⟩ := hl.live_of_mem (hrids ▸ hmem)
      rw [hbytes] at ht
      cases ht
      obtain ⟨fields, hread, -⟩ := Option.map_eq_some_iff.mp (hget.symm.trans (hfields it hit))
      exact ⟨fields, hread⟩
  · rintro ⟨hstart, hread⟩
    have hget : ∀ r ∈ ids.flatMap (pageRids slots), ∃ row, h.getTuple r = some (some row) := by
      intro r hr
      obtain ⟨t, ht, hget⟩ := hl.live_of_mem hr
      obtain ⟨row, hrow⟩ := hread r t.bytes ht
      exact ⟨row, hget.trans (by rw [hrow]; rfl)⟩
    cases hhead : pageRids slots h.firstPageId with
    | nil =>
      -- No live tuple on the first page, so there is none.
      have hnone : ids.flatMap (pageRids slots) = [] := by
        refine List.eq_nil_iff_forall_not_mem.mpr (fun r hr => ?_)
        rcases hstart with ⟨i, hi⟩ | hnone
        · have hi := (hl.mem_rids ⟨h.firstPageId, i⟩).mpr hi
          obtain ⟨id, -, hi⟩ := List.mem_flatMap.mp hi
          obtain ⟨rfl, -⟩ := mem_pageRids.mp hi
          rw [hhead] at hi
          exact absurd hi List.not_mem_nil
        · rw [hl.mem_rids, hnone r] at hr
          cases hr
      refine ⟨ids, 1, [], hl.isChain, ?_, ?_, fun _ hmem => absurd hmem List.not_mem_nil⟩
      · rw [scan, hl.begin_eq, hhead]
        rfl
      · rw [hl.liveRids_eq, hnone]
        rfl
    | cons r rest =>
      rw [hhead] at hsplit
      obtain ⟨row, hrow⟩ := hget r (hsplit ▸ List.mem_cons_self)
      obtain ⟨n, visited, hn⟩ := hl.exists_scanFrom (A := []) hsplit
        (fun q hq => hget q (hsplit ▸ List.mem_cons_of_mem r hq)) row
      obtain ⟨its, rfl, hrids, hfields⟩ := hl.scanFrom_spec (A := []) hsplit hn
      refine ⟨ids, n, ⟨r, row⟩ :: its, hl.isChain, ?_, ?_, List.forall_mem_cons.mpr ⟨hrow, hfields⟩⟩
      · rw [scan, hl.begin_eq, hhead]
        show ((h.getTuple r).map _).bind _ = _
        rw [hrow]
        exact hn
      · rw [hl.liveRids_eq, hsplit]
        exact congrArg (r :: ·) hrids

/-! ## Rows without `NULL` -/

/-- The row of a call, if it brings one, is a row of the schema without
`NULL`. -/
def Call.RowsOf (schema : Schema) : Call → Prop
  | .insertTuple row _ => RowOf schema row
  | .updateTuple row _ _ => RowOf schema row
  | _ => True

theorem Call.RowsOf.brings {schema : Schema} {c : Call} (hc : c.RowsOf schema) :
    c.Brings (fun t => ∃ fields, readRow schema t.bytes = some fields) := by
  cases c with
  | insertTuple row new | updateTuple row rid new =>
    exact fun t ht => ⟨row, readRow_bytes hc ht⟩
  | markDelete rid | applyDelete rid | rollbackDelete rid | getTuple rid => trivial

theorem Laid.readable
    (hl : Laid (fun t => ∃ fields, readRow h.schema t.bytes = some fields) h ids slots) :
    h.Readable := by
  intro rid bytes hbytes
  rw [hl.tupleAt_eq] at hbytes
  by_cases hid : rid.pageId ∈ ids
  · rw [if_pos hid] at hbytes
    cases hslot : (slots rid.pageId)[rid.slotNum]? with
    | none =>
      rw [hslot] at hbytes
      cases hbytes
    | some x =>
      have hx := hl.holds _ hid x (List.mem_of_getElem? hslot)
      rw [hslot] at hbytes
      cases x with
      | live t =>
        cases hbytes
        exact hx
      | free => cases hbytes
      | marked t => cases hbytes
  · rw [if_neg hid] at hbytes
    cases hbytes

/-- **When the scan of a heap is complete.** After every sequence of calls on a
new heap, exactly when the first page has a live tuple or no page has one, and
every live tuple can be read; where all rows are without `NULL`, it can. -/
theorem yieldsLive_iff_startsLive {schema : Schema} {h₀ : PagedHeap}
    (hcreate : create schema id = some h₀) {calls : List Call} {answers : List Answer}
    (hrun : Machine.run step h₀ calls = some (h, answers)) :
    (h.YieldsLive ↔ h.StartsLive ∧ h.Readable) ∧
      ((∀ c ∈ calls, c.RowsOf schema) → h.Readable) := by
  constructor
  · obtain ⟨-, ids, slots, hl⟩ := exists_laid_of_run hcreate (fun c _ => c.brings_true) hrun
    exact hl.yields_iff
  · intro hcalls
    obtain ⟨rfl, ids, slots, hl⟩ :=
      exists_laid_of_run hcreate (fun c hc => (hcalls c hc).brings) hrun
    exact hl.readable

/-- A table of one `CHAR(2040)` column. -/
def wideSchema : Schema := ⟨[⟨[97], .kTypeChar, 2040, 0, false, false, TypeId.char_supported⟩]⟩

/-- A row of it, of which a page has room for one. -/
def wideRow (c : UInt8) : List Field := [.chars (List.replicate 2040 c)]

/-- On two such rows, the second of them on another page: the scan visits
both. -/
theorem yieldsLive_iff_startsLive_wide : ∃ h₀ h answers, create wideSchema 0 = some h₀ ∧
    Machine.run step h₀ [.insertTuple (wideRow 97) 1, .insertTuple (wideRow 98) 1] =
      some (h, answers) ∧ h.YieldsLive := by
  have hruns : ((create wideSchema 0).bind (fun h₀ => (Machine.run step h₀
      [.insertTuple (wideRow 97) 1, .insertTuple (wideRow 98) 1]).map (fun r =>
        (h₀.firstPageId, r.1.firstPageId, (r.1.tupleAt ⟨r.1.firstPageId, 0⟩).isLive)))) =
      some (0, 0, true) := by decide +kernel
  obtain ⟨h₀, hcreate, hruns⟩ := Option.bind_eq_some_iff.mp hruns
  obtain ⟨⟨h, answers⟩, hrun, hlive⟩ := Option.map_eq_some_iff.mp hruns
  refine ⟨h₀, h, answers, hcreate, hrun, ?_⟩
  obtain ⟨hiff, hread⟩ := yieldsLive_iff_startsLive hcreate hrun
  refine hiff.mpr ⟨.inl ⟨0, (Prod.mk.inj (Prod.mk.inj hlive).2).2⟩, hread (fun c hc => ?_)⟩
  have hrow : ∀ b, RowOf wideSchema (wideRow b) := fun b =>
    ⟨List.Forall₂.cons ⟨rfl, nofun, fun data hdata => by
      cases hdata
      rw [List.length_replicate]
      decide⟩ List.Forall₂.nil, fun f hf => by
      rw [List.mem_singleton.mp hf]
      rfl⟩
  rcases List.mem_cons.mp hc with rfl | hc
  · exact hrow 97
  · rw [List.mem_singleton.mp hc]
    exact hrow 98

/-- With the first of them deleted, `Begin` is `End`, and the second is not
visited. -/
theorem not_yieldsLive_of_markDelete : ∃ h₀ h answers, create wideSchema 0 = some h₀ ∧
    Machine.run step h₀ [.insertTuple (wideRow 97) 1, .insertTuple (wideRow 98) 1,
      .markDelete ⟨0, 0⟩] = some (h, answers) ∧ ¬ h.YieldsLive := by
  have hruns : ((create wideSchema 0).bind (fun h₀ => (Machine.run step h₀
      [.insertTuple (wideRow 97) 1, .insertTuple (wideRow 98) 1, .markDelete ⟨0, 0⟩]).map (fun r =>
        (r.1.begin.map TableIterator.rid, (r.1.tupleAt ⟨1, 0⟩).isLive)))) =
      some (some invalidRowId, true) := by decide +kernel
  obtain ⟨h₀, hcreate, hruns⟩ := Option.bind_eq_some_iff.mp hruns
  obtain ⟨⟨h, answers⟩, hrun, hends⟩ := Option.map_eq_some_iff.mp hruns
  obtain ⟨hbegin, hlive⟩ := Prod.mk.inj hends
  obtain ⟨it, hit, hrid⟩ := Option.map_eq_some_iff.mp hbegin
  refine ⟨h₀, h, answers, hcreate, hrun, ?_⟩
  obtain ⟨-, ids, slots, hl⟩ := exists_laid_of_run hcreate (fun c _ => c.brings_true) hrun
  rintro ⟨ids', n, visited, hchain, hscan, hrids, -⟩
  obtain rfl : ids = ids' := hl.linked.unique hchain.2.2 (fun q hq => hl.ne_invalid hq)
    (fun q hq => (hchain.2.1 q hq).2)
  have hmem := (hl.mem_rids ⟨1, 0⟩).mpr hlive
  rw [← hl.liveRids_eq, ← hrids] at hmem
  rw [scan, hit] at hscan
  cases n with
  | zero => cases hscan
  | succ n =>
    have hend : h.scanFrom (n + 1) it = some [] := if_pos hrid
    rw [Option.bind_some, hend] at hscan
    cases hscan
    exact absurd hmem List.not_mem_nil

end PagedHeap

end MiniSql
