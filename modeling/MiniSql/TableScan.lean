import MiniSql.ExecuteEngine
import MiniSql.HeapOrder

/-!
# A scan of a table

The loops of the engine that go over a table take the rows that `Begin` and `operator++` give,
without a change of the table. Where the first page of the heap has a live row these are all
live rows, in the order of the pages and of the slots in them; where it has none, `Begin` is
`End` and they are none at all (`TableInfo.exists_scanned`).
-/

namespace MiniSql

/-- There is only one first place. -/
theorem PageIds.IsFirst.unique {ids : PageIds} {P : RowId → Prop} {r r' : Option RowId}
    (h : ids.IsFirst P r) (h' : ids.IsFirst P r') : r = r' := by
  cases r with
  | none =>
    cases r' with
    | none => rfl
    | some q => exact absurd h'.1 (h q)
  | some q =>
    cases r' with
    | none => exact absurd h.1 (h' q)
    | some q' =>
      rcases h.2 q' h'.1 with heq | hlt
      · rw [heq]
      · rcases h'.2 q h.1 with heq | hlt'
        · rw [heq]
        · exact absurd (hlt.trans hlt') PageIds.Before.irrefl

/-- More rounds do not change the positions of a loop that has come to its end. -/
theorem Loops.walk_mono {σ α : Type} {next : σ → α → Option α} {s : σ} {m n : ℕ} {pos : Option α}
    {xs : List α} (hmn : m ≤ n) (h : Loops.walk next m s pos = some xs) :
    Loops.walk next n s pos = some xs := by
  induction m generalizing n pos xs with
  | zero =>
    cases pos with
    | none => cases n <;> exact h
    | some x => cases h
  | succ m ih =>
    obtain ⟨k, rfl⟩ : ∃ k, n = k + 1 := ⟨n - 1, by omega⟩
    cases pos with
    | none => exact h
    | some x =>
      obtain ⟨ys, hys, rfl⟩ := Option.map_eq_some_iff.mp h
      rw [Loops.walk, ih (Nat.le_of_succ_le_succ hmn) hys]
      rfl

namespace TableHeap

variable {ids : PageIds} {h : TableHeap} {pre post : List (RowId × List Field)}
  {e : RowId × List Field}

/-- The first page has a live row, unless there is none at all. -/
def StartsLive (h : TableHeap) : Prop :=
  (∃ p ∈ h.pages.head?, ∃ row, Slot.live row ∈ p.slots) ∨ h.rows = []

/-- The rows are listed in the order of the chain. -/
theorem WellFormed.pairwise_rows (hwf : h.WellFormed ids) :
    h.rows.Pairwise (fun e e' => ids.Before e.1 e'.1) := by
  refine List.pairwise_flatMap.mpr ⟨fun p hp => ?_, ?_⟩
  · obtain ⟨i, hi⟩ := List.mem_iff_getElem?.mp hp
    have hindex : p.slots.zipIdx.Pairwise (fun s s' => s.2 < s'.2) := by
      refine List.pairwise_map.mp ?_
      rw [List.zipIdx_map_snd]
      exact List.pairwise_lt_range'
    refine List.pairwise_filterMap.mpr (hindex.imp (fun {s s'} hlt e he e' he' => ?_))
    cases hs : s.1 <;> rw [hs] at he <;> cases he
    cases hs' : s'.1 <;> rw [hs'] at he' <;> cases he'
    exact ⟨i, i, hwf i p hi, hwf i p hi, .inr ⟨rfl, hlt⟩⟩
  · refine List.pairwise_iff_getElem.mpr (fun i j hi hj hij e he e' he' => ?_)
    refine ⟨i, j, ?_, ?_, .inl hij⟩
    · exact (mem_rows_page.mp he).1.trans (hwf i _ (List.getElem?_eq_getElem hi))
    · exact (mem_rows_page.mp he').1.trans (hwf j _ (List.getElem?_eq_getElem hj))

/-- The first row of the rest of the list. -/
theorem isFirst_head? (hsorted : post.Pairwise (fun e e' => ids.Before e.1 e'.1)) :
    ids.IsFirst (fun q => q ∈ post.map Prod.fst) (post.head?.map Prod.fst) := by
  cases post with
  | nil => exact fun q hq => nomatch hq
  | cons e post =>
    refine ⟨List.mem_cons_self, fun q hq => ?_⟩
    rcases List.mem_cons.mp hq with rfl | hq
    · exact .inl rfl
    · obtain ⟨e', he', rfl⟩ := List.mem_map.mp hq
      exact .inr ((List.pairwise_cons.mp hsorted).1 e' he')

theorem WellFormed.live_ne_none_iff (hwf : h.WellFormed ids) {q : RowId} :
    h.live q ≠ none ↔ q ∈ h.rows.map Prod.fst := by
  rw [Option.ne_none_iff_exists', List.mem_map]
  constructor
  · rintro ⟨row, hrow⟩
    exact ⟨(q, row), (hwf.lists_rows.2 q row).mpr hrow, rfl⟩
  · rintro ⟨⟨q, row⟩, he, rfl⟩
    exact ⟨row, (hwf.lists_rows.2 q row).mp he⟩

/-- **`operator++`** goes from a row of the list to the one behind it. -/
theorem WellFormed.next_eq (hwf : h.WellFormed ids) (hrows : h.rows = pre ++ e :: post) :
    h.next e.1 = post.head?.map Prod.fst := by
  have hsorted := hwf.pairwise_rows
  rw [hrows, List.pairwise_append, List.pairwise_cons] at hsorted
  obtain ⟨-, ⟨hbehind, hpost⟩, hbefore⟩ := hsorted
  have hlive : h.live e.1 ≠ none := by
    rw [hwf.live_ne_none_iff, hrows]
    exact List.mem_map_of_mem (List.mem_append_right pre List.mem_cons_self)
  obtain ⟨i, hi, hid⟩ := hwf.exists_page hlive
  refine (hwf.isFirst_next hid hi).unique ((isFirst_head? hpost).congr (fun q => ?_))
  rw [hwf.live_ne_none_iff, hrows, List.map_append, List.mem_append, List.map_cons, List.mem_cons]
  constructor
  · rintro ⟨hq | rfl | hq, hlt⟩
    · obtain ⟨e', he', rfl⟩ := List.mem_map.mp hq
      exact absurd (hlt.trans (hbefore e' he' e List.mem_cons_self)) PageIds.Before.irrefl
    · exact absurd hlt PageIds.Before.irrefl
    · exact hq
  · intro hq
    obtain ⟨e', he', rfl⟩ := List.mem_map.mp hq
    exact ⟨.inr (.inr hq), hbehind e' he'⟩

/-- `Begin` finds no row exactly if the first page has none. -/
theorem begin_eq_none : h.begin = none ↔ ∀ p ∈ h.pages.head?, ∀ row, Slot.live row ∉ p.slots := by
  unfold begin
  rw [Option.bind_eq_none_iff]
  refine forall_congr' (fun p => imp_congr_right (fun _ => ?_))
  unfold firstTuple
  rw [Option.map_eq_none_iff, List.drop_zero, List.findIdx?_eq_none_iff]
  constructor
  · intro hall row hrow
    have hno := hall _ hrow
    cases hno
  · intro hall s hs
    cases s with
    | live row => exact absurd hs (hall row)
    | free => rfl
    | marked row => rfl

/-- **`Begin`** is the first row of the list exactly if the heap starts with a live row. -/
theorem WellFormed.startsLive_iff (hwf : h.WellFormed ids) :
    h.StartsLive ↔ h.begin = h.rows.head?.map Prod.fst := by
  have hfirst := isFirst_head? hwf.pairwise_rows
  have hsome : (∃ p ∈ h.pages.head?, ∃ row, Slot.live row ∈ p.slots) ↔ h.begin ≠ none := by
    rw [ne_eq, begin_eq_none]
    push Not
    rfl
  rw [StartsLive, hsome]
  cases hbegin : h.begin with
  | none =>
    rw [or_iff_right (fun hne => hne rfl), ← List.head?_eq_none_iff]
    exact Option.map_eq_none_iff.symm.trans eq_comm
  | some r =>
    refine iff_of_true (.inl (Option.some_ne_none r)) ?_
    exact (hwf.isFirst_begin hbegin).unique (hfirst.congr (fun q => hwf.live_ne_none_iff))

end TableHeap

namespace TableInfo

variable {t : TableInfo} {pre post rows : List (RowId × List Field)}

/-- The row at a place of the scan, as `GetTuple` reads it. -/
def rowAt (t : TableInfo) (rid : RowId) : Option (RowId × List Field) :=
  (t.heap.getTuple rid).bind (fun got => got.map (fun row => (rid, row)))

/-- **The rows of a scan**, for at most the given number of rounds. -/
def scanned (t : TableInfo) (rounds : ℕ) : Option (List (RowId × List Field)) :=
  (Loops.walk nextRow rounds t t.heap.begin).bind (fun rids => rids.mapM t.rowAt)

/-- From a row of the list on, a scan comes to all the rows behind it. -/
theorem walk_rows (hwf : t.heap.WellFormed t.ids) (hrows : t.heap.rows = pre ++ post) :
    Loops.walk nextRow post.length t (post.head?.map Prod.fst) = some (post.map Prod.fst) := by
  induction post generalizing pre with
  | nil => rfl
  | cons e post ih =>
    have hnext : t.nextRow e.1 = post.head?.map Prod.fst := hwf.next_eq hrows
    rw [List.length_cons, List.head?_cons, Option.map_some, Loops.walk, hnext,
      ih (hrows.trans (List.append_cons pre e post))]
    rfl

/-- **`GetTuple`** reads a live row. -/
theorem rowAt_eq (hwf : t.heap.WellFormed t.ids) {rid : RowId} {row : List Field}
    (hlive : t.heap.live rid = some row) : t.rowAt rid = some (rid, row) := by
  obtain ⟨p, hp, hs⟩ := TableHeap.exists_fetchPage hlive
  have hid : rid ≠ invalidRowId :=
    hwf.ne_invalid (List.mem_of_find?_eq_some hp) (TableHeap.pageId_of_fetchPage hp)
  rw [rowAt, TableHeap.getTuple, if_neg hid, hp, Option.map_some,
    TableHeap.getTuple_eq_some.mpr hs]
  rfl

/-- Every row of the list is read. -/
theorem mapM_rowAt (hwf : t.heap.WellFormed t.ids) (hrows : rows ⊆ t.heap.rows) :
    (rows.map Prod.fst).mapM t.rowAt = some rows := by
  induction rows with
  | nil => rfl
  | cons e rows ih =>
    obtain ⟨he, hrest⟩ := List.cons_subset.mp hrows
    rw [List.map_cons, List.mapM_cons, rowAt_eq hwf ((hwf.lists_rows.2 e.1 e.2).mp he), ih hrest]
    rfl

/-- **What a scan comes to**: all live rows, in the order of the chain, if the first page has
one of them, and else none. -/
theorem exists_scanned (hwf : t.heap.WellFormed t.ids) :
    (t.heap.StartsLive → t.scanned t.heap.rows.length = some t.heap.rows) ∧
      (¬ t.heap.StartsLive → t.scanned t.heap.rows.length = some []) := by
  rw [hwf.startsLive_iff]
  constructor
  · intro hbegin
    have hwalk := walk_rows hwf (List.nil_append t.heap.rows).symm
    rw [scanned, hbegin, hwalk]
    exact mapM_rowAt hwf (List.Subset.refl _)
  · intro hbegin
    have hnone : t.heap.begin = none := by
      by_contra hsome
      obtain ⟨r, hr⟩ := Option.ne_none_iff_exists'.mp hsome
      refine hbegin (hr.trans ?_)
      exact (hwf.isFirst_begin hr).unique ((TableHeap.isFirst_head? hwf.pairwise_rows).congr
        (fun q => hwf.live_ne_none_iff))
    rw [scanned, hnone]
    cases t.heap.rows.length <;> rfl

/-- More rounds do not change what a scan comes to. -/
theorem scanned_mono {m n : ℕ} (hmn : m ≤ n) (h : t.scanned m = some rows) :
    t.scanned n = some rows := by
  obtain ⟨rids, hrids, hread⟩ := Option.bind_eq_some_iff.mp h
  rw [scanned, Loops.walk_mono hmn hrids]
  exact hread

end TableInfo

end MiniSql
