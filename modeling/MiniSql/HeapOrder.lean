import MiniSql.TableHeap
import MiniSql.Relocation

/-!
# The rows of a heap and their order

`TableHeap.rows` lists the live rows of a heap, each once. A scan meets them
in the order of the pages in the chain and of the slots in a page
(`PageIds.Before`), which does not depend on the rows that there are: `begin`
is the first live row of the first page, and `next` is the first live row
behind a place, whether or not a row is left at that place.
-/

namespace MiniSql

/-- Does a place come before another one in the chain? -/
def PageIds.Before (ids : PageIds) (r r' : RowId) : Prop :=
  ∃ i j, r.pageId = ids.id i ∧ r'.pageId = ids.id j ∧ (i < j ∨ i = j ∧ r.slotNum < r'.slotNum)

namespace PageIds

variable {ids : PageIds} {r r' r'' : RowId}

/-- The order, for a page whose place in the chain is known. -/
theorem before_iff {i : ℕ} (hr : r.pageId = ids.id i) :
    ids.Before r r' ↔
      ∃ j, r'.pageId = ids.id j ∧ (i < j ∨ i = j ∧ r.slotNum < r'.slotNum) := by
  constructor
  · rintro ⟨i', j, hi', hj, hlt⟩
    rw [ids.injective i i' (hr.symm.trans hi')]
    exact ⟨j, hj, hlt⟩
  · rintro ⟨j, hj, hlt⟩
    exact ⟨i, j, hr, hj, hlt⟩

theorem Before.trans (h : ids.Before r r') (h' : ids.Before r' r'') : ids.Before r r'' := by
  obtain ⟨i, j, hi, hj, hlt⟩ := h
  obtain ⟨k, hk, hlt'⟩ := (before_iff hj).mp h'
  exact ⟨i, k, hi, hk, by omega⟩

theorem Before.irrefl : ¬ ids.Before r r := by
  rintro ⟨i, j, hi, hj, hlt⟩
  have hij := ids.injective i j (hi.symm.trans hj)
  omega

/-- The first place with a property, or none where no place has it. -/
def IsFirst (ids : PageIds) (P : RowId → Prop) : Option RowId → Prop
  | none => ∀ q, ¬ P q
  | some r => P r ∧ ∀ q, P q → q = r ∨ ids.Before r q

theorem IsFirst.congr {P Q : RowId → Prop} {r : Option RowId} (h : ids.IsFirst P r)
    (hiff : ∀ q, Q q ↔ P q) : ids.IsFirst Q r := by
  have heq : Q = P := funext (fun q => propext (hiff q))
  rwa [heq]

end PageIds

/-- The live rows of a page, with their row ids. -/
def HeapPage.rows (p : HeapPage) : List (RowId × List Field) :=
  p.slots.zipIdx.filterMap (fun s =>
    match s.1 with
    | .live row => some (⟨p.pageId, s.2⟩, row)
    | _ => none)

namespace TableHeap

/-- The live rows, with their row ids. -/
def rows (h : TableHeap) : List (RowId × List Field) := h.pages.flatMap HeapPage.rows

variable {ids : PageIds} {h : TableHeap} {p : HeapPage} {rid r : RowId} {row : List Field} {i : ℕ}

theorem mem_rows_page :
    (rid, row) ∈ p.rows ↔ rid.pageId = p.pageId ∧ p.slots[rid.slotNum]? = some (.live row) := by
  unfold HeapPage.rows
  rw [List.mem_filterMap]
  constructor
  · rintro ⟨⟨s, j⟩, hs, heq⟩
    rw [List.mk_mem_zipIdx_iff_getElem?] at hs
    cases s with
    | live row' =>
      cases heq
      exact ⟨rfl, hs⟩
    | free => cases heq
    | marked row' => cases heq
  · rintro ⟨hid, hs⟩
    refine ⟨(.live row, rid.slotNum), List.mk_mem_zipIdx_iff_getElem?.mpr hs, ?_⟩
    rw [← hid]

/-- The pages with the live rows in them. -/
theorem WellFormed.live_eq_some (hwf : h.WellFormed ids) :
    h.live rid = some row ↔ ∃ i p, h.pages[i]? = some p ∧ rid.pageId = ids.id i ∧
      p.slots[rid.slotNum]? = some (.live row) := by
  constructor
  · intro hlive
    obtain ⟨p, hp, hs⟩ := exists_fetchPage hlive
    obtain ⟨i, hi⟩ := List.mem_iff_getElem?.mp (List.mem_of_find?_eq_some hp)
    exact ⟨i, p, hi, (pageId_of_fetchPage hp).symm.trans (hwf i p hi), hs⟩
  · rintro ⟨i, p, hi, hid, hs⟩
    obtain ⟨hlt, hp⟩ := List.getElem?_eq_some_iff.mp hi
    have hsplit : h.pages = h.pages.take i ++ p :: h.pages.drop (i + 1) := by
      rw [← hp, ← List.drop_eq_getElem_cons hlt, List.take_append_drop]
    have hfetch := (hwf.at_place hsplit []).1
    rw [hwf i p hi, ← hid] at hfetch
    rw [live_eq hfetch]
    exact getTuple_eq_some.mpr hs

/-- **The live rows are listed**, each of them once. -/
theorem WellFormed.lists_rows (hwf : h.WellFormed ids) : Relocation.Lists h.live h.rows := by
  refine ⟨?_, fun rid row => ?_⟩
  · refine List.pairwise_map.mpr (List.pairwise_flatMap.mpr ⟨fun p _ => ?_, ?_⟩)
    · have hindex : p.slots.zipIdx.Pairwise (fun s s' => s.2 ≠ s'.2) := by
        refine List.pairwise_map.mp ?_
        rw [List.zipIdx_map_snd]
        exact List.nodup_range'
      refine List.pairwise_filterMap.mpr (hindex.imp (fun {s s'} hne e he e' he' hsame => ?_))
      refine hne ?_
      cases hs : s.1 <;> rw [hs] at he <;> cases he
      cases hs' : s'.1 <;> rw [hs'] at he' <;> cases he'
      exact congrArg RowId.slotNum hsame
    · refine (List.pairwise_map.mp hwf.nodup).imp (fun {p q} hne e he f hf hsame => hne ?_)
      rw [← (mem_rows_page.mp he).1, ← (mem_rows_page.mp hf).1, hsame]
  · rw [hwf.live_eq_some]
    unfold rows
    rw [List.mem_flatMap]
    constructor
    · rintro ⟨p, hp, hrow⟩
      obtain ⟨i, hi⟩ := List.mem_iff_getElem?.mp hp
      obtain ⟨hid, hs⟩ := mem_rows_page.mp hrow
      exact ⟨i, p, hi, hid.trans (hwf i p hi), hs⟩
    · rintro ⟨i, p, hi, hid, hs⟩
      exact ⟨p, List.mem_of_getElem? hi, mem_rows_page.mpr ⟨hid.trans (hwf i p hi).symm, hs⟩⟩

/-- A live row is in a page of the chain. -/
theorem WellFormed.exists_page (hwf : h.WellFormed ids) (hlive : h.live rid ≠ none) :
    ∃ i, i < h.pages.length ∧ rid.pageId = ids.id i := by
  obtain ⟨row, hrow⟩ := Option.ne_none_iff_exists'.mp hlive
  obtain ⟨i, p, hi, hid, -⟩ := hwf.live_eq_some.mp hrow
  exact ⟨i, (List.getElem?_eq_some_iff.mp hi).1, hid⟩

/-- A row in a page that is known. -/
theorem WellFormed.live_ne_none (hwf : h.WellFormed ids) (hp : h.pages[i]? = some p)
    (hid : rid.pageId = ids.id i) :
    h.live rid ≠ none ↔ ∃ row, p.slots[rid.slotNum]? = some (.live row) := by
  rw [Option.ne_none_iff_exists']
  refine exists_congr (fun row => hwf.live_eq_some.trans ⟨?_, fun hs => ⟨i, p, hp, hid, hs⟩⟩)
  rintro ⟨j, q, hq, hid', hs⟩
  rw [← ids.injective i j (hid.symm.trans hid'), hp] at hq
  cases hq
  exact hs

/-! ## The scan -/

/-- **`GetFirstTupleRid`** gives the first live row of the page, from a slot
on. -/
theorem WellFormed.isFirst_firstTuple (hwf : h.WellFormed ids) (hp : h.pages[i]? = some p)
    (start : ℕ) : ids.IsFirst (fun q => h.live q ≠ none ∧ q.pageId = ids.id i ∧ start ≤ q.slotNum)
      (firstTuple p start) := by
  have hslot : ∀ q : RowId, q.pageId = ids.id i → start ≤ q.slotNum → h.live q ≠ none →
      ∃ row, (p.slots.drop start)[q.slotNum - start]? = some (.live row) := by
    intro q hid hstart hlive
    obtain ⟨row, hs⟩ := (hwf.live_ne_none hp hid).mp hlive
    exact ⟨row, by rw [List.getElem?_drop, Nat.add_sub_cancel' hstart, hs]⟩
  unfold firstTuple
  cases hfind : (p.slots.drop start).findIdx? isLive with
  | none =>
    rintro q ⟨hlive, hid, hstart⟩
    obtain ⟨row, hs⟩ := hslot q hid hstart hlive
    have hno := List.findIdx?_eq_none_iff.mp hfind _ (List.mem_of_getElem? hs)
    cases hno
  | some k =>
    obtain ⟨hk, hyes, hbefore⟩ := List.findIdx?_eq_some_iff_getElem.mp hfind
    have hid : (⟨p.pageId, start + k⟩ : RowId).pageId = ids.id i := hwf i p hp
    have hlive : ∃ row, p.slots[start + k]? = some (.live row) := by
      rw [← List.getElem?_drop, List.getElem?_eq_getElem hk]
      cases hs : (p.slots.drop start)[k] with
      | live row => exact ⟨row, rfl⟩
      | free => rw [hs] at hyes; cases hyes
      | marked row => rw [hs] at hyes; cases hyes
    refine ⟨⟨(hwf.live_ne_none hp hid).mpr hlive, hid, Nat.le_add_right start k⟩, ?_⟩
    rintro q ⟨hq, hqid, hstart⟩
    have hle : k ≤ q.slotNum - start := by
      by_contra hlt
      obtain ⟨row, hs⟩ := hslot q hqid hstart hq
      obtain ⟨hlen, hget⟩ := List.getElem?_eq_some_iff.mp hs
      refine hbefore (q.slotNum - start) (not_le.mp hlt) ?_
      rw [hget]
      rfl
    rcases Nat.eq_or_lt_of_le hle with heq | hlt
    · have hslotNum : q.slotNum = start + k := by omega
      refine .inl ?_
      obtain ⟨pageId, slotNum⟩ := q
      exact congrArg₂ RowId.mk (hqid.trans hid.symm) hslotNum
    · refine .inr ⟨i, i, hid, hqid, .inr ⟨rfl, ?_⟩⟩
      show start + k < q.slotNum
      omega

/-- The first live row of the pages from one on. -/
theorem WellFormed.isFirst_findSome? (hwf : h.WellFormed ids) (pre : List HeapPage)
    {post : List HeapPage} (hpages : h.pages = pre ++ post) : ids.IsFirst
      (fun q => h.live q ≠ none ∧ ∃ j, q.pageId = ids.id j ∧ pre.length ≤ j)
      (post.findSome? (fun p => firstTuple p 0)) := by
  induction post generalizing pre with
  | nil =>
    rintro q ⟨hlive, j, hj, hle⟩
    obtain ⟨i, hi, hid⟩ := hwf.exists_page hlive
    rw [ids.injective i j (hid.symm.trans hj), hpages, List.append_nil] at hi
    exact absurd hle (not_le.mpr hi)
  | cons p post ih =>
    have hp : h.pages[pre.length]? = some p := by
      rw [hpages, List.getElem?_append_right le_rfl, Nat.sub_self]
      rfl
    have hfirst := hwf.isFirst_firstTuple hp 0
    have hlater := ih (pre ++ [p]) (by rw [hpages, List.append_assoc]; rfl)
    rw [List.length_append, List.length_singleton] at hlater
    rw [List.findSome?_cons]
    cases hfound : firstTuple p 0 with
    | none =>
      rw [hfound] at hfirst
      refine hlater.congr (fun q => and_congr_right (fun hlive => ?_))
      constructor
      · rintro ⟨j, hj, hle⟩
        rcases Nat.eq_or_lt_of_le hle with rfl | hlt
        · exact absurd ⟨hlive, hj, Nat.zero_le _⟩ (hfirst q)
        · exact ⟨j, hj, hlt⟩
      · rintro ⟨j, hj, hlt⟩
        exact ⟨j, hj, (Nat.le_succ _).trans hlt⟩
    | some r =>
      rw [hfound] at hfirst
      obtain ⟨⟨hlive, hid, -⟩, hrest⟩ := hfirst
      refine ⟨⟨hlive, pre.length, hid, le_rfl⟩, ?_⟩
      rintro q ⟨hq, j, hj, hle⟩
      rcases Nat.eq_or_lt_of_le hle with rfl | hlt
      · exact hrest q ⟨hq, hj, Nat.zero_le _⟩
      · exact .inr ⟨pre.length, j, hid, hj, .inl hlt⟩

/-- **`Begin`**, where it finds a row, finds the first one. -/
theorem WellFormed.isFirst_begin (hwf : h.WellFormed ids) (hbegin : h.begin = some r) :
    ids.IsFirst (fun q => h.live q ≠ none) (some r) := by
  unfold begin at hbegin
  obtain ⟨p, hp, hfirst⟩ := Option.bind_eq_some_iff.mp hbegin
  obtain ⟨post, hpages⟩ := List.head?_eq_some_iff.mp hp
  have hall := hwf.isFirst_findSome? [] hpages
  rw [List.findSome?_cons, hfirst] at hall
  refine hall.congr (fun q => (and_iff_left_of_imp (fun hlive => ?_)).symm)
  obtain ⟨i, -, hid⟩ := hwf.exists_page hlive
  exact ⟨i, hid, Nat.zero_le _⟩

/-- **`operator++`** goes to the first live row behind a place of the chain. -/
theorem WellFormed.isFirst_next (hwf : h.WellFormed ids) (hid : rid.pageId = ids.id i)
    (hi : i < h.pages.length) :
    ids.IsFirst (fun q => h.live q ≠ none ∧ ids.Before rid q) (h.next rid) := by
  have hsplit : h.pages = h.pages.take i ++ h.pages[i] :: h.pages.drop (i + 1) := by
    rw [← List.drop_eq_getElem_cons hi, List.take_append_drop]
  have hp := List.getElem?_eq_getElem hi
  have hpid : h.pages[i].pageId = rid.pageId := (hwf i _ hp).trans hid.symm
  have hbefore : ∀ q ∈ h.pages.take i, decide (q.pageId ≠ rid.pageId) = true := by
    intro q hq
    obtain ⟨j, hj, rfl⟩ := List.mem_take_iff_getElem.mp hq
    rw [lt_min_iff] at hj
    refine decide_eq_true (fun hc => absurd (ids.injective j i ?_) hj.1.ne)
    rw [← hwf j _ (List.getElem?_eq_getElem hj.2), hc, hid]
  have hdrop : h.pages.dropWhile (fun p => p.pageId ≠ rid.pageId) =
      h.pages[i] :: h.pages.drop (i + 1) := by
    conv_lhs => rw [hsplit]
    rw [List.dropWhile_append_of_pos hbefore, List.dropWhile_cons_of_neg]
    rw [decide_eq_true_eq, not_not]
    exact hpid
  have hrun : h.next rid = (firstTuple h.pages[i] (rid.slotNum + 1)).or
      ((h.pages.drop (i + 1)).findSome? (fun p => firstTuple p 0)) := by
    unfold next
    rw [hdrop]
  have hsame := hwf.isFirst_firstTuple hp (rid.slotNum + 1)
  have hlater := hwf.isFirst_findSome? (h.pages.take (i + 1)) (List.take_append_drop _ _).symm
  rw [List.length_take_of_le hi] at hlater
  rw [hrun]
  cases hfound : firstTuple h.pages[i] (rid.slotNum + 1) with
  | none =>
    rw [hfound] at hsame
    rw [Option.none_or]
    refine hlater.congr (fun q => and_congr_right (fun hlive => ?_))
    rw [PageIds.before_iff hid]
    refine exists_congr (fun j => and_congr_right (fun hj => ⟨?_, .inl⟩))
    rintro (hlt | ⟨rfl, hlt⟩)
    · exact hlt
    · exact absurd ⟨hlive, hj, hlt⟩ (hsame q)
  | some r =>
    rw [hfound] at hsame
    obtain ⟨⟨hlive, hrid, hslot⟩, hrest⟩ := hsame
    rw [Option.some_or]
    refine ⟨⟨hlive, i, i, hid, hrid, .inr ⟨rfl, hslot⟩⟩, ?_⟩
    rintro q ⟨hq, hlt⟩
    obtain ⟨j, hj, hlt | ⟨rfl, hlt⟩⟩ := (PageIds.before_iff hid).mp hlt
    · exact .inr ⟨i, j, hrid, hj, .inl hlt⟩
    · exact hrest q ⟨hq, hj, hlt⟩

end TableHeap

end MiniSql
