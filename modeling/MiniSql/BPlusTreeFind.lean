import MiniSql.BPlusTreeSearch

/-!
# Search is exact

A tree is *searchable* when its pages are those of a tree whose keys are in
order and separate the pages: every child of an inner page holds the keys from
its own key on and below the next one. Nothing is asked of parent ids, next
pages and sizes, and leaves may be empty.

In such a tree there is one leaf for every key, `FindLeafPage` ends at it, and
`GetValue` answers what the leaves hold (`Searchable.search_exact`). On the way there
are two binary searches, which are exact in every page.
-/

namespace MiniSql

variable {K V : Type} [LinearOrder K]

/-- `KeyIndex` answers the number of keys that are smaller. -/
theorem LeafPage.keyIndex_exact {p : LeafPage K V}
    (h : p.array.Pairwise (fun e f => e.1 < f.1)) (key : K) :
    p.keyIndex key ≤ p.size ∧ ∀ i e, p.array[i]? = some e → (i < p.keyIndex key ↔ e.1 < key) := by
  obtain ⟨A, B, harray, hA, hlt, hle⟩ := p.keyIndex_spec h key
  rw [← hA, size, harray, List.length_append]
  refine ⟨Nat.le_add_right _ _, fun i e he => ⟨fun hi => ?_, fun hkey => ?_⟩⟩
  · rw [List.getElem?_append_left hi] at he
    exact hlt e (List.mem_of_getElem? he)
  · by_contra hi
    rw [List.getElem?_append_right (not_lt.mp hi)] at he
    exact absurd hkey (not_lt.mpr (hle e (List.mem_of_getElem? he)))

/-- `Lookup` answers the child after the last key that is not greater, or the
first child. -/
theorem InternalPage.lookup_exact {p : InternalPage K} (hsize : 2 ≤ p.size)
    (h : p.array.tail.Pairwise (fun c d => c.1 < d.1)) (key : K) :
    ∃ i c, p.array[i]? = some c ∧ p.lookup key = some c.2 ∧
      ∀ j d, 1 ≤ j → p.array[j]? = some d → (d.1 ≤ key ↔ j ≤ i) := by
  have hne : p.array ≠ [] := List.ne_nil_of_length_pos (Nat.lt_of_lt_of_le Nat.two_pos hsize)
  obtain ⟨A, c, B, harray, hlookup, hA, hB⟩ := p.lookup_spec hne h key
  have hc : p.array[A.length]? = some c := by
    rw [harray, List.getElem?_append_right le_rfl, Nat.sub_self]
    rfl
  have hkeys : ∀ {i j c d}, 1 ≤ i → i < j → p.array[i]? = some c → p.array[j]? = some d →
      c.1 < d.1 := fun {i j c d} hi hij hc hd => by
    refine lt_of_pairwise h (i := i - 1) (j := j - 1) (by omega) ?_ ?_
    · rw [List.getElem?_tail, Nat.sub_add_cancel hi, hc]
    · rw [List.getElem?_tail, Nat.sub_add_cancel (hi.trans hij.le), hd]
  refine ⟨A.length, c, hc, hlookup, fun j d hj hd => ⟨fun hle => ?_, fun hle => ?_⟩⟩
  · by_contra hlt
    -- what comes after the child begins with a greater key
    have hd' : B[j - (A.length + 1)]? = some d := by
      rw [harray, List.getElem?_append_right (by omega),
        show j - A.length = j - (A.length + 1) + 1 by omega, List.getElem?_cons_succ] at hd
      exact hd
    obtain ⟨b, B, rfl⟩ := List.exists_cons_of_ne_nil (List.ne_nil_of_mem (List.mem_of_getElem? hd'))
    have hkb : key < b.1 := hB b rfl
    rcases Nat.eq_zero_or_pos (j - (A.length + 1)) with h0 | hpos
    · rw [h0] at hd'
      cases hd'
      exact absurd hle (not_le.mpr hkb)
    · have hb : p.array[A.length + 1]? = some b := by
        rw [harray, List.getElem?_append_right (by omega), Nat.add_sub_cancel_left]
        rfl
      exact absurd hle (not_le.mpr (hkb.trans (hkeys (by omega) (by omega) hb hd)))
  · have hck : c.1 ≤ key := hA (List.ne_nil_of_length_pos (hj.trans hle))
    rcases Nat.eq_or_lt_of_le hle with rfl | hlt
    · rw [hc] at hd
      cases hd
      exact hck
    · exact (hkeys hj hlt hd hc).le.trans hck

namespace BPlusTree

open KeyTree

variable {n : ℕ} {s : BPlusTree K V} {t : PageTree K V n} {lo : WithBot K} {hi : WithTop K}
  {key : K}

/-- **The way of a key**: there is one leaf only whose bounds a key is
within. -/
theorem routes_unique : {n : ℕ} → {t : PageTree K V n} → {l l' : Leaf PageId K V} →
    {lo : WithBot K} → {hi : WithTop K} → Separated t lo hi →
    Routes (fun lo hi => Within lo hi key) t l lo hi →
    Routes (fun lo hi => Within lo hi key) t l' lo hi → l = l'
  | 0, _, _, _, _, _, _, h, h' => h.1.symm.trans h'.1
  | n + 1, t, l, l', lo, hi, hsep, ⟨A, c, B, hcs, h⟩, ⟨A', c', B', hcs', h'⟩ => by
    have hkey := hsep.within_of_routes ⟨A, c, B, hcs, h⟩
    have hin : SeparatedIn Separated (Node.children t) lo hi := hsep
    have hin' := hin
    rw [hcs] at hin
    rw [hcs'] at hin'
    have hcut := (within_child hkey).mp (hin.focus.2.1.within_of_routes h)
    have hcut' := (within_child hkey).mp (hin'.focus.2.1.within_of_routes h')
    have heq : A ++ c :: B = A' ++ c' :: B' := hcs.symm.trans hcs'
    obtain ⟨rfl, rfl, rfl⟩ : A = A' ∧ c = c' ∧ B = B' := by
      rcases le_total A.length A'.length with hle | hle
      · exact InternalPage.eq_of_cut hin.sorted heq hcut.2 hcut'.1 hle
      · obtain ⟨hA, hc, hB⟩ := InternalPage.eq_of_cut hin'.sorted heq.symm hcut'.2 hcut.1 hle
        exact ⟨hA.symm, hc.symm, hB.symm⟩
    exact routes_unique hin.focus.2.1 h h'

/-- **A searchable tree** in the store. -/
structure Searchable (s : BPlusTree K V) (t : PageTree K V n) : Prop where
  root : t.id = s.rootPageId
  laid : Laid s.pages t
  nodup : t.ids.Nodup
  allocated : ∀ id ∈ t.ids, id ∈ s.allocated
  valid : s.rootPageId ≠ invalidPageId
  separated : Separated t ⊥ ⊤

/-- The loop of `FindLeafPage` takes fewer rounds than there are pages. -/
theorem Searchable.height_lt (h : Searchable s t) : n < s.allocated.length := by
  obtain ⟨l, hl⟩ := List.exists_mem_of_ne_nil _ h.separated.branches.leaves_ne_nil
  exact (height_lt_length_ids hl).trans_le (List.subperm_of_subset h.nodup h.allocated).length_le

/-- **`FindLeafPage`** ends at the one leaf whose bounds the key is within, which
has the entry of the key if the tree has one. -/
theorem Searchable.findLeafPage_eq (h : Searchable s t) (key : K) :
    ∃ l leaf, s.findLeafPage key false = some leaf ∧ s.pages l.id = some (.leaf leaf) ∧
      leaf.array = l.entries ∧ l ∈ t.leaves ∧
      (∀ l', Routes (fun lo hi => Within lo hi key) t l' ⊥ ⊤ ↔ l' = l) ∧
      ∀ v, (key, v) ∈ t.entries ↔ (key, v) ∈ l.entries := by
  obtain ⟨l, leaf, hrun, hpage, harray, hroutes, hmem⟩ := exists_leaf_of_separated h.laid
    h.separated ⟨bot_le, WithTop.coe_lt_top key⟩ h.height_lt
  refine ⟨l, leaf, ?_, hpage, harray, hroutes.mem_leaves, fun l' => ⟨fun h' => ?_, ?_⟩, hmem⟩
  · rw [findLeafPage, ← h.root, hrun]
  · exact routes_unique h.separated h' hroutes
  · rintro rfl
    exact hroutes

/-- **Search is exact.** `FindLeafPage` ends at the only leaf that can have the
key, and `GetValue` answers the value that a leaf has for it; the binary
searches in the pages answer the first entry that is not smaller and the last
key that is not greater. -/
theorem Searchable.search_exact (h : Searchable s t) (key : K) :
    (∃ l leaf, s.findLeafPage key false = some leaf ∧ s.pages l.id = some (.leaf leaf) ∧
      l ∈ t.leaves ∧ (∀ l', Routes (fun lo hi => Within lo hi key) t l' ⊥ ⊤ ↔ l' = l) ∧
      ∀ l' ∈ t.leaves, ∀ v, (key, v) ∈ l'.entries → l' = l) ∧
    (∃ found, s.getValue key = some found ∧
      ∀ v, found = some v ↔ ∃ l ∈ t.leaves, (key, v) ∈ l.entries) ∧
    (∀ p : LeafPage K V, p.array.Pairwise (fun e f => e.1 < f.1) →
      p.keyIndex key ≤ p.size ∧
        ∀ i e, p.array[i]? = some e → (i < p.keyIndex key ↔ e.1 < key)) ∧
    ∀ p : InternalPage K, 2 ≤ p.size → p.array.tail.Pairwise (fun c d => c.1 < d.1) →
      ∃ i c, p.array[i]? = some c ∧ p.lookup key = some c.2 ∧
        ∀ j d, 1 ≤ j → p.array[j]? = some d → (d.1 ≤ key ↔ j ≤ i) := by
  obtain ⟨l, leaf, hfind, hpage, harray, hl, hway, hmem⟩ := h.findLeafPage_eq key
  have honly : ∀ l' ∈ t.leaves, ∀ v, (key, v) ∈ l'.entries → l' = l := fun l' hl' v he =>
    (hway l').mp (h.separated.routes_of_mem hl' he)
  refine ⟨⟨l, leaf, hfind, hpage, hl, hway, honly⟩, ⟨leaf.lookup key, ?_, fun v => ?_⟩,
    fun p hp => p.keyIndex_exact hp key, fun p hsize hp => p.lookup_exact hsize hp key⟩
  · have hempty : s.isEmpty = false := decide_eq_false h.valid
    rw [getValue, hempty, if_neg Bool.false_ne_true, hfind]
    rfl
  · have hsorted : leaf.array.Pairwise (fun e f => e.1 < f.1) := by
      rw [harray]
      exact h.separated.sorted_of_mem_leaves hl
    rw [LeafPage.lookup_eq_some hsorted, harray]
    refine ⟨fun he => ⟨l, hl, he⟩, fun ⟨l', hl', he⟩ => ?_⟩
    rw [← honly l' hl' v he]
    exact he

/-- A page over two leaves, the second one with an entry at the key between
them. -/
def twoLeaves : PageTree ℕ ℕ 1 := node 2 [(0, leaf 3 [(1, 10)]), (5, leaf 4 [(5, 50)])]

/-- Its pages. -/
def twoLeavesPages : BPlusTree ℕ ℕ where
  rootPageId := 2
  pages id :=
    if id = 2 then some (.internal ⟨2, invalidPageId, 4, [(0, 3), (5, 4)]⟩)
    else if id = 3 then some (.leaf ⟨3, 2, 4, 4, [(1, 10)]⟩)
    else if id = 4 then some (.leaf ⟨4, 2, 0, 4, [(5, 50)]⟩)
    else none
  allocated := [0, 1, 2, 3, 4]

theorem searchable_twoLeaves : Searchable twoLeavesPages twoLeaves where
  root := rfl
  laid := by
    refine ⟨⟨_, rfl, rfl⟩, fun c hc => ?_⟩
    rcases List.mem_pair.mp hc with rfl | rfl
    · exact ⟨_, rfl, rfl⟩
    · exact ⟨_, rfl, rfl⟩
  nodup := by decide
  allocated := by decide
  valid := by decide
  separated := by
    refine ⟨⟨⟨List.pairwise_singleton _ _, ?_⟩, List.pairwise_singleton _ _, ?_⟩,
      List.pairwise_singleton _ _, ?_⟩
    · intro e he
      rw [List.mem_singleton.mp he]
      exact ⟨bot_le, by decide⟩
    · intro e he
      rw [List.mem_singleton.mp he]
      exact ⟨le_rfl, WithTop.coe_lt_top _⟩
    · intro c hc
      rw [List.mem_singleton.mp hc]
      exact ⟨bot_le, WithTop.coe_lt_top _⟩

/-- The key between the leaves is found in the second one. -/
theorem search_exact_twoLeaves : ∃ found, twoLeavesPages.getValue 5 = some found ∧
    ∀ v, found = some v ↔ ∃ l ∈ twoLeaves.leaves, (5, v) ∈ l.entries :=
  (searchable_twoLeaves.search_exact 5).2.1

end BPlusTree

end MiniSql
