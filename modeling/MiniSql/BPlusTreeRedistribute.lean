import MiniSql.BPlusTreeMoves

/-!
# Redistributing between two pages

`Redistribute` takes the keys that it needs from the leaves. It searches the tree
for the last key of the first of the two pages, and goes one or two leaves to the
right from where the search ends (`Holds.seam`, `Holds.exists_seam`).

`OneShort` is a tree with one page that is one below its minimum size and does not
fit in one page with the sibling that `FindSibling` chooses. `RedistributesRight`
says what is expected there. Leaves are redistributed right
(`OneShort.right_leaf`). So are the parents of leaves if the search comes through
the first of the two pages (`OneShort.right_inner`), which it does not have to if
that page has one child only. The pages above are not: the leaves that the search
ends at are then in the child that moves, and not around it
(`OneShort.height_of_right_last`, `OneShort.height_of_right_first`).
`redistributesRight_iff` puts this together.
-/

namespace MiniSql

variable {K V : Type} [LinearOrder K]

namespace BPlusTree

open KeyTree

variable {m n : ℕ} {cfg : TreeConfig} {s s' : BPlusTree K V} {next : PageId}

/-! ## From one leaf to the next -/

section Seam

variable {ls : List (Leaf PageId K V)} {last : K} {pre middle : LeafPage K V}

omit [LinearOrder K] in
/-- `FetchPage` of the head of a chain. -/
theorem Chained.exists_fetchLeaf {q : Leaf PageId K V} {Q : List (Leaf PageId K V)}
    (h : Chained s.pages (q :: Q) next) : ∃ p, s.fetchLeaf q.id = some p ∧
      p.array = q.entries ∧ p.nextPageId = headId Q next := by
  obtain ⟨⟨p, hp, -, harray, hnext⟩, -⟩ := h
  refine ⟨p, ?_, harray, hnext⟩
  rw [fetchLeaf, hp]

omit [LinearOrder K] in
/-- What `FetchPage` finds at the head of a chain, if there is no page after it. -/
theorem Chained.of_fetchLeaf (h : Chained s.pages ls next) (hend : s.pages next = none)
    {p : LeafPage K V} (hp : s.fetchLeaf (headId ls next) = some p) :
    ∃ q Q, ls = q :: Q ∧ p.array = q.entries ∧ p.nextPageId = headId Q next := by
  cases ls with
  | nil =>
    have hnone : s.fetchLeaf next = none := by rw [fetchLeaf, hend]
    rw [headId, hnone] at hp
    cases hp
  | cons q Q =>
    obtain ⟨p', hp', harray, hnext⟩ := h.exists_fetchLeaf
    have hhead : s.fetchLeaf q.id = some p := hp
    rw [hhead] at hp'
    cases hp'
    exact ⟨q, Q, rfl, harray, hnext⟩

variable {t : PageTree K V n}

/-- **The leaf that a search ends at, and the one after it.** -/
theorem Holds.seam (h : Holds cfg s t next) (hend : s.pages next = none)
    (hpre : s.findLeafPage last false = some pre)
    (hmiddle : s.fetchLeaf pre.nextPageId = some middle) :
    ∃ P p q Q, t.leaves = P ++ p :: q :: Q ∧ Routes (fun lo hi => Within lo hi last) t p ⊥ ⊤ ∧
      pre.array = p.entries ∧ middle.array = q.entries ∧ middle.nextPageId = headId Q next ∧
      Chained s.pages Q next := by
  obtain ⟨p, leaf, hfind, hpage, harray, hmem, hway, -⟩ := h.searchable.findLeafPage_eq last
  rw [hpre] at hfind
  cases hfind
  obtain ⟨P, Q, hleaves⟩ := List.append_of_mem hmem
  have hchain := h.stored.chained h.ordered.branches
  rw [hleaves] at hchain
  obtain ⟨⟨p', hp', -, -, hnext⟩, hQ⟩ := (chained_append.mp hchain).2
  rw [hpage] at hp'
  cases hp'
  rw [hnext] at hmiddle
  obtain ⟨q, Q, rfl, hq, hqnext⟩ := hQ.of_fetchLeaf hend hmiddle
  exact ⟨P, p, q, Q, hleaves, (hway p).mpr rfl, harray, hq, hqnext, hQ.2⟩

/-- **They are found**, if a way for the key ends at a leaf with another leaf after
it. -/
theorem Holds.exists_seam (h : Holds cfg s t next) {P Q : List (Leaf PageId K V)}
    {p q : Leaf PageId K V} (hleaves : t.leaves = P ++ p :: q :: Q)
    (hroutes : Routes (fun lo hi => Within lo hi last) t p ⊥ ⊤) :
    ∃ pre middle, s.findLeafPage last false = some pre ∧
      s.fetchLeaf pre.nextPageId = some middle ∧ pre.array = p.entries ∧
      middle.array = q.entries ∧ middle.nextPageId = headId Q next ∧ Chained s.pages Q next := by
  obtain ⟨p', pre, hfind, hpage, harray, -, hway, -⟩ := h.searchable.findLeafPage_eq last
  obtain rfl : p = p' := (hway p).mp hroutes
  have hchain := h.stored.chained h.ordered.branches
  rw [hleaves] at hchain
  obtain ⟨⟨p', hp', -, -, hnext⟩, hQ⟩ := (chained_append.mp hchain).2
  rw [hpage] at hp'
  cases hp'
  obtain ⟨middle, hmiddle, hq, hqnext⟩ := hQ.exists_fetchLeaf
  exact ⟨pre, middle, hfind, hnext ▸ hmiddle, harray, hq, hqnext, hQ.2⟩

end Seam

/-! ## A page that is short -/

/-- `Redistribute` of a page and the sibling that `FindSibling` chooses. The leaves
along which it goes are fetched in all four variants, also where they are not
looked at, and `FetchPage` asserts that there is a page id. -/
def redistributeWithSibling (s : BPlusTree K V) (id : PageId) :
    Option (BPlusTree K V × PageId) := do
  let node ← s.pages id
  let parent ← s.fetchInternal node.parentPageId
  let (sibling, _) ← findSibling parent id
  let neighbor ← s.pages sibling
  let index ← parent.valueIndex id
  let last ← (if index = 0 then node else neighbor).lastKey
  let pre ← s.findLeafPage last false
  let middle ← s.fetchLeaf pre.nextPageId
  if middle.nextPageId = invalidPageId then none
  else
    let s' ← s.redistribute neighbor node index
    return (s', sibling)

/-- `Redistribute` is right: no assertion fails, both pages have at least the minimum
size, every `GetValue` answers as before, and the tree is as documented again, so
the keys separate what is on their sides. -/
def RedistributesRight (cfg : TreeConfig) (s : BPlusTree K V) (next id : PageId) : Prop :=
  ∃ s' sibling, s.redistributeWithSibling id = some (s', sibling) ∧
    (∀ p ∈ [id, sibling], ∃ page, s'.pages p = some page ∧ page.minSize ≤ page.size) ∧
    (∀ key, s'.getValue key = s.getValue key) ∧
    ∃ (n : ℕ) (t : PageTree K V n), Holds cfg s' t next

section Short

variable {C : Context PageId K V (m + 1) n} {id short : PageId} {A B : List (K × PageTree K V m)}
  {k₁ k₂ key : K} {l r l' r' : PageTree K V m}

/-- **A tree with one page that is one below its minimum size.** The page and the
sibling that `FindSibling` chooses for it are `l` and `r`, neighbours below `id`,
and they do not fit in one page. -/
structure OneShort (cfg : TreeConfig) (s : BPlusTree K V) (C : Context PageId K V (m + 1) n)
    (id : PageId) (A : List (K × PageTree K V m)) (k₁ : K) (l : PageTree K V m) (k₂ : K)
    (r : PageTree K V m) (B : List (K × PageTree K V m)) (next short : PageId) : Prop where
  holds : Holds cfg s (C.fill (node id (A ++ (k₁, l) :: (k₂, r) :: B))) next
  /-- What comes after the last leaf is not a page of the tree. -/
  last : s.pages next = none
  /-- All pages but the root and the short one have the minimum size. -/
  sized : SizedBut cfg.bounds [(C.fill (node id (A ++ (k₁, l) :: (k₂, r) :: B))).id, short]
    (C.fill (node id (A ++ (k₁, l) :: (k₂, r) :: B)))
  /-- The short page is the second of the two, or the first one if there is none before
  it. It is not empty. -/
  short : (short = r.id ∧ r.size + 1 = cfg.bounds.min m ∧ 1 ≤ r.size) ∨
    (short = l.id ∧ A = [] ∧ l.size + 1 = cfg.bounds.min m ∧ 1 ≤ l.size)
  full : cfg.bounds.max m < l.size + r.size

/-- When `Redistribute` is right: the pages are leaves or the parents of leaves, the
last key of a first child is within its bounds, and two leaves come after the first
of the two pages if no page id comes after the last leaf. -/
def RedistributesWhen (C : Context PageId K V (m + 1) n) (k₂ : K) (l r : PageTree K V m)
    (B : List (K × PageTree K V m)) (next short : PageId) : Prop :=
  m ≤ 1 ∧ (short = l.id → ∀ k ∈ l.lastKey, Within (C.lower ⊥) k₂ k) ∧
    (next = invalidPageId →
      2 ≤ (r.leaves ++ (B.flatMap (fun c => c.2.leaves) ++ C.right)).length)

/-- The parent of the two pages. -/
theorem OneShort.stored (h : OneShort cfg s C id A k₁ l k₂ r B next short) :
    Stored cfg s.pages (node id (A ++ (k₁, l) :: (k₂, r) :: B)) (holeParent C invalidPageId)
      (holeNext C next) := h.holds.stored.hole

theorem OneShort.nodup (h : OneShort cfg s C id A k₁ l k₂ r B next short) :
    (node id (A ++ (k₁, l) :: (k₂, r) :: B)).ids.Nodup := (C.nodup_fill.mp h.holds.nodup).2.1

/-- **The step in the tree**: the second of the two pages gets the last entry or child
of the first one, or the first of the two the first one of the second. -/
theorem OneShort.step_eq (h : OneShort cfg s C id A k₁ l k₂ r B next short) :
    s.redistributeWithSibling short = l.lastKey.bind (fun last =>
      (s.findLeafPage last false).bind (fun pre => (s.fetchLeaf pre.nextPageId).bind (fun middle =>
        if middle.nextPageId = invalidPageId then none
        else if short = r.id then
          (s.redistribute (rootPage cfg l id r.first)
            (rootPage cfg r id (firstOf B (holeNext C next))) (A.length + 1)).map (·, l.id)
        else
          (s.redistribute (rootPage cfg r id (firstOf B (holeNext C next)))
            (rootPage cfg l id r.first) 0).map (·, r.id)))) := by
  obtain ⟨p, hp, ⟨hsibr, hindexr⟩, hleft, -⟩ := h.stored.fetch_pair h.nodup
  obtain ⟨-, hl, hr, -⟩ := storedIn_append.mp (stored_node.mp h.stored).2
  have hlp : s.pages l.id = some (rootPage cfg l id r.first) := hl.root
  have hrp : s.pages r.id = some (rootPage cfg r id (firstOf B (holeNext C next))) := hr.root
  have hkey := lastKey_rootPage cfg id r.first l
  unfold redistributeWithSibling
  simp only [Option.bind_eq_bind]
  rcases h.short with ⟨rfl, -⟩ | ⟨rfl, hA, -⟩
  · rw [hrp, Option.bind_some, parentPageId_rootPage, hp, Option.bind_some, hsibr, Option.bind_some]
    simp only [hlp, Option.bind_some, hindexr, if_neg (Nat.succ_ne_zero _), hkey]
    refine congrArg (Option.bind _) (funext fun last => congrArg (Option.bind _) (funext fun pre =>
      congrArg (Option.bind _) (funext fun middle => ?_)))
    rw [if_pos trivial, Option.map_eq_bind]
    rfl
  · obtain ⟨hsibl, hindexl⟩ := hleft hA
    rw [hlp, Option.bind_some, parentPageId_rootPage, hp, Option.bind_some, hsibl, Option.bind_some]
    simp only [hrp, Option.bind_some, hindexl, if_pos, hkey]
    refine congrArg (Option.bind _) (funext fun last => congrArg (Option.bind _) (funext fun pre =>
      congrArg (Option.bind _) (funext fun middle => ?_)))
    rw [if_neg (ne_neighbours h.nodup).1, Option.map_eq_bind]
    rfl

/-- The parent is not the page id of no page. -/
theorem OneShort.id_ne (h : OneShort cfg s C id A k₁ l k₂ r B next short) : id ≠ invalidPageId :=
  fun hc => h.holds.valid (C.mem_ids_fill.mpr (.inr (hc ▸ List.mem_cons_self)))

/-- **`Redistribute` is what `CoalesceOrRedistribute` does** for the short page. -/
theorem OneShort.coalesceOrRedistribute_eq (h : OneShort cfg s C id A k₁ l k₂ r B next short)
    {sibling : PageId} (hstep : s.redistributeWithSibling short = some (s', sibling))
    (rounds : ℕ) : coalesceOrRedistribute (rounds + 1) s short = some s' := by
  obtain ⟨node, p, sib, after, neighbor, hnode, hroot, hp, hsib, hneighbor, hfull⟩ :
      ∃ node p sib after neighbor, s.pages short = some node ∧ node.isRootPage = false ∧
        s.fetchInternal node.parentPageId = some p ∧ findSibling p short = some (sib, after) ∧
        s.pages sib = some neighbor ∧ ¬ node.size + neighbor.size ≤ node.maxSize := by
    obtain ⟨p, hp, ⟨hsibr, -⟩, hleft, -⟩ := h.stored.fetch_pair h.nodup
    obtain ⟨-, hl, hr, -⟩ := storedIn_append.mp (stored_node.mp h.stored).2
    have hchild : ∀ (t : PageTree K V m) (next : PageId),
        (rootPage cfg t id next).isRootPage = false := fun t next =>
      decide_eq_false (fun hc => h.id_ne ((parentPageId_rootPage t).symm.trans hc))
    rcases h.short with ⟨rfl, -⟩ | ⟨rfl, hA, -⟩
    · refine ⟨_, p, _, _, _, hr.root, hchild _ _, parentPageId_rootPage r ▸ hp, hsibr, hl.root, ?_⟩
      rw [size_rootPage, size_rootPage, maxSize_rootPage, Nat.add_comm]
      exact not_le.mpr h.full
    · refine ⟨_, p, _, _, _, hl.root, hchild _ _, parentPageId_rootPage l ▸ hp, (hleft hA).1,
        hr.root, ?_⟩
      rw [size_rootPage, size_rootPage, maxSize_rootPage]
      exact not_le.mpr h.full
  unfold redistributeWithSibling at hstep
  rw [coalesceOrRedistribute]
  simp only [Option.bind_eq_bind, hnode, Option.bind_some, hp, hsib, hneighbor] at hstep ⊢
  rw [hroot, if_neg Bool.false_ne_true, if_neg hfull]
  obtain ⟨index, hindex, hstep⟩ := Option.bind_eq_some_iff.mp hstep
  obtain ⟨last, -, hstep⟩ := Option.bind_eq_some_iff.mp hstep
  obtain ⟨pre, -, hstep⟩ := Option.bind_eq_some_iff.mp hstep
  obtain ⟨middle, -, hstep⟩ := Option.bind_eq_some_iff.mp hstep
  split at hstep
  · cases hstep
  · obtain ⟨s'', hrun, hs⟩ := Option.bind_eq_some_iff.mp hstep
    cases hs
    rw [hindex, Option.bind_some, hrun]

/-- What is known of the order around the two pages. -/
theorem OneShort.ordered (h : OneShort cfg s C id A k₁ l k₂ r B next short) :
    OrderedBefore Ordered A (C.lower ⊥) k₁ ∧ Ordered l (start A k₁ (C.lower ⊥)) k₂ ∧
      Ordered r k₂ (stop B (C.upper ⊤)) ∧ OrderedAfter Ordered B (C.upper ⊤) := by
  have hin : OrderedIn Ordered (A ++ (k₁, l) :: (k₂, r) :: B) (C.lower ⊥) (C.upper ⊤) :=
    h.holds.ordered.hole
  exact orderedIn_focus₂.mp hin

/-- **The two pages afterwards.** -/
theorem OneShort.right (h : OneShort cfg s C id A k₁ l k₂ r B next short) {sibling : PageId}
    (hstep : s.redistributeWithSibling short = some (s', sibling))
    (hpages : ∀ p ∈ [short, sibling], p = l.id ∨ p = r.id)
    (hR : Rewrites cfg s s' (node id (A ++ (k₁, l) :: (k₂, r) :: B))
      (node id (A ++ (k₁, l') :: (key, r') :: B)) (holeParent C invalidPageId) (holeNext C next))
    (hidl : l'.id = l.id) (hidr : r'.id = r.id)
    (hl : Ordered l' (start A k₁ (C.lower ⊥)) key) (hr : Ordered r' key (stop B (C.upper ⊤)))
    (hsl : cfg.bounds.min m ≤ l'.size) (hsr : cfg.bounds.min m ≤ r'.size) :
    RedistributesRight cfg s next short := by
  obtain ⟨hA, -, -, hB⟩ := h.ordered
  have hord : OrderedIn Ordered (A ++ (k₁, l') :: (key, r') :: B) (C.lower ⊥) (C.upper ⊤) :=
    orderedIn_focus₂.mpr ⟨hA, hl, hr, hB⟩
  obtain ⟨-, hl', hr', -⟩ := storedIn_append.mp (stored_node.mp hR.stored).2
  refine ⟨s', sibling, hstep, fun p hp => ?_, hR.getValue_eq h.holds hord, n, _,
    hR.holds h.holds hord⟩
  rcases hpages p hp with rfl | rfl
  · refine ⟨_, hidl ▸ hl'.root, ?_⟩
    rw [minSize_rootPage h.id_ne, size_rootPage]
    exact hsl
  · refine ⟨_, hidr ▸ hr'.root, ?_⟩
    rw [minSize_rootPage h.id_ne, size_rootPage]
    exact hsr

/-! ### Sizes -/

omit [LinearOrder K] in
/-- Two pages of the minimum size have one entry more than a page at most. -/
theorem two_mul_min_le (h : 2 ≤ cfg.bounds.min m) :
    2 * cfg.bounds.min m ≤ cfg.bounds.max m + 1 := by
  cases m with
  | zero =>
    show 2 * (cfg.leafMaxSize / 2) ≤ cfg.leafMaxSize + 1
    omega
  | succ m =>
    change 2 ≤ (cfg.internalMaxSize - 1) / 2 + 1 at h
    show 2 * ((cfg.internalMaxSize - 1) / 2 + 1) ≤ cfg.internalMaxSize + 1
    omega

/-- The minimum size is two or more, and the other page has more than the minimum
size. -/
theorem OneShort.sizes (h : OneShort cfg s C id A k₁ l k₂ r B next short) :
    2 ≤ cfg.bounds.min m ∧
      ((short = r.id ∧ r.size + 1 = cfg.bounds.min m ∧ cfg.bounds.min m < l.size) ∨
        (short = l.id ∧ A = [] ∧ l.size + 1 = cfg.bounds.min m ∧ cfg.bounds.min m < r.size)) := by
  have hfull := h.full
  have hmin : 2 ≤ cfg.bounds.min m := by
    rcases h.short with ⟨-, hsize, hone⟩ | ⟨-, -, hsize, hone⟩ <;> omega
  have htwo := two_mul_min_le hmin
  refine ⟨hmin, h.short.imp (fun hs => ⟨hs.1, hs.2.1, ?_⟩) (fun hs => ⟨hs.1, hs.2.1, hs.2.2.1, ?_⟩)⟩
  · have hsize := hs.2.1
    omega
  · have hsize := hs.2.2.1
    omega

/-- The children of the two pages have the minimum size. -/
theorem OneShort.min_le_child {A B : List (K × PageTree K V (m + 1))}
    {C : Context PageId K V (m + 2) n} {l r : PageTree K V (m + 1)}
    (h : OneShort cfg s C id A k₁ l k₂ r B next short) {c : K × PageTree K V m}
    (hc : c ∈ Node.children l ++ Node.children r) : cfg.bounds.min m ≤ c.2.size := by
  have hbelow : c.2.id ∈ l.below ++ r.below := by
    obtain ⟨i, cs, rfl⟩ := exists_node l
    obtain ⟨j, ds, rfl⟩ := exists_node r
    exact List.mem_append.mpr ((List.mem_append.mp hc).imp
      (fun hc => List.mem_flatMap.mpr ⟨c, hc, c.2.id_mem_ids⟩)
      (fun hc => List.mem_flatMap.mpr ⟨c, hc, c.2.id_mem_ids⟩))
  have hnode : SizedBut cfg.bounds [(C.fill (node id (A ++ (k₁, l) :: (k₂, r) :: B))).id, short]
      (node id (A ++ (k₁, l) :: (k₂, r) :: B)) := h.sized.hole
  have hl := hnode.2 (k₁, l) (List.mem_append_right A List.mem_cons_self)
  have hr := hnode.2 (k₂, r) (List.mem_append_right A (List.mem_cons_of_mem _ List.mem_cons_self))
  have hchild : SizedBut cfg.bounds [(C.fill (node id (A ++ (k₁, l) :: (k₂, r) :: B))).id, short]
      c.2 := (List.mem_append.mp hc).elim (hl.2 c) (hr.2 c)
  refine hchild.root.1.resolve_left (fun hc => ?_)
  obtain ⟨hcl, hcr⟩ := (ne_neighbours h.nodup).2 c.2.id (.inr (.inl hbelow))
  rcases List.mem_pair.mp hc with hc | hc
  · refine C.id_fill_notMem_below h.holds.nodup (hc ▸ ?_)
    show c.2.id ∈ idsIn (A ++ (k₁, l) :: (k₂, r) :: B)
    rw [idsIn_append, idsIn_cons, idsIn_cons]
    refine List.mem_append_right _ ?_
    rcases List.mem_append.mp hbelow with hbelow | hbelow
    · exact List.mem_append_left _ (mem_ids_of_mem_below hbelow)
    · exact List.mem_append_right _ (List.mem_append_left _ (mem_ids_of_mem_below hbelow))
  · rcases h.short with ⟨hs, -⟩ | ⟨hs, -⟩
    · exact hcr (hc.trans hs)
    · exact hcl (hc.trans hs)

/-! ### Where the search ends -/

omit [LinearOrder K] in
/-- The leaves to the left of the two pages and to the right of them. -/
theorem leaves_pair : (C.fill (node id (A ++ (k₁, l) :: (k₂, r) :: B))).leaves =
    (C.left ++ A.flatMap (fun c => c.2.leaves)) ++ (l.leaves ++
      (r.leaves ++ (B.flatMap (fun c => c.2.leaves) ++ C.right))) := by
  rw [C.leaves_fill, leaves_node, List.flatMap_append, List.flatMap_cons, List.flatMap_cons]
  simp only [List.append_assoc]

/-- **The search for the last key** ends at the last leaf of the first page, if the key
is within its bounds and the page is a leaf or the parent of leaves. -/
theorem OneShort.exists_seam (h : OneShort cfg s C id A k₁ l k₂ r B next short) (hm : m ≤ 1)
    {last : K} (hlast : last ∈ l.lastKey) (hwithin : Within (start A k₁ (C.lower ⊥)) k₂ last) :
    ∃ pre middle ls p q qs, s.findLeafPage last false = some pre ∧
      s.fetchLeaf pre.nextPageId = some middle ∧ l.leaves = ls ++ [p] ∧ r.leaves = q :: qs ∧
      pre.array = p.entries ∧ middle.array = q.entries ∧
      middle.nextPageId = headId (qs ++ (B.flatMap (fun c => c.2.leaves) ++ C.right)) next ∧
      Chained s.pages (qs ++ (B.flatMap (fun c => c.2.leaves) ++ C.right)) next := by
  obtain ⟨ls, p, hls, hroutes⟩ := Routes.of_lastKey hm hlast hwithin
  obtain ⟨q, qs, hqs⟩ := List.exists_cons_of_ne_nil h.ordered.2.2.1.branches.leaves_ne_nil
  have hleaves : (C.fill (node id (A ++ (k₁, l) :: (k₂, r) :: B))).leaves =
      ((C.left ++ A.flatMap (fun c => c.2.leaves)) ++ ls) ++
        p :: q :: (qs ++ (B.flatMap (fun c => c.2.leaves) ++ C.right)) := by
    rw [leaves_pair, hls, hqs]
    simp only [List.append_assoc, List.cons_append, List.nil_append]
  have hway : Routes (fun lo hi => Within lo hi last)
      (C.fill (node id (A ++ (k₁, l) :: (k₂, r) :: B))) p ⊥ ⊤ :=
    Routes.fill (C := C) ⟨A, (k₁, l), (k₂, r) :: B, rfl, hroutes⟩
  obtain ⟨pre, middle, hpre, hmiddle, hp, hq, hnext, hchain⟩ := h.holds.exists_seam hleaves hway
  exact ⟨pre, middle, ls, p, q, qs, hpre, hmiddle, hls, hqs, hp, hq, hnext, hchain⟩

/-- The page after the second leaf is a page, unless there is none. -/
theorem OneShort.headId_eq (h : OneShort cfg s C id A k₁ l k₂ r B next short)
    {q : Leaf PageId K V} {qs : List (Leaf PageId K V)} (hqs : r.leaves = q :: qs) :
    headId (qs ++ (B.flatMap (fun c => c.2.leaves) ++ C.right)) next ≠ invalidPageId ↔
      (next = invalidPageId →
        2 ≤ (r.leaves ++ (B.flatMap (fun c => c.2.leaves) ++ C.right)).length) := by
  rw [hqs, List.cons_append, List.length_cons]
  cases hrest : qs ++ (B.flatMap (fun c => c.2.leaves) ++ C.right) with
  | nil => exact ⟨fun hne hc => absurd hc hne, fun himp hc => absurd (himp hc) (Nat.lt_irrefl 1)⟩
  | cons x xs =>
    refine iff_of_true (fun hc => ?_) (fun _ => Nat.succ_le_succ (Nat.succ_pos _))
    have hx : x ∈ (C.fill (node id (A ++ (k₁, l) :: (k₂, r) :: B))).leaves := by
      rw [leaves_pair, hqs, List.cons_append, hrest]
      exact List.mem_append_right _ (List.mem_append_right _
        (List.mem_cons_of_mem q List.mem_cons_self))
    have hid : x.id = invalidPageId := hc
    exact h.holds.valid (hid ▸ id_mem_ids_of_mem_leaves hx)

end Short

/-! ## Where it is right -/

section Right

variable {id short : PageId} {k₁ k₂ : K} {last : K} {pre middle : LeafPage K V}

section Leaves

variable {C : Context PageId K V 1 n} {A B : List (K × PageTree K V 0)} {l r : PageTree K V 0}

/-- **Two leaves**: an entry goes from one to the other. -/
theorem OneShort.right_leaf (h : OneShort cfg s C id A k₁ l k₂ r B next short)
    (hlast : l.lastKey = some last) (hpre : s.findLeafPage last false = some pre)
    (hmiddle : s.fetchLeaf pre.nextPageId = some middle) (hp : pre.array = l.entries)
    (hq : middle.array = r.entries) (haft : middle.nextPageId ≠ invalidPageId) :
    RedistributesRight cfg s next short := by
  obtain ⟨i, es, rfl⟩ : ∃ i es, l = leaf i es := ⟨_, _, rfl⟩
  obtain ⟨j, fs, rfl⟩ : ∃ j fs, r = leaf j fs := ⟨_, _, rfl⟩
  obtain ⟨-, hl, hr, -⟩ := h.ordered
  have hstep := h.step_eq
  rw [hlast, Option.bind_some, hpre, Option.bind_some, hmiddle, Option.bind_some, if_neg haft]
    at hstep
  obtain ⟨hmin, ⟨hs, hsize, hlarge⟩ | ⟨hs, hA, hsize, hlarge⟩⟩ := h.sizes
  · -- the last entry of the first leaf goes to the second one
    rw [if_pos hs] at hstep
    obtain ⟨es, e, rfl⟩ : ∃ ds e, es = ds ++ [e] :=
      ⟨_, _, (List.dropLast_concat_getLast hl.1).symm⟩
    have hes : es ≠ [] := by
      rintro rfl
      exact absurd hlarge (not_lt.mpr (Nat.one_le_of_lt hmin))
    have hkey : pre.keyAt (pre.size - 1) = some e.1 := by
      rw [LeafPage.keyAt, LeafPage.size, hp, ← List.getLast?_eq_getElem?]
      show Option.map Prod.fst (es ++ [e]).getLast? = _
      rw [List.getLast?_concat]
      rfl
    rw [show (leaf j fs : PageTree K V 0).first = j from rfl,
      redistribute_last_leaf h.stored h.nodup hlast hpre, hkey, Option.map_some, Option.map_some]
      at hstep
    obtain ⟨hl', hr'⟩ := Ordered.moveLast_leaf hes hl hr
    refine h.right hstep ?_
      (rewrites_writePair_leaf h.stored h.nodup (List.append_assoc es [e] fs).symm)
      rfl rfl hl' hr' ?_ hsize.ge
    · intro p hp
      rw [hs] at hp
      exact (List.mem_pair.mp hp).symm
    · rw [size_leaf, List.length_append] at hlarge
      exact Nat.lt_succ_iff.mp hlarge
  · -- the first entry of the second leaf goes to the first one
    obtain ⟨hne, -⟩ := ne_neighbours h.nodup
    rw [if_neg (fun hc => hne (hs.symm.trans hc))] at hstep
    have hlarge : cfg.bounds.min 0 < fs.length := hlarge
    have hlong := hmin.trans_lt hlarge
    obtain ⟨f, g, fs, rfl⟩ : ∃ f g gs, fs = f :: g :: gs := by
      cases fs with
      | nil => exact absurd hlong (Nat.not_lt_zero _)
      | cons f gs =>
        cases gs with
        | nil => exact absurd (Nat.lt_of_succ_lt_succ hlong) (Nat.not_lt_zero _)
        | cons g gs => exact ⟨f, g, gs, rfl⟩
    have hkey : middle.keyAt 1 = some g.1 := by
      rw [LeafPage.keyAt, hq]
      rfl
    rw [show (leaf j (f :: g :: fs) : PageTree K V 0).first = j from rfl,
      redistribute_first_leaf h.stored h.nodup hlast hpre hmiddle, hkey, Option.map_some,
      Option.map_some] at hstep
    obtain ⟨hl', hr'⟩ := Ordered.moveFirst_leaf hl hr
    refine h.right hstep ?_ (rewrites_writePair_leaf h.stored h.nodup
      (List.append_assoc es [f] (g :: fs))) rfl rfl hl' hr' ?_ (Nat.lt_succ_iff.mp hlarge)
    · intro p hp
      rw [hs] at hp
      exact List.mem_pair.mp hp
    · rw [size_leaf, List.length_append]
      exact hsize.ge

end Leaves

section Inner

variable {C : Context PageId K V 2 n} {A B : List (K × PageTree K V 1)} {l r : PageTree K V 1}

omit [LinearOrder K] in
/-- The first key of a leaf page. -/
theorem keyAt_zero {p : LeafPage K V} {e : K × V} {es : List (K × V)} (h : p.array = e :: es) :
    p.keyAt 0 = some e.1 := by
  rw [LeafPage.keyAt, h]
  rfl

/-- **Two parents of leaves**: a leaf goes from one to the other. -/
theorem OneShort.right_inner (h : OneShort cfg s C id A k₁ l k₂ r B next short)
    (hlast : l.lastKey = some last) (hwithin : Within (start A k₁ (C.lower ⊥)) k₂ last)
    (haft : next = invalidPageId →
      2 ≤ (r.leaves ++ (B.flatMap (fun c => c.2.leaves) ++ C.right)).length) :
    RedistributesRight cfg s next short := by
  obtain ⟨i, cs, rfl⟩ := exists_node l
  obtain ⟨j, ds, rfl⟩ := exists_node r
  obtain ⟨pre, middle, ls, p, q, qs, hpre, hmiddle, hls, hqs, hp, hq, hnext, hchain⟩ :=
    h.exists_seam le_rfl hlast hwithin
  obtain ⟨-, hl, hr, -⟩ := h.ordered
  have hstep := h.step_eq
  have hvalid := (h.headId_eq hqs).mpr haft
  rw [← hnext] at hvalid
  rw [hlast, Option.bind_some, hpre, Option.bind_some, hmiddle, Option.bind_some, if_neg hvalid]
    at hstep
  obtain ⟨d, ds, rfl⟩ : ∃ d es, ds = d :: es :=
    List.exists_cons_of_ne_nil (OrderedIn.ne_nil hr)
  have hqd : (d.2 : Leaf PageId K V) :: ds.flatMap (fun c => c.2.leaves) = q :: qs := by
    rw [leaves_node, List.flatMap_cons] at hqs
    exact hqs
  obtain ⟨rfl, rfl⟩ := List.cons.inj hqd
  have hd : Ordered d.2 k₂ (stop ds (stop B (C.upper ⊤))) := (orderedIn_cons.mp hr).1
  obtain ⟨e, es, he⟩ : ∃ e es, d.2.entries = e :: es := List.exists_cons_of_ne_nil hd.1
  have hmid : middle.keyAt 0 = some e.1 := keyAt_zero (hq.trans he)
  obtain ⟨hmin, ⟨hs, hsize, hlarge⟩ | ⟨hs, hA, hsize, hlarge⟩⟩ := h.sizes
  · -- the last leaf below the first page goes to the second one
    rw [if_pos hs] at hstep
    obtain ⟨cs, c, rfl⟩ : ∃ bs c, cs = bs ++ [c] :=
      ⟨_, _, (List.dropLast_concat_getLast (OrderedIn.ne_nil hl)).symm⟩
    rw [size_node, List.length_append] at hlarge
    have hcs : cs ≠ [] := by
      rintro rfl
      exact absurd hlarge (not_lt.mpr (Nat.one_le_of_lt hmin))
    have hlc : cs.flatMap (fun c => c.2.leaves) ++ ([c.2] : List (Leaf PageId K V)) =
      ls ++ [p] := by
      rw [← hls, leaves_node, List.flatMap_append]
      rfl
    have hpc := (List.append_inj' hlc rfl).2
    obtain rfl : c.2 = p := (List.cons.inj hpc).1
    have hc : Ordered c.2 (start cs c.1 (start A k₁ (C.lower ⊥))) k₂ :=
      (orderedIn_focus.mp hl).2.1
    obtain ⟨f, fs, hf⟩ : ∃ f fs, c.2.entries = f :: fs := List.exists_cons_of_ne_nil hc.1
    rw [first_node_cons, redistribute_last_inner h.stored h.nodup hlast hpre hmiddle, hmid,
      Option.bind_some, keyAt_zero (hp.trans hf), Option.map_some, Option.map_some] at hstep
    obtain ⟨hl', hr'⟩ := Ordered.moveLast hcs hl hr hf he
    refine h.right hstep ?_ (rewrites_last_inner e.1 h.stored h.nodup hcs) rfl rfl hl' hr'
      (Nat.lt_succ_iff.mp hlarge) hsize.ge
    intro p hp
    rw [hs] at hp
    exact (List.mem_pair.mp hp).symm
  · -- the first leaf below the second page goes to the first one
    obtain ⟨hne, -⟩ := ne_neighbours h.nodup
    rw [if_neg (fun hc => hne (hs.symm.trans hc))] at hstep
    rw [size_node, List.length_cons] at hlarge
    obtain ⟨d', ds, rfl⟩ : ∃ d' es, ds = d' :: es := by
      refine List.exists_cons_of_ne_nil (fun hc => ?_)
      rw [hc] at hlarge
      exact absurd hlarge (not_lt.mpr (Nat.one_le_of_lt hmin))
    have hd' : Ordered d'.2 d'.1 (stop ds (stop B (C.upper ⊤))) := (orderedIn_cons.mp hr.2).1
    obtain ⟨f, fs, hf⟩ : ∃ f fs, d'.2.entries = f :: fs := List.exists_cons_of_ne_nil hd'.1
    obtain ⟨aft, hfetch, harray, -⟩ := hchain.exists_fetchLeaf
    have haft' : s.fetchLeaf middle.nextPageId = some aft := by
      rw [hnext]
      exact hfetch
    rw [first_node_cons, redistribute_first_inner h.stored h.nodup hlast hpre hmiddle, haft',
      Option.bind_some, hmid, Option.bind_some, keyAt_zero (harray.trans hf), Option.map_some,
      Option.map_some] at hstep
    obtain ⟨hl', hr'⟩ := Ordered.moveFirst hl hr he hf
    refine h.right hstep ?_
      (rewrites_first_inner e.1 h.stored h.nodup (OrderedIn.ne_nil hl)) rfl rfl
      hl' hr' ?_ (Nat.lt_succ_iff.mp hlarge)
    · intro p hp
      rw [hs] at hp
      exact List.mem_pair.mp hp
    · rw [size_node, List.length_append]
      exact hsize.ge

end Inner

end Right

/-! ## Where it is wrong -/

section Wrong

variable {C : Context PageId K V (m + 2) n} {id short i j : PageId}
  {A B : List (K × PageTree K V (m + 1))} {cs ds : List (K × PageTree K V m)}
  {c d : K × PageTree K V m} {k k₁ k₂ last mid : K} {pre middle : LeafPage K V}

/-- **The ways of the entries**: where every `GetValue` answers as before, the search
for an entry two levels below the page goes to its child and to its grandchild. -/
theorem Rewrites.lookup_pair {D D' : List (K × PageTree K V (m + 1))}
    (hR : Rewrites cfg s s' (node id D) (node id D') (holeParent C invalidPageId) (holeNext C next))
    (ht : Holds cfg s (C.fill (node id D)) next)
    (hkept : ∀ key, s'.getValue key = s.getValue key) (hx : (k, node i cs) ∈ D') (hc : c ∈ cs)
    {e : K × V} (he : e ∈ c.2.entries) :
    (∀ p : InternalPage K, p.array = D'.map (fun c => (c.1, c.2.id)) →
      p.lookup e.1 = some i) ∧
    (∀ p : InternalPage K, p.array = cs.map (fun c => (c.1, c.2.id)) →
      p.lookup e.1 = some c.2.id) ∧ (idsIn D').Nodup ∧ (idsIn cs).Nodup := by
  have hxe : e ∈ (node i cs).entries := List.mem_flatMap.mpr ⟨c, hc, he⟩
  have hmem : e ∈ (node id D).entries := by
    rw [← hR.entries]
    exact List.mem_flatMap.mpr ⟨_, hx, hxe⟩
  obtain ⟨found, hfound, hvalue⟩ := ht.getValue_eq_some e.1
  have hin : (e.1, e.2) ∈ (C.fill (node id D)).entries := by
    rw [C.entries_fill]
    exact List.mem_append_right _ (List.mem_append_left _ hmem)
  have hv : s'.getValue e.1 = some (some e.2) := by
    rw [hkept, hfound, (hvalue e.2).mpr hin]
  have hroot : (C.fill (node id D')).id = s'.rootPageId := by
    rw [C.id_fill hR.id, hR.root, ht.root]
  have hheight : n < s'.allocated.length := hR.allocated ▸ ht.height_lt
  obtain ⟨rounds, leaf, hfind, hlookup⟩ := exists_found_of_getValue hroot hR.id
    (hR.fill ht.stored ht.nodup) ht.ordered.separated (ht.ordered.hole.spread.2.2 e hmem) hheight hv
  have hsorted : (node id D').entries.Pairwise (fun e f => e.1 < f.1) :=
    hR.entries ▸ ht.ordered.hole.spread.2.1
  obtain ⟨hchild, rounds', hfind'⟩ := lookup_of_found hR.stored hsorted hx hxe hfind hlookup
  obtain ⟨next', hstored⟩ := (stored_node.mp hR.stored).2.of_mem hx
  obtain ⟨hgrandchild, -⟩ := lookup_of_found hstored ((List.pairwise_flatMap.mp hsorted).1 _ hx)
    hc he hfind' hlookup
  have hnodup : (idsIn D').Nodup :=
    (List.nodup_cons.mp (hR.ids.nodup_iff.mpr (C.nodup_fill.mp ht.nodup).2.1)).2
  exact ⟨hchild, hgrandchild, hnodup,
    (List.nodup_cons.mp ((List.nodup_flatMap.mp hnodup).1 _ hx)).2⟩

/-- **Where the search has ended**, if the first key of the leaf after it separates two
children that are next to each other. -/
theorem OneShort.seam
    (h : OneShort cfg s C id A k₁ (node i (cs ++ [c])) k₂ (node j (d :: ds)) B next short)
    (hpre : s.findLeafPage last false = some pre)
    (hmiddle : s.fetchLeaf pre.nextPageId = some middle) (hmid : middle.keyAt 0 = some mid)
    (hbelow : ∀ e ∈ c.2.entries, e.1 < mid) (habove : ∀ f ∈ d.2.entries, mid ≤ f.1) :
    ∃ ls p q qs Q, c.2.leaves = ls ++ [p] ∧ d.2.leaves = q :: qs ∧
      Routes (fun lo hi => Within lo hi last)
        (C.fill (node id (A ++ (k₁, node i (cs ++ [c])) :: (k₂, node j (d :: ds)) :: B))) p ⊥ ⊤ ∧
      pre.array = p.entries ∧ middle.nextPageId = headId (qs ++ Q) next ∧
      Chained s.pages (qs ++ Q) next := by
  obtain ⟨-, hl, hr, -⟩ := h.ordered
  have hc : c.2.leaves ≠ [] := (orderedIn_focus.mp hl).2.1.branches.leaves_ne_nil
  have hd : d.2.leaves ≠ [] := (orderedIn_cons.mp hr).1.branches.leaves_ne_nil
  obtain ⟨ls, p, hls⟩ : ∃ ls p, c.2.leaves = ls ++ [p] :=
    ⟨_, _, (List.dropLast_concat_getLast hc).symm⟩
  obtain ⟨q, qs, hqs⟩ := List.exists_cons_of_ne_nil hd
  obtain ⟨P, p', q', Q', hleaves, hroutes, hp, hq, hnext, hchain⟩ :=
    h.holds.seam h.last hpre hmiddle
  obtain ⟨e, es, he, rfl⟩ : ∃ e es, q'.entries = e :: es ∧ e.1 = mid := by
    rw [LeafPage.keyAt, hq] at hmid
    obtain ⟨e, he, rfl⟩ := Option.map_eq_some_iff.mp hmid
    cases hq' : q'.entries with
    | nil =>
      rw [hq'] at he
      cases he
    | cons f es =>
      rw [hq'] at he
      cases he
      exact ⟨e, es, rfl, rfl⟩
  obtain ⟨X, Y, hXY⟩ : ∃ X Y,
      (C.fill (node id (A ++ (k₁, node i (cs ++ [c])) :: (k₂, node j (d :: ds)) :: B))).leaves =
        X ++ p :: q :: (qs ++ Y) := by
    refine ⟨C.left ++ (A.flatMap (fun c => c.2.leaves) ++ (cs.flatMap (fun c => c.2.leaves) ++ ls)),
      ds.flatMap (fun c => c.2.leaves) ++ (B.flatMap (fun c => c.2.leaves) ++ C.right), ?_⟩
    rw [leaves_pair, leaves_node, leaves_node, List.flatMap_append, List.flatMap_cons,
      List.flatMap_nil, List.flatMap_cons, hls, hqs]
    simp only [List.append_assoc, List.cons_append, List.nil_append]
  have hsorted := h.holds.ordered.spread.2.1
  have hne := h.holds.ordered.leaf_ne_nil
  rw [entries_eq, hXY] at hsorted
  rw [hXY] at hne
  have hpc : ∀ f ∈ p.entries, f ∈ c.2.entries := fun f hf => by
    rw [entries_eq, hls]
    exact List.mem_flatMap.mpr ⟨p, List.mem_append_right _ List.mem_cons_self, hf⟩
  have hqd : ∀ f ∈ q.entries, f ∈ d.2.entries := fun f hf => by
    rw [entries_eq, hqs]
    exact List.mem_flatMap.mpr ⟨q, List.mem_cons_self, hf⟩
  obtain ⟨rfl, rfl, rfl, rfl⟩ := eq_seam hsorted
    (hne p (List.mem_append_right _ List.mem_cons_self))
    (hne q (List.mem_append_right _ (List.mem_cons_of_mem p List.mem_cons_self)))
    (hXY.symm.trans hleaves) he (fun f hf => hbelow f (hpc f hf)) (fun f hf => habove f (hqd f hf))
  exact ⟨ls, p, q, qs, Y, hls, hqs, hroutes, hp, hnext, hchain⟩

/-- What the step needs. -/
theorem OneShort.of_step {C : Context PageId K V (m + 1) n} {A B : List (K × PageTree K V m)}
    {l r : PageTree K V m} (h : OneShort cfg s C id A k₁ l k₂ r B next short) {sibling : PageId}
    (hstep : s.redistributeWithSibling short = some (s', sibling)) :
    ∃ last pre middle, l.lastKey = some last ∧ s.findLeafPage last false = some pre ∧
      s.fetchLeaf pre.nextPageId = some middle ∧ middle.nextPageId ≠ invalidPageId ∧
      (short = r.id → s.redistribute (rootPage cfg l id r.first)
        (rootPage cfg r id (firstOf B (holeNext C next))) (A.length + 1) = some s') ∧
      (short = l.id → s.redistribute (rootPage cfg r id (firstOf B (holeNext C next)))
        (rootPage cfg l id r.first) 0 = some s') := by
  rw [h.step_eq] at hstep
  obtain ⟨last, hlast, hstep⟩ := Option.bind_eq_some_iff.mp hstep
  obtain ⟨pre, hpre, hstep⟩ := Option.bind_eq_some_iff.mp hstep
  obtain ⟨middle, hmiddle, hstep⟩ := Option.bind_eq_some_iff.mp hstep
  have hvalid : middle.nextPageId ≠ invalidPageId := fun hc => by
    rw [if_pos hc] at hstep
    cases hstep
  rw [if_neg hvalid] at hstep
  refine ⟨last, pre, middle, hlast, hpre, hmiddle, hvalid, fun hs => ?_, fun hs => ?_⟩
  · rw [if_pos hs] at hstep
    obtain ⟨s'', hrun, hs'⟩ := Option.map_eq_some_iff.mp hstep
    cases hs'
    exact hrun
  · rw [if_neg (fun hc => (ne_neighbours h.nodup).1 (hs.symm.trans hc))] at hstep
    obtain ⟨s'', hrun, hs'⟩ := Option.map_eq_some_iff.mp hstep
    cases hs'
    exact hrun

/-- An inner page below the two pages has two leaves. -/
theorem OneShort.two_le_leaves {C : Context PageId K V (m + 3) n}
    {A B : List (K × PageTree K V (m + 2))} {l r : PageTree K V (m + 2)}
    (h : OneShort cfg s C id A k₁ l k₂ r B next short) {c : K × PageTree K V (m + 1)}
    (hc : c ∈ Node.children l ++ Node.children r) (hb : Branches c.2) : 2 ≤ c.2.leaves.length :=
  two_le_length_leaves hb (h.sizes.1.trans (h.min_le_child hc))

omit [LinearOrder K] in
/-- The key at the front of a page is that of an entry. -/
theorem mem_of_keyAt_zero {p : LeafPage K V} {key : K} (h : p.keyAt 0 = some key) :
    ∃ e ∈ p.array, e.1 = key := by
  obtain ⟨e, he, rfl⟩ := Option.map_eq_some_iff.mp h
  exact ⟨e, List.mem_of_getElem? he, rfl⟩

/-- **A child goes to the second page**: that is right for leaves only. -/
theorem OneShort.height_of_right_last
    (h : OneShort cfg s C id A k₁ (node i (cs ++ [c])) k₂ (node j (d :: ds)) B next j)
    (hcs : cs ≠ []) (hright : RedistributesRight cfg s next j) : m = 0 := by
  obtain ⟨s', sibling, hstep, -, hkept, -⟩ := hright
  obtain ⟨last, pre, middle, hlast, hpre, hmiddle, -, hrun, -⟩ := h.of_step hstep
  have hrun := hrun rfl
  rw [first_node_cons, redistribute_last_inner h.stored h.nodup hlast hpre hmiddle] at hrun
  obtain ⟨mid, hmid, hrun⟩ := Option.bind_eq_some_iff.mp hrun
  obtain ⟨key, hkey, rfl⟩ := Option.map_eq_some_iff.mp hrun
  have hx : (key, node j (c :: (mid, d.2) :: ds)) ∈
      A ++ (k₁, node i cs) :: (key, node j (c :: (mid, d.2) :: ds)) :: B :=
    List.mem_append_right A (List.mem_cons_of_mem _ List.mem_cons_self)
  have hways : ∀ y ∈ c :: (mid, d.2) :: ds, ∀ e ∈ y.2.entries, _ := fun y hy e he =>
    (rewrites_last_inner mid h.stored h.nodup hcs).lookup_pair h.holds hkept hx hy he
  -- the keys separate the two children and the two pages
  have hbelow : ∀ e ∈ c.2.entries, e.1 < mid := fun e he => by
    obtain ⟨-, hway, -, hnodup⟩ := hways c List.mem_cons_self e he
    exact lt_of_lookup (p := ⟨j, j, 0, _⟩) rfl hnodup (hway _ rfl)
  have habove : ∀ f ∈ d.2.entries, mid ≤ f.1 := fun f hf => by
    obtain ⟨-, hway, -, hnodup⟩ :=
      hways (mid, d.2) (List.mem_cons_of_mem c List.mem_cons_self) f hf
    exact key_le_of_lookup (A := [c]) (p := ⟨j, j, 0, _⟩) rfl hnodup (List.cons_ne_nil c [])
      (hway _ rfl)
  have hfrom : ∀ e ∈ c.2.entries, key ≤ e.1 := fun e he => by
    obtain ⟨hway, -, hnodup, -⟩ := hways c List.mem_cons_self e he
    rw [List.append_cons] at hway hnodup
    exact key_le_of_lookup (p := ⟨j, j, 0, _⟩) rfl hnodup
      (List.append_ne_nil_of_right_ne_nil A (List.cons_ne_nil _ [])) (hway _ rfl)
  obtain ⟨ls, p, q, qs, Q, hls, hqs, -, hp, -⟩ := h.seam hpre hmiddle hmid hbelow habove
  -- but the second key is the first one of the last leaf of the child
  by_contra hm
  obtain ⟨m, rfl⟩ := Nat.exists_eq_succ_of_ne_zero hm
  have hc : Ordered c.2 (start cs c.1 (start A k₁ (C.lower ⊥))) k₂ :=
    (orderedIn_focus.mp h.ordered.2.1).2.1
  have htwo := h.two_le_leaves (List.mem_append_left _ (List.mem_append_right cs
    (List.mem_singleton_self c))) hc.branches
  obtain ⟨u, hu⟩ : ∃ u, u ∈ ls := List.exists_mem_of_ne_nil ls (fun hnil => by
    rw [hls, hnil] at htwo
    exact absurd htwo (Nat.lt_irrefl 1))
  obtain ⟨e, he⟩ := List.exists_mem_of_ne_nil _ (hc.leaf_ne_nil u (hls ▸ List.mem_append_left _ hu))
  obtain ⟨f, hf, rfl⟩ := mem_of_keyAt_zero hkey
  have hsorted := hc.spread.2.1
  rw [entries_eq, hls, List.flatMap_append] at hsorted
  have hlt : e.1 < f.1 := (List.pairwise_append.mp hsorted).2.2 e (List.mem_flatMap.mpr ⟨u, hu, he⟩)
    f (List.mem_flatMap.mpr ⟨p, List.mem_singleton_self p, hp ▸ hf⟩)
  refine absurd hlt (not_lt.mpr (hfrom e ?_))
  rw [entries_eq, hls]
  exact List.mem_flatMap.mpr ⟨u, List.mem_append_left _ hu, he⟩

/-- **A child goes to the first page**: that is right only for leaves, and only if the
search for the last key has come through the page. -/
theorem OneShort.height_of_right_first {d' : K × PageTree K V m}
    (h : OneShort cfg s C id [] k₁ (node i (cs ++ [c])) k₂ (node j (d :: d' :: ds)) B next i)
    (hright : RedistributesRight cfg s next i) :
    m = 0 ∧ ∀ k ∈ (node i (cs ++ [c])).lastKey, Within (C.lower ⊥) k₂ k := by
  obtain ⟨s', sibling, hstep, -, hkept, -⟩ := hright
  obtain ⟨last, pre, middle, hlast, hpre, hmiddle, -, -, hrun⟩ := h.of_step hstep
  have hrun := hrun rfl
  have hcs : cs ++ [c] ≠ [] := List.append_ne_nil_of_right_ne_nil cs (List.cons_ne_nil c [])
  rw [first_node_cons, redistribute_first_inner h.stored h.nodup hlast hpre hmiddle] at hrun
  obtain ⟨aft, haft, hrun⟩ := Option.bind_eq_some_iff.mp hrun
  obtain ⟨mid, hmid, hrun⟩ := Option.bind_eq_some_iff.mp hrun
  obtain ⟨key, hkey, rfl⟩ := Option.map_eq_some_iff.mp hrun
  have hx : (k₁, node i (cs ++ [c] ++ [(mid, d.2)])) ∈
      [] ++ (k₁, node i (cs ++ [c] ++ [(mid, d.2)])) :: (key, node j (d' :: ds)) :: B :=
    List.mem_cons_self
  have hways : ∀ y ∈ cs ++ [c] ++ [(mid, d.2)], ∀ e ∈ y.2.entries, _ := fun y hy e he =>
    (rewrites_first_inner mid h.stored h.nodup hcs).lookup_pair h.holds hkept hx hy he
  have hcy : c ∈ cs ++ [c] ++ [(mid, d.2)] :=
    List.mem_append_left _ (List.mem_append_right cs (List.mem_singleton_self c))
  have hdy : (mid, d.2) ∈ cs ++ [c] ++ [(mid, d.2)] :=
    List.mem_append_right _ (List.mem_singleton_self _)
  -- the keys separate the two children and the two pages
  have hbelow : ∀ e ∈ c.2.entries, e.1 < mid := fun e he => by
    obtain ⟨-, hway, -, hnodup⟩ := hways c hcy e he
    rw [List.append_assoc] at hway hnodup
    exact lt_of_lookup_last (A := cs) (p := ⟨i, i, 0, _⟩) rfl hnodup (hway _ rfl)
  have habove : ∀ f ∈ d.2.entries, mid ≤ f.1 := fun f hf => by
    obtain ⟨-, hway, -, hnodup⟩ := hways (mid, d.2) hdy f hf
    exact key_le_of_lookup (p := ⟨i, i, 0, _⟩) rfl hnodup hcs (hway _ rfl)
  have hto : ∀ f ∈ d.2.entries, f.1 < key := fun f hf => by
    obtain ⟨hway, -, hnodup, -⟩ := hways (mid, d.2) hdy f hf
    exact lt_of_lookup (p := ⟨i, i, 0, _⟩) rfl hnodup (hway _ rfl)
  obtain ⟨ls, p, q, qs, Q, hls, hqs, hroutes, hp, hnext, hchain⟩ :=
    h.seam hpre hmiddle hmid hbelow habove
  obtain rfl : m = 0 := by
    -- the second key is the first one of the second leaf of the child
    by_contra hm
    obtain ⟨m, rfl⟩ := Nat.exists_eq_succ_of_ne_zero hm
    have hd : Ordered d.2 k₂ d'.1 := h.ordered.2.2.1.1
    have htwo := h.two_le_leaves (List.mem_append_right _ List.mem_cons_self) hd.branches
    obtain ⟨x, xs, rfl⟩ : ∃ x xs, qs = x :: xs := List.exists_cons_of_ne_nil (fun hnil => by
      rw [hqs, hnil] at htwo
      exact absurd htwo (Nat.lt_irrefl 1))
    rw [hnext] at haft
    obtain ⟨y, Y, hyY, harray, -⟩ := hchain.of_fetchLeaf h.last haft
    obtain ⟨rfl, -⟩ := List.cons.inj hyY
    obtain ⟨f, hf, rfl⟩ := mem_of_keyAt_zero hkey
    refine lt_irrefl _ (hto f ?_)
    rw [entries_eq, hqs]
    exact List.mem_flatMap.mpr ⟨x, List.mem_cons_of_mem q List.mem_cons_self, harray ▸ hf⟩
  refine ⟨rfl, fun k hk => ?_⟩
  obtain rfl : last = k := Option.some.inj (hlast.symm.trans hk)
  have hpl : p ∈ (node i (cs ++ [c])).leaves :=
    List.mem_flatMap.mpr ⟨c, List.mem_append_right cs (List.mem_singleton_self c),
      hls ▸ List.mem_append_right _ (List.mem_singleton_self p)⟩
  have hnode := hroutes.hole
    (List.mem_flatMap.mpr ⟨(k₁, node i (cs ++ [c])), List.mem_cons_self, hpl⟩)
    h.holds.nodup
  have hpage : Routes (fun lo hi => Within lo hi last) (node i (cs ++ [c])) p (C.lower ⊥) k₂ :=
    Routes.hole (C := .node id [] k₁ .hole ((k₂, node j (d :: d' :: ds)) :: B)) hpl h.nodup hnode
  exact h.ordered.2.1.separated.within_of_routes hpage

end Wrong

/-! ## Exactly when -/

section Iff

variable {C : Context PageId K V (m + 1) n} {id short : PageId} {A B : List (K × PageTree K V m)}
  {k₁ k₂ : K} {l r : PageTree K V m}

/-- An ordered page has a last key. -/
theorem exists_lastKey {t : PageTree K V m} {lo : WithBot K} {hi : WithTop K}
    (h : Ordered t lo hi) : ∃ k, k ∈ t.lastKey := by
  cases m with
  | zero =>
    have hlast := List.getLast?_eq_some_getLast h.1
    exact ⟨_, Option.map_eq_some_iff.mpr ⟨_, hlast, rfl⟩⟩
  | succ m =>
    have hlast := List.getLast?_eq_some_getLast (OrderedIn.ne_nil h)
    exact ⟨_, Option.map_eq_some_iff.mpr ⟨_, hlast, rfl⟩⟩

/-- The last key is within the bounds, except perhaps that of a first child. -/
theorem OneShort.within (h : OneShort cfg s C id A k₁ l k₂ r B next short)
    (hfirst : m = 0 ∨ (short = l.id → ∀ k ∈ l.lastKey, Within (C.lower ⊥) k₂ k)) :
    ∀ k ∈ l.lastKey, Within (start A k₁ (C.lower ⊥)) k₂ k := by
  intro k hk
  by_cases hsize : m = 0 ∨ 2 ≤ l.size
  · exact h.ordered.2.1.separated.within_lastKey hsize hk
  · obtain ⟨hm, hl⟩ := not_or.mp hsize
    obtain ⟨hmin, ⟨-, -, hlarge⟩ | ⟨hs, rfl, -⟩⟩ := h.sizes
    · exact absurd (hmin.trans hlarge.le) hl
    · exact hfirst.resolve_left hm hs k hk

/-- **Only the leaves and their parents** are redistributed right, and those only if
the search for the last key comes through the first of the two pages. -/
theorem OneShort.height_of_right (h : OneShort cfg s C id A k₁ l k₂ r B next short)
    (hright : RedistributesRight cfg s next short) :
    m ≤ 1 ∧ (short = l.id → ∀ k ∈ l.lastKey, Within (C.lower ⊥) k₂ k) := by
  obtain ⟨hmin, hsizes⟩ := h.sizes
  have hne := (ne_neighbours h.nodup).1
  cases m with
  | zero =>
    refine ⟨Nat.zero_le 1, fun hs => ?_⟩
    obtain rfl : A = [] :=
      (hsizes.resolve_left (fun hr => hne (hs.symm.trans hr.1))).2.1
    exact h.within (.inl rfl)
  | succ m =>
    obtain ⟨i, cs, rfl⟩ := exists_node l
    obtain ⟨j, ds, rfl⟩ := exists_node r
    obtain ⟨-, hl, hr, -⟩ := h.ordered
    obtain ⟨cs, c, rfl⟩ : ∃ bs c, cs = bs ++ [c] :=
      ⟨_, _, (List.dropLast_concat_getLast (OrderedIn.ne_nil hl)).symm⟩
    obtain ⟨d, ds, rfl⟩ := List.exists_cons_of_ne_nil (OrderedIn.ne_nil hr)
    rcases hsizes with ⟨rfl, -, hlarge⟩ | ⟨rfl, rfl, -, hlarge⟩
    · rw [size_node, List.length_append] at hlarge
      have hcs : cs ≠ [] := by
        rintro rfl
        exact absurd hlarge (not_lt.mpr (Nat.one_le_of_lt hmin))
      obtain rfl := h.height_of_right_last hcs hright
      exact ⟨le_rfl, fun hs => absurd hs.symm hne⟩
    · rw [size_node, List.length_cons] at hlarge
      obtain ⟨d', ds, rfl⟩ : ∃ d' es, ds = d' :: es := by
        refine List.exists_cons_of_ne_nil (fun hc => ?_)
        rw [hc] at hlarge
        exact absurd hlarge (not_lt.mpr (Nat.one_le_of_lt hmin))
      obtain ⟨rfl, hwithin⟩ := h.height_of_right_first hright
      exact ⟨le_rfl, fun _ => hwithin⟩

/-- **The leaves and their parents** are redistributed right. -/
theorem OneShort.redistributesRight (h : OneShort cfg s C id A k₁ l k₂ r B next short)
    (hwhen : RedistributesWhen C k₂ l r B next short) : RedistributesRight cfg s next short := by
  obtain ⟨hm, hfirst, haft⟩ := hwhen
  obtain ⟨last, hlast⟩ := exists_lastKey h.ordered.2.1
  have hwithin := h.within (.inr hfirst) last hlast
  match m, hm with
  | 0, _ =>
    obtain ⟨pre, middle, ls, p, q, qs, hpre, hmiddle, hls, hqs, hp, hq, hnext, -⟩ :=
      h.exists_seam (Nat.zero_le 1) hlast hwithin
    have hl : ([] : List (Leaf PageId K V)) ++ ([l] : List (Leaf PageId K V)) = ls ++ [p] := hls
    have hr : ([r] : List (Leaf PageId K V)) = q :: qs := hqs
    obtain rfl : l = p := (List.cons.inj (List.append_inj' hl rfl).2).1
    obtain rfl : r = q := (List.cons.inj hr).1
    have hvalid := (h.headId_eq hqs).mpr haft
    rw [← hnext] at hvalid
    exact h.right_leaf hlast hpre hmiddle hp hq hvalid
  | 1, _ => exact h.right_inner hlast hwithin haft

/-- **Exactly when `Redistribute` is right.** -/
theorem redistributesRight_iff (h : OneShort cfg s C id A k₁ l k₂ r B next short) :
    RedistributesRight cfg s next short ↔ RedistributesWhen C k₂ l r B next short := by
  refine ⟨fun hright => ?_, h.redistributesRight⟩
  obtain ⟨hm, hfirst⟩ := h.height_of_right hright
  obtain ⟨s', sibling, hstep, -⟩ := hright
  obtain ⟨last, pre, middle, hlast, hpre, hmiddle, hvalid, -⟩ := h.of_step hstep
  obtain ⟨pre', middle', -, -, q, qs, hpre', hmiddle', -, hqs, -, -, hnext, -⟩ :=
    h.exists_seam hm hlast (h.within (.inr hfirst) last hlast)
  obtain rfl : pre = pre' := Option.some.inj (hpre.symm.trans hpre')
  obtain rfl : middle = middle' := Option.some.inj (hmiddle.symm.trans hmiddle')
  rw [hnext] at hvalid
  exact ⟨hm, hfirst, (h.headId_eq hqs).mp hvalid⟩

end Iff

/-! ## Two trees -/

/-- Two parents of leaves, the first of which has one leaf only. -/
def lowTree : PageTree ℕ ℕ 2 := node 8 [
  (0, node 6 [(0, leaf 1 [(1, 10), (2, 20)])]),
  (3, node 7 [(3, leaf 2 [(3, 30), (4, 40)]), (5, leaf 3 [(5, 50), (6, 60)]),
    (7, leaf 4 [(7, 70), (8, 80)]), (9, leaf 5 [(9, 90), (10, 100)])])]

/-- **The first leaf of the second page goes to the first one.** -/
theorem redistributesRight_lowTree :
    RedistributesRight (.above 4 4) (ofTree (.above 4 4) lowTree 0) 0 6 := by
  have h : OneShort (.above 4 4) (ofTree (.above 4 4) lowTree 0) (.hole : Context PageId ℕ ℕ 2 2) 8
      [] 0 (node 6 [(0, leaf 1 [(1, 10), (2, 20)])]) 3 (node 7 [(3, leaf 2 [(3, 30), (4, 40)]),
        (5, leaf 3 [(5, 50), (6, 60)]), (7, leaf 4 [(7, 70), (8, 80)]),
        (9, leaf 5 [(9, 90), (10, 100)])]) [] 0 6 :=
    ⟨⟨rfl, stored_ofTree (by decide) 0, by decide, fun _ hp => hp, by decide, by decide,
      fun _ => le_rfl⟩, by decide, by decide, by decide, by decide⟩
  exact (redistributesRight_iff h).mpr ⟨le_rfl, fun _ => by decide, by decide⟩

/-- The first of two pages that are above the parents of leaves. -/
def highFirst : PageTree ℕ ℕ 2 := node 16 [
  (1, node 11 [(1, leaf 1 [(1, 10), (2, 20)]), (3, leaf 2 [(3, 30), (4, 40)])]),
  (5, node 12 [(5, leaf 3 [(5, 50), (6, 60)]), (7, leaf 4 [(7, 70), (8, 80)])]),
  (9, node 13 [(9, leaf 5 [(9, 90), (10, 100)]), (11, leaf 6 [(11, 110), (12, 120)])]),
  (13, node 14 [(13, leaf 7 [(13, 130), (14, 140)]), (15, leaf 8 [(15, 150), (16, 160)])])]

/-- The second one, which has one child only. -/
def highSecond : PageTree ℕ ℕ 2 := node 17 [
  (17, node 15 [(17, leaf 9 [(17, 170), (18, 180)]), (19, leaf 10 [(19, 190), (20, 200)])])]

/-- The tree of the two. -/
def highTree : PageTree ℕ ℕ 3 := node 18 [(1, highFirst), (17, highSecond)]

/-- **A page above goes to the second page, and a key is lost**: the key before the
page that was there is now that of the second leaf below the one that comes. -/
theorem not_redistributesRight : OneShort (.above 4 4) (ofTree (.above 4 4) highTree 0)
      (.hole : Context PageId ℕ ℕ 3 3) 18 [] 1 highFirst 17 highSecond [] 0 17 ∧
    (ofTree (.above 4 4) highTree 0).getValue 15 = some (some 150) ∧
    ((ofTree (.above 4 4) highTree 0).redistributeWithSibling 17).bind
      (fun r => r.1.getValue 15) = some none ∧
    ¬ RedistributesRight (.above 4 4) (ofTree (.above 4 4) highTree 0) 0 17 := by
  have h : OneShort (.above 4 4) (ofTree (.above 4 4) highTree 0)
      (.hole : Context PageId ℕ ℕ 3 3) 18 [] 1 highFirst 17 highSecond [] 0 17 :=
    ⟨⟨rfl, stored_ofTree (by decide) 0, by decide, fun _ hp => hp, by decide, by decide,
      fun _ => le_rfl⟩, by decide, by decide, by decide, by decide⟩
  have hbefore : (ofTree (.above 4 4) highTree 0).getValue 15 = some (some 150) := by decide
  have hafter : ((ofTree (.above 4 4) highTree 0).redistributeWithSibling 17).bind
      (fun r => r.1.getValue 15) = some none := by decide
  refine ⟨h, hbefore, hafter, ?_⟩
  rintro ⟨s', sibling, hstep, -, hkept, -⟩
  rw [hstep, Option.bind_some, hkept 15, hbefore] at hafter
  cases hafter

end BPlusTree

end MiniSql
