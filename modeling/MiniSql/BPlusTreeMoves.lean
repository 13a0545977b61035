import MiniSql.BPlusTreeMerge

/-!
# Moving an entry or a child to a neighbour

What `Redistribute` writes. Of two neighbours the first one gets the first entry
or child of the second one (`redistribute_first_leaf`, `redistribute_first_inner`),
or the second one gets the last one of the first (`redistribute_last_leaf`,
`redistribute_last_inner`). In all four variants the pages and their parent are
written as the tree says that they should be, with whatever keys are found, so the
store holds the same nodes with the same entries in the same order (`Rewrites`).
If the keys are right the tree is as documented again (`Rewrites.holds`).
-/

namespace MiniSql

variable {K V : Type}

/-- The key at the end of the array of a page. -/
def BPlusTreePage.lastKey : BPlusTreePage K V → Option K
  | leaf p => p.keyAt (p.size - 1)
  | internal p => p.keyAt (p.size - 1)

/-- `MoveLastToFrontOf`, of a leaf with a last entry. -/
theorem LeafPage.moveLastToFrontOf_concat {p : LeafPage K V} (recipient : LeafPage K V)
    {es : List (K × V)} {e : K × V} (h : p.array = es ++ [e]) : p.moveLastToFrontOf recipient =
      some ({ p with array := es }, { recipient with array := e :: recipient.array }) := by
  rw [moveLastToFrontOf, h, List.getLast?_concat, List.dropLast_concat]
  rfl

/-- `MoveLastToFrontOf`, of an inner page with a last child. -/
theorem InternalPage.moveLastToFrontOf_concat {p : InternalPage K} (recipient : InternalPage K)
    {cs : List (K × PageId)} {c : K × PageId} (h : p.array = cs ++ [c]) (middleKey : K) :
    p.moveLastToFrontOf recipient middleKey = some ({ p with array := cs }, { recipient with
      array := c :: recipient.array.modifyHead (fun r => (middleKey, r.2)) }) := by
  rw [moveLastToFrontOf, h, List.getLast?_concat, List.dropLast_concat]
  rfl

namespace BPlusTree

open KeyTree

variable {m n : ℕ} {cfg : TreeConfig} {s s' : BPlusTree K V}
  {pages' : PageId → Option (BPlusTreePage K V)} {id parent next : PageId}
  {A B : List (K × PageTree K V m)} {k₁ k₂ key : K} {l r l' r' : PageTree K V m}

/-! ## Two neighbours in the store -/

section Shape

theorem lastKey_rootPage (cfg : TreeConfig) (parent next : PageId) : {m : ℕ} →
    (t : PageTree K V m) → (rootPage cfg t parent next).lastKey = t.lastKey
  | 0, t => by
    show (Leaf.entries t)[(Leaf.entries t).length - 1]?.map Prod.fst = _
    rw [← List.getLast?_eq_getElem?]
    rfl
  | _ + 1, t => by
    show ((Node.children t).map _)[((Node.children t).map _).length - 1]?.map Prod.fst = _
    rw [← List.getLast?_eq_getElem?, List.getLast?_map, Option.map_map]
    rfl

/-- `GetMinSize`, of a page that is not the root. -/
theorem minSize_rootPage (h : parent ≠ invalidPageId) : {m : ℕ} → (t : PageTree K V m) →
    (rootPage cfg t parent next).minSize = cfg.bounds.min m
  | 0, _ => if_neg (fun hc => h (of_decide_eq_true hc))
  | _ + 1, _ => if_neg (fun hc => h (of_decide_eq_true hc))

/-- `GetMinSize`, of the root. -/
theorem minSize_root : {m : ℕ} → (t : PageTree K V m) →
    (rootPage cfg t invalidPageId next).minSize = cfg.least.min m
  | 0, _ => if_pos (decide_eq_true rfl)
  | _ + 1, _ => if_pos (decide_eq_true rfl)

theorem pages_write_self (t : PageTree K V m) : (s.write (rootPage cfg t parent next)).pages t.id =
    some (rootPage cfg t parent next) := by
  rw [write, pageId_rootPage]
  exact Function.update_self ..

theorem pages_write_of_ne {t : PageTree K V m} {p : PageId} (h : p ≠ t.id) :
    (s.write (rootPage cfg t parent next)).pages p = s.pages p := by
  rw [write, pageId_rootPage]
  exact Function.update_of_ne h ..

/-- Two pages may be written in either order. -/
theorem write_comm {p q : BPlusTreePage K V} (h : p.pageId ≠ q.pageId) :
    (s.write p).write q = (s.write q).write p := by
  have hpages : ((s.write p).write q).pages = ((s.write q).write p).pages :=
    Function.update_comm h ..
  exact congrArg (fun pages => BPlusTree.mk s.rootPageId pages s.allocated) hpages

/-- The nodes below a page with two neighbours are distinct. -/
theorem nodup_pair (h : (node id (A ++ (k₁, l) :: (k₂, r) :: B)).ids.Nodup) :
    id ∉ l.ids ∧ id ∉ r.ids ∧ (l.ids ++ r.ids).Nodup ∧
      ∀ p, p ∈ idsIn A ∨ p ∈ idsIn B → p ≠ id ∧ p ∉ l.ids ++ r.ids := by
  rw [ids_node, idsIn_append, idsIn_cons, idsIn_cons, ← List.append_assoc l.ids] at h
  obtain ⟨hid, hcs⟩ := List.nodup_cons.mp h
  obtain ⟨-, hrest, hA⟩ := List.nodup_append.mp hcs
  obtain ⟨hpair, -, hB⟩ := List.nodup_append.mp hrest
  rw [List.mem_append, List.mem_append, List.mem_append, not_or, not_or, not_or] at hid
  refine ⟨hid.2.1.1, hid.2.1.2, hpair, fun p hp => hp.elim (fun hp => ⟨?_, ?_⟩)
    (fun hp => ⟨?_, ?_⟩)⟩
  · exact fun e => hid.1 (e ▸ hp)
  · exact fun hc => hA p hp p (List.mem_append_left _ hc) rfl
  · exact fun e => hid.2.2 (e ▸ hp)
  · exact fun hc => hB p hc p hp rfl

/-- The parent of two neighbours. -/
theorem Stored.fetch_pair
    (h : Stored cfg s.pages (node id (A ++ (k₁, l) :: (k₂, r) :: B)) parent next)
    (hnodup : (node id (A ++ (k₁, l) :: (k₂, r) :: B)).ids.Nodup) :
    ∃ p : InternalPage K, s.fetchInternal id = some p ∧
      (findSibling p r.id = some (l.id, false) ∧ p.valueIndex r.id = some (A.length + 1)) ∧
      (A = [] → findSibling p l.id = some (r.id, true) ∧ p.valueIndex l.id = some 0) ∧
      ∀ (key : K) (l' r' : PageTree K V m), l'.id = l.id → r'.id = r.id →
        p.setKeyAt (A.length + 1) key = some ⟨id, parent, cfg.internalMaxSize,
          (A ++ (k₁, l') :: (key, r') :: B).map (fun c => (c.1, c.2.id))⟩ := by
  have happ : ∀ c : K × PageTree K V m, A ++ (k₁, l) :: c :: B = (A ++ [(k₁, l)]) ++ c :: B :=
    fun c => (List.append_assoc A [(k₁, l)] _).symm
  have hcs : (idsIn (A ++ (k₁, l) :: (k₂, r) :: B)).Nodup := (List.nodup_cons.mp hnodup).2
  obtain ⟨p, hp⟩ : ∃ p : InternalPage K, p = ⟨id, parent, cfg.internalMaxSize,
    (A ++ (k₁, l) :: (k₂, r) :: B).map (fun c => (c.1, c.2.id))⟩ := ⟨_, rfl⟩
  have harray : p.array = (A ++ (k₁, l) :: (k₂, r) :: B).map (fun c => (c.1, c.2.id)) := hp ▸ rfl
  have hlength : (A ++ [(k₁, l)]).length = A.length + 1 := List.length_append
  obtain ⟨hright, hleft⟩ := findSibling_neighbour harray hcs
  have hindexl := valueIndex_child harray hcs
  have hindexr := valueIndex_child (happ _ ▸ harray) (happ _ ▸ hcs)
  have hset := fun key => setKeyAt_child (happ _ ▸ harray) key
  rw [hlength] at hindexr hset
  refine ⟨p, hp ▸ h.fetchInternal, ⟨hright, hindexr⟩, fun hA => ⟨hleft hA, ?_⟩,
    fun key l' r' hl hr => ?_⟩
  · rw [hindexl, hA]
    rfl
  · rw [hset key, hp, ← happ (key, r)]
    simp only [List.map_append, List.map_cons, hl, hr]

/-- Two neighbours and their parent, written: first the parent, then the second
one, then the first one. -/
def writePair (cfg : TreeConfig) (s : BPlusTree K V) (id parent next : PageId)
    (A : List (K × PageTree K V m)) (k₁ : K) (l : PageTree K V m) (key : K) (r : PageTree K V m)
    (B : List (K × PageTree K V m)) : BPlusTree K V :=
  ((s.write (rootPage cfg (node id (A ++ (k₁, l) :: (key, r) :: B)) parent next)).write
    (rootPage cfg r id (firstOf B next))).write (rootPage cfg l id r.first)

variable (cfg) in
/-- The pages that are written. -/
theorem pages_writePair (hnodup : (node id (A ++ (k₁, l) :: (k₂, r) :: B)).ids.Nodup)
    (hl : l'.id = l.id) (hr : r'.id = r.id) :
    (writePair cfg s id parent next A k₁ l' key r' B).pages id =
        some (rootPage cfg (node id (A ++ (k₁, l') :: (key, r') :: B)) parent next) ∧
      (writePair cfg s id parent next A k₁ l' key r' B).pages l.id =
        some (rootPage cfg l' id r'.first) ∧
      (writePair cfg s id parent next A k₁ l' key r' B).pages r.id =
        some (rootPage cfg r' id (firstOf B next)) ∧
      ∀ p, p ≠ id → p ≠ l.id → p ≠ r.id →
        (writePair cfg s id parent next A k₁ l' key r' B).pages p = s.pages p := by
  obtain ⟨hidl, hidr, -, -⟩ := nodup_pair hnodup
  have hil : id ≠ l.id := fun hc => hidl (hc ▸ l.id_mem_ids)
  have hir : id ≠ r.id := fun hc => hidr (hc ▸ r.id_mem_ids)
  have hlr : r.id ≠ l.id := (ne_neighbours hnodup).1.symm
  unfold writePair write
  simp only [pageId_rootPage, id_node, hl, hr]
  refine ⟨?_, Function.update_self .., ?_, fun p hp hpl hpr => ?_⟩
  · rw [Function.update_of_ne hil, Function.update_of_ne hir, Function.update_self]
  · rw [Function.update_of_ne hlr, Function.update_self]
  · rw [Function.update_of_ne hpl, Function.update_of_ne hpr, Function.update_of_ne hp]

end Shape

/-! ## What is written -/

section Writes

variable [LinearOrder K] {i j : PageId} {last : K} {pre middle aft : LeafPage K V}

/-- **`CoalesceOrRedistribute` of two neighbours that do not fit in one page** is
`Redistribute`, for the second of the two and for the first one if there is none before it. -/
theorem coalesceOrRedistribute_eq_redistribute
    (h : Stored cfg s.pages (node id (A ++ (k₁, l) :: (k₂, r) :: B)) parent next)
    (hnodup : (node id (A ++ (k₁, l) :: (k₂, r) :: B)).ids.Nodup) (hid : id ≠ invalidPageId)
    (hfull : cfg.bounds.max m < l.size + r.size) (rounds : ℕ) :
    coalesceOrRedistribute (rounds + 1) s r.id = s.redistribute (rootPage cfg l id r.first)
        (rootPage cfg r id (firstOf B next)) (A.length + 1) ∧
      (A = [] → coalesceOrRedistribute (rounds + 1) s l.id =
        s.redistribute (rootPage cfg r id (firstOf B next)) (rootPage cfg l id r.first) 0) := by
  obtain ⟨p, hp, ⟨hsibr, hindexr⟩, hleft, -⟩ := h.fetch_pair hnodup
  obtain ⟨-, hl, hr, -⟩ := storedIn_append.mp (stored_node.mp h).2
  have hchild : ∀ (t : PageTree K V m) (next : PageId),
      (rootPage cfg t id next).isRootPage = false := fun t next =>
    decide_eq_false (fun hc => hid ((parentPageId_rootPage t).symm.trans hc))
  refine ⟨?_, fun hA => ?_⟩
  · rw [coalesceOrRedistribute]
    simp only [Option.bind_eq_bind]
    rw [hr.root, Option.bind_some, hchild, if_neg Bool.false_ne_true, parentPageId_rootPage, hp,
      Option.bind_some, hsibr, Option.bind_some, hl.root, Option.bind_some, size_rootPage,
      size_rootPage, maxSize_rootPage, Nat.add_comm, if_neg (not_le.mpr hfull), hindexr]
    rfl
  · obtain ⟨hsibl, hindexl⟩ := hleft hA
    rw [coalesceOrRedistribute]
    simp only [Option.bind_eq_bind]
    rw [hl.root, Option.bind_some, hchild, if_neg Bool.false_ne_true, parentPageId_rootPage, hp,
      Option.bind_some, hsibl, Option.bind_some, hr.root, Option.bind_some, size_rootPage,
      size_rootPage, maxSize_rootPage, if_neg (not_le.mpr hfull), hindexl]
    rfl

/-- **What a redistribution that ends has found.** -/
theorem exists_of_redistribute {neighbor node : BPlusTreePage K V} {index : ℕ}
    (h : s.redistribute neighbor node index = some s') :
    ∃ last pre, (if index = 0 then node else neighbor).lastKey = some last ∧
      s.findLeafPage last false = some pre ∧ ((index = 0 ∨ ∃ p, node = .internal p) →
        ∃ middle, s.fetchLeaf pre.nextPageId = some middle) := by
  cases neighbor <;> cases node
  case leaf.leaf p q =>
    have h : s.redistributeLeaf p q index = some s' := h
    unfold redistributeLeaf at h
    split at h
    · rename_i hindex
      obtain ⟨last, hlast, h⟩ := Option.bind_eq_some_iff.mp h
      obtain ⟨pre, hpre, h⟩ := Option.bind_eq_some_iff.mp h
      obtain ⟨middle, hmiddle, -⟩ := Option.bind_eq_some_iff.mp h
      exact ⟨last, pre, by rwa [if_pos hindex], hpre, fun _ => ⟨middle, hmiddle⟩⟩
    · rename_i hindex
      obtain ⟨last, hlast, h⟩ := Option.bind_eq_some_iff.mp h
      obtain ⟨pre, hpre, -⟩ := Option.bind_eq_some_iff.mp h
      refine ⟨last, pre, by rwa [if_neg hindex], hpre, fun hor => ?_⟩
      obtain ⟨p, hp⟩ := hor.resolve_left hindex
      cases hp
  case internal.internal p q =>
    have h : s.redistributeInternal p q index = some s' := h
    unfold redistributeInternal at h
    split at h <;> rename_i hindex
    all_goals
      obtain ⟨last, hlast, h⟩ := Option.bind_eq_some_iff.mp h
      obtain ⟨pre, hpre, h⟩ := Option.bind_eq_some_iff.mp h
      obtain ⟨middle, hmiddle, -⟩ := Option.bind_eq_some_iff.mp h
    · exact ⟨last, pre, by rwa [if_pos hindex], hpre, fun _ => ⟨middle, hmiddle⟩⟩
    · exact ⟨last, pre, by rwa [if_neg hindex], hpre, fun _ => ⟨middle, hmiddle⟩⟩
  case leaf.internal => cases h
  case internal.leaf => cases h

section Leaves

variable {A B : List (K × PageTree K V 0)} {es fs : List (K × V)} {e : K × V}

/-- The first entry of the second of two leaves goes to the first one. -/
theorem redistribute_first_leaf
    (h : Stored cfg s.pages (node id (A ++ (k₁, leaf i es) :: (k₂, leaf j (e :: fs)) :: B)) parent
      next)
    (hnodup : (node id (A ++ (k₁, leaf i es) :: (k₂, leaf j (e :: fs)) :: B)).ids.Nodup)
    (hlast : (leaf i es : PageTree K V 0).lastKey = some last)
    (hpre : s.findLeafPage last false = some pre)
    (hmiddle : s.fetchLeaf pre.nextPageId = some middle) :
    s.redistribute (rootPage cfg (leaf j (e :: fs)) id (firstOf B next))
        (rootPage cfg (leaf i es) id j) 0 = (middle.keyAt 1).map (fun key =>
      writePair cfg s id parent next A k₁ (leaf i (es ++ [e])) key (leaf j fs) B) := by
  obtain ⟨p, hp, ⟨-, hindex⟩, -, hset⟩ := h.fetch_pair hnodup
  have hindex : p.valueIndex j = some (A.length + 1) := hindex
  have hlast' : (⟨i, id, j, cfg.leafMaxSize, es⟩ : LeafPage K V).keyAt
      ((⟨i, id, j, cfg.leafMaxSize, es⟩ : LeafPage K V).size - 1) = some last := by
    rw [← hlast, ← lastKey_rootPage cfg id j]
    rfl
  show s.redistributeLeaf ⟨j, id, firstOf B next, cfg.leafMaxSize, e :: fs⟩
    ⟨i, id, j, cfg.leafMaxSize, es⟩ 0 = _
  unfold redistributeLeaf
  rw [if_pos rfl]
  simp only [Option.bind_eq_bind]
  rw [hlast', Option.bind_some, hpre, Option.bind_some, hmiddle, Option.bind_some, hp,
    Option.map_eq_bind]
  refine congrArg (Option.bind (middle.keyAt 1)) (funext fun key => ?_)
  rw [Option.bind_some, hindex, Option.bind_some, hset key (leaf i (es ++ [e])) (leaf j fs) rfl rfl]
  rfl

/-- The last entry of the first of two leaves goes to the second one. -/
theorem redistribute_last_leaf
    (h : Stored cfg s.pages (node id (A ++ (k₁, leaf i (es ++ [e])) :: (k₂, leaf j fs) :: B)) parent
      next)
    (hnodup : (node id (A ++ (k₁, leaf i (es ++ [e])) :: (k₂, leaf j fs) :: B)).ids.Nodup)
    (hlast : (leaf i (es ++ [e]) : PageTree K V 0).lastKey = some last)
    (hpre : s.findLeafPage last false = some pre) :
    s.redistribute (rootPage cfg (leaf i (es ++ [e])) id j)
        (rootPage cfg (leaf j fs) id (firstOf B next)) (A.length + 1) =
      (pre.keyAt (pre.size - 1)).map (fun key =>
        writePair cfg s id parent next A k₁ (leaf i es) key (leaf j (e :: fs)) B) := by
  obtain ⟨p, hp, ⟨-, hindex⟩, -, hset⟩ := h.fetch_pair hnodup
  obtain ⟨-, -, hpair, -⟩ := nodup_pair hnodup
  have hij : i ≠ j := fun hc => (List.nodup_cons.mp hpair).1 (hc ▸ List.mem_cons_self)
  have hindex : p.valueIndex j = some (A.length + 1) := hindex
  have hlast' : (⟨i, id, j, cfg.leafMaxSize, es ++ [e]⟩ : LeafPage K V).keyAt
      ((⟨i, id, j, cfg.leafMaxSize, es ++ [e]⟩ : LeafPage K V).size - 1) = some last := by
    rw [← hlast, ← lastKey_rootPage cfg id j]
    rfl
  have hmove := LeafPage.moveLastToFrontOf_concat (p := ⟨i, id, j, cfg.leafMaxSize, es ++ [e]⟩)
    ⟨j, id, firstOf B next, cfg.leafMaxSize, fs⟩ rfl
  show s.redistributeLeaf ⟨i, id, j, cfg.leafMaxSize, es ++ [e]⟩
    ⟨j, id, firstOf B next, cfg.leafMaxSize, fs⟩ (A.length + 1) = _
  unfold redistributeLeaf
  rw [if_neg (Nat.succ_ne_zero _)]
  simp only [Option.bind_eq_bind]
  rw [hlast', Option.bind_some, hpre, Option.bind_some, hp,
    Option.map_eq_bind]
  refine congrArg (Option.bind (pre.keyAt (pre.size - 1))) (funext fun key => ?_)
  rw [Option.bind_some, hindex, Option.bind_some, hset key (leaf i es) (leaf j (e :: fs)) rfl rfl,
    Option.bind_some, hmove, Option.bind_some]
  exact congrArg some (write_comm hij)

end Leaves

section Inner

variable {A B : List (K × PageTree K V (m + 1))} {cs ds : List (K × PageTree K V m)}
  {c d d' : K × PageTree K V m}

omit [LinearOrder K] in
/-- The page with one more child at its end. -/
theorem rootPage_concat : rootPage (V := V) cfg (node i (cs ++ [c])) parent next =
    .internal ⟨i, parent, cfg.internalMaxSize,
      cs.map (fun c => (c.1, c.2.id)) ++ [(c.1, c.2.id)]⟩ := by
  show BPlusTreePage.internal ⟨i, parent, cfg.internalMaxSize, (cs ++ [c]).map _⟩ = _
  rw [List.map_append]
  rfl

omit [LinearOrder K] in
/-- A child below one of the two neighbours gets another parent. -/
theorem setParent_writePair {l r l' r' : PageTree K V (m + 1)}
    (hnodup : (node id (A ++ (k₁, l) :: (k₂, r) :: B)).ids.Nodup) (hl : l'.id = l.id)
    (hr : r'.id = r.id) {t : PageTree K V m} (ht : ∀ p ∈ t.ids, p ∈ l.below ++ r.below)
    {old nextOld : PageId} (h : Stored cfg s.pages t old nextOld) (new : PageId) :
    (writePair cfg s id parent next A k₁ l' key r' B).setParent new t.id =
      some ((writePair cfg s id parent next A k₁ l' key r' B).write
        (rootPage cfg t new nextOld)) := by
  obtain ⟨hidl, hidr, -, -⟩ := nodup_pair hnodup
  obtain ⟨-, -, -, hsame⟩ := pages_writePair cfg hnodup hl hr
  have hothers := fun p hp => (ne_neighbours hnodup).2 p (.inr (.inl (ht p hp)))
  refine Stored.setParent (h.congr (fun p hp => hsame p ?_ (hothers p hp).1 (hothers p hp).2)) new
  rintro rfl
  exact (List.mem_append.mp (ht p hp)).elim (fun hp => hidl (mem_ids_of_mem_below hp))
    (fun hp => hidr (mem_ids_of_mem_below hp))

/-- The first child of the second of two inner pages goes to the first one. -/
theorem redistribute_first_inner
    (h : Stored cfg s.pages (node id (A ++ (k₁, node i cs) :: (k₂, node j (d :: d' :: ds)) :: B))
      parent next)
    (hnodup : (node id (A ++ (k₁, node i cs) :: (k₂, node j (d :: d' :: ds)) :: B)).ids.Nodup)
    (hlast : (node i cs).lastKey = some last) (hpre : s.findLeafPage last false = some pre)
    (hmiddle : s.fetchLeaf pre.nextPageId = some middle) :
    s.redistribute (rootPage cfg (node j (d :: d' :: ds)) id (firstOf B next))
        (rootPage cfg (node i cs) id d.2.first) 0 =
      (s.fetchLeaf middle.nextPageId).bind (fun aft => (middle.keyAt 0).bind (fun mid =>
        (aft.keyAt 0).map (fun key => (writePair cfg s id parent next A k₁
          (node i (cs ++ [(mid, d.2)])) key (node j (d' :: ds)) B).write
            (rootPage cfg d.2 i d'.2.first)))) := by
  obtain ⟨p, hp, ⟨-, hindex⟩, -, hset⟩ := h.fetch_pair hnodup
  have hindex : p.valueIndex j = some (A.length + 1) := hindex
  obtain ⟨-, -, hr, -⟩ := storedIn_append.mp (stored_node.mp h).2
  have hd : Stored cfg s.pages d.2 j d'.2.first := hr.2.1
  have hbelow : ∀ p ∈ d.2.ids, p ∈ (node i cs).below ++ (node j (d :: d' :: ds)).below :=
    fun p hp => List.mem_append_right _ (List.mem_append_left _ hp)
  obtain ⟨q, hq⟩ : ∃ q : InternalPage K, q = ⟨i, id, cfg.internalMaxSize,
    cs.map (fun c => (c.1, c.2.id))⟩ := ⟨_, rfl⟩
  have hlast' : q.keyAt (q.size - 1) = some last := by
    rw [← hlast, ← lastKey_rootPage cfg id j, hq]
    rfl
  have hmove : ∀ mid, (⟨j, id, cfg.internalMaxSize, (d :: d' :: ds).map (fun c => (c.1, c.2.id))⟩ :
      InternalPage K).moveFirstToEndOf q mid = some (⟨j, id, cfg.internalMaxSize,
        (d' :: ds).map (fun c => (c.1, c.2.id))⟩, { q with array := q.array ++ [(mid, d.2.id)] }) :=
    fun _ => rfl
  have hpage : ∀ mid, BPlusTreePage.internal { q with array := q.array ++ [(mid, d.2.id)] } =
      rootPage (V := V) cfg (node i (cs ++ [(mid, d.2)])) id d'.2.first := fun mid => by
    rw [rootPage_concat, hq]
  have hchild : (⟨j, id, cfg.internalMaxSize, (d :: d' :: ds).map (fun c => (c.1, c.2.id))⟩ :
      InternalPage K).valueAt 0 = some d.2.id := rfl
  have hid : q.pageId = i := hq ▸ rfl
  show s.redistributeInternal ⟨j, id, cfg.internalMaxSize, (d :: d' :: ds).map _⟩
    ⟨i, id, cfg.internalMaxSize, cs.map _⟩ 0 = _
  rw [← hq]
  unfold redistributeInternal
  rw [if_pos rfl]
  simp only [Option.bind_eq_bind]
  rw [hlast', Option.bind_some, hpre, Option.bind_some, hmiddle, Option.bind_some]
  refine congrArg (Option.bind _)
    (funext fun aft => congrArg (Option.bind _) (funext fun mid => ?_))
  have hparent : q.parentPageId = id := hq ▸ rfl
  rw [hparent, hp, Option.bind_some, Option.map_eq_bind]
  refine congrArg (Option.bind _) (funext fun key => ?_)
  rw [hindex, Option.bind_some,
    hset key (node i (cs ++ [(mid, d.2)])) (node j (d' :: ds)) rfl rfl, Option.bind_some, hchild,
    Option.bind_some, hmove, Option.bind_some, hpage, hid]
  have hadopt : (writePair cfg s id parent next A k₁ (node i (cs ++ [(mid, d.2)])) key
      (node j (d' :: ds)) B).setParent i d.2.id = some ((writePair cfg s id parent next A k₁
        (node i (cs ++ [(mid, d.2)])) key (node j (d' :: ds)) B).write
          (rootPage cfg d.2 i d'.2.first)) :=
    setParent_writePair hnodup (id_node.trans id_node.symm) (id_node.trans id_node.symm) hbelow hd i
  exact hadopt

/-- The last child of the first of two inner pages goes to the second one. -/
theorem redistribute_last_inner
    (h : Stored cfg s.pages (node id (A ++ (k₁, node i (cs ++ [c])) :: (k₂, node j (d :: ds)) :: B))
      parent next)
    (hnodup : (node id (A ++ (k₁, node i (cs ++ [c])) :: (k₂, node j (d :: ds)) :: B)).ids.Nodup)
    (hlast : (node i (cs ++ [c])).lastKey = some last) (hpre : s.findLeafPage last false = some pre)
    (hmiddle : s.fetchLeaf pre.nextPageId = some middle) :
    s.redistribute (rootPage cfg (node i (cs ++ [c])) id d.2.first)
        (rootPage cfg (node j (d :: ds)) id (firstOf B next)) (A.length + 1) =
      (middle.keyAt 0).bind (fun mid => (pre.keyAt 0).map (fun key =>
        (writePair cfg s id parent next A k₁ (node i cs) key
          (node j (c :: (mid, d.2) :: ds)) B).write (rootPage cfg c.2 j d.2.first))) := by
  obtain ⟨p, hp, ⟨-, hindex⟩, -, hset⟩ := h.fetch_pair hnodup
  obtain ⟨-, -, hpair, -⟩ := nodup_pair hnodup
  have hij : i ≠ j := fun hc => (List.nodup_cons.mp hpair).1
    (hc ▸ List.mem_append_right _ List.mem_cons_self)
  have hindex : p.valueIndex j = some (A.length + 1) := hindex
  obtain ⟨-, hl, -, -⟩ := storedIn_append.mp (stored_node.mp h).2
  have hc : Stored cfg s.pages c.2 i d.2.first := (storedIn_append.mp hl.2).2.1
  have hbelow : ∀ p ∈ c.2.ids, p ∈ (node i (cs ++ [c])).below ++ (node j (d :: ds)).below :=
    fun p hp => by
      rw [below_node, idsIn_append]
      exact List.mem_append_left _ (List.mem_append_right _ (List.mem_append_left _ hp))
  obtain ⟨q, hq⟩ : ∃ q : InternalPage K, q = ⟨i, id, cfg.internalMaxSize,
    (cs ++ [c]).map (fun c => (c.1, c.2.id))⟩ := ⟨_, rfl⟩
  have hlast' : q.keyAt (q.size - 1) = some last := by
    rw [← hlast, ← lastKey_rootPage cfg id j, hq]
    rfl
  have hsize : q.size - 1 = cs.length := by
    rw [hq, InternalPage.size, List.length_map, List.length_append]
    rfl
  have harray : q.array = (cs ++ [c]).map (fun c => (c.1, c.2.id)) := by rw [hq]
  have hchild : q.valueAt (q.size - 1) = some c.2.id := by
    rw [hsize]
    exact valueAt_child harray
  have hmove := InternalPage.moveLastToFrontOf_concat ⟨j, id, cfg.internalMaxSize,
    (d :: ds).map (fun c => (c.1, c.2.id))⟩ (harray.trans List.map_append)
  show s.redistributeInternal ⟨i, id, cfg.internalMaxSize, (cs ++ [c]).map _⟩
    ⟨j, id, cfg.internalMaxSize, (d :: ds).map _⟩ (A.length + 1) = _
  rw [← hq]
  unfold redistributeInternal
  rw [if_neg (Nat.succ_ne_zero _)]
  simp only [Option.bind_eq_bind]
  rw [hlast', Option.bind_some, hpre, Option.bind_some, hmiddle, Option.bind_some]
  refine congrArg (Option.bind _) (funext fun mid => ?_)
  rw [hp, Option.bind_some, Option.map_eq_bind]
  refine congrArg (Option.bind _) (funext fun key => ?_)
  rw [hindex, Option.bind_some,
    hset key (node i cs) (node j (c :: (mid, d.2) :: ds)) rfl rfl, Option.bind_some, hchild,
    Option.bind_some, hmove mid, Option.bind_some]
  have hadopt : (writePair cfg s id parent next A k₁ (node i cs) key
      (node j (c :: (mid, d.2) :: ds)) B).setParent j c.2.id = some ((writePair cfg s id parent next
        A k₁ (node i cs) key (node j (c :: (mid, d.2) :: ds)) B).write
          (rootPage cfg c.2 j d.2.first)) :=
    setParent_writePair hnodup (id_node.trans id_node.symm) (id_node.trans id_node.symm) hbelow hc j
  have hpages : (rootPage cfg (node j (c :: (mid, d.2) :: ds)) id (firstOf B next)).pageId ≠
      (rootPage cfg (node i cs) id c.2.first).pageId := by
    rw [pageId_rootPage, pageId_rootPage]
    exact hij.symm
  refine Eq.trans ?_ hadopt
  rw [writePair, first_node_cons, write_comm hpages, hq]
  rfl

end Inner

end Writes

/-! ## The tree afterwards -/

/-- A subtree of the store is written anew, with the same nodes and entries. -/
structure Rewrites (cfg : TreeConfig) (s s' : BPlusTree K V) (t t' : PageTree K V m)
    (parent next : PageId) : Prop where
  stored : Stored cfg s'.pages t' parent next
  same : ∀ p ∉ t.ids, s'.pages p = s.pages p
  allocated : s'.allocated = s.allocated
  root : s'.rootPageId = s.rootPageId
  ids : t'.ids.Perm t.ids
  id : t'.id = t.id
  first : t'.first = t.first
  size : t'.size = t.size
  entries : t'.entries = t.entries

section Rewrites

variable {C : Context PageId K V m n} {t t' : PageTree K V m}

/-- The subtree in the whole tree. -/
theorem Rewrites.fill (h : Rewrites cfg s s' t t' (holeParent C parent) (holeNext C next))
    (hstored : Stored cfg s.pages (C.fill t) parent next) (hnodup : (C.fill t).ids.Nodup) :
    Stored cfg s'.pages (C.fill t') parent next :=
  Stored.refill h.id h.first hstored
    (fun p hp => h.same p ((C.nodup_fill.mp hnodup).2.2 p hp)) h.stored

variable [LinearOrder K]

/-- **The tree is as documented again**, if the subtree is in order between its
bounds. -/
theorem Rewrites.holds (h : Rewrites cfg s s' t t' (holeParent C invalidPageId) (holeNext C next))
    (ht : Holds cfg s (C.fill t) next) (hord : Ordered t' (C.lower ⊥) (C.upper ⊤)) :
    Holds cfg s' (C.fill t') next := by
  have hids : (C.fill t').ids.Perm (C.fill t).ids :=
    C.ids_fill.trans ((h.ids.append_left C.ids).trans C.ids_fill.symm)
  refine ⟨?_, h.fill ht.stored ht.nodup, hids.nodup_iff.mpr ht.nodup, fun p hp => ?_,
    fun hp => ht.valid (hids.mem_iff.mp hp), ht.ordered.refill hord, fun hn => ?_⟩
  · rw [C.id_fill h.id, h.root]
    exact ht.root
  · rw [h.allocated]
    exact ht.allocated p (hids.mem_iff.mp hp)
  · rw [C.size_fill h.size]
    exact ht.branching hn

/-- **Every key is found as before.** -/
theorem Rewrites.getValue_eq
    (h : Rewrites cfg s s' t t' (holeParent C invalidPageId) (holeNext C next))
    (ht : Holds cfg s (C.fill t) next) (hord : Ordered t' (C.lower ⊥) (C.upper ⊤)) (key : K) :
    s'.getValue key = s.getValue key := by
  refine ht.getValue_eq (h.holds ht hord) ?_ key
  rw [C.entries_fill, C.entries_fill, h.entries]

end Rewrites

/-- **Other neighbours in their place**, with another key between them and the same
nodes and entries. -/
theorem rewrites_pair
    (h : Stored cfg s.pages (node id (A ++ (k₁, l) :: (k₂, r) :: B)) parent next)
    (hnodup : (node id (A ++ (k₁, l) :: (k₂, r) :: B)).ids.Nodup)
    (hpage : s'.pages id =
      some (rootPage cfg (node id (A ++ (k₁, l') :: (key, r') :: B)) parent next))
    (hl : Stored cfg s'.pages l' id r'.first) (hr : Stored cfg s'.pages r' id (firstOf B next))
    (hsame : ∀ p, p ≠ id → p ∉ l.ids ++ r.ids → s'.pages p = s.pages p)
    (halloc : s'.allocated = s.allocated) (hroot : s'.rootPageId = s.rootPageId)
    (hids : (l'.ids ++ r'.ids).Perm (l.ids ++ r.ids)) (hfirst : l'.first = l.first)
    (hentries : l'.entries ++ r'.entries = l.entries ++ r.entries) :
    Rewrites cfg s s' (node id (A ++ (k₁, l) :: (k₂, r) :: B))
      (node id (A ++ (k₁, l') :: (key, r') :: B)) parent next := by
  obtain ⟨-, -, -, hothers⟩ := nodup_pair hnodup
  obtain ⟨hA, -, -, hB⟩ := storedIn_append.mp (stored_node.mp h).2
  refine ⟨stored_node.mpr ⟨hpage, storedIn_append.mpr ⟨?_, hl, hr, ?_⟩⟩, fun p hp => ?_, halloc,
    hroot, ?_, rfl, ?_, ?_, ?_⟩
  · have hstored := StoredUnder.congr hA (fun p hp =>
      hsame p (hothers p (.inl hp)).1 (hothers p (.inl hp)).2)
    have hfirst' : firstOf ((k₁, l') :: (key, r') :: B) next =
        firstOf ((k₁, l) :: (k₂, r) :: B) next := hfirst
    rw [hfirst']
    exact hstored
  · exact StoredUnder.congr hB (fun p hp =>
      hsame p (hothers p (.inr hp)).1 (hothers p (.inr hp)).2)
  · rw [ids_node, idsIn_append, idsIn_cons, idsIn_cons, ← List.append_assoc l.ids] at hp
    refine hsame p (fun hc => hp (hc ▸ List.mem_cons_self)) (fun hc => hp ?_)
    exact List.mem_cons_of_mem _ (List.mem_append_right _ (List.mem_append_left _ hc))
  · simp only [ids_node, idsIn_append, idsIn_cons]
    rw [← List.append_assoc l'.ids, ← List.append_assoc l.ids]
    exact (hids.append_right _).append_left _ |>.cons id
  · cases A with
    | nil => exact hfirst
    | cons a A => rfl
  · rw [size_node, size_node, List.length_append, List.length_append]
    rfl
  · simp only [entries_node, List.flatMap_append, List.flatMap_cons]
    rw [← List.append_assoc l'.entries, hentries, List.append_assoc]

section Moves

variable {i j : PageId}

section Leaves

variable {A B : List (K × PageTree K V 0)} {es fs es' fs' : List (K × V)}

/-- Two leaves that are written with the same entries. -/
theorem rewrites_writePair_leaf
    (h : Stored cfg s.pages (node id (A ++ (k₁, leaf i es) :: (k₂, leaf j fs) :: B)) parent next)
    (hnodup : (node id (A ++ (k₁, leaf i es) :: (k₂, leaf j fs) :: B)).ids.Nodup)
    (hentries : es' ++ fs' = es ++ fs) :
    Rewrites cfg s (writePair cfg s id parent next A k₁ (leaf i es') key (leaf j fs') B)
      (node id (A ++ (k₁, leaf i es) :: (k₂, leaf j fs) :: B))
      (node id (A ++ (k₁, leaf i es') :: (key, leaf j fs') :: B)) parent next := by
  have hi : (leaf i es' : PageTree K V 0).id = (leaf i es : PageTree K V 0).id := rfl
  have hj : (leaf j fs' : PageTree K V 0).id = (leaf j fs : PageTree K V 0).id := rfl
  obtain ⟨hpage, hl, hr, hsame⟩ := pages_writePair cfg hnodup hi hj
  refine rewrites_pair h hnodup hpage hl hr (fun p hp hpp => ?_) rfl rfl (List.Perm.refl _) rfl
    hentries
  exact hsame p hp (fun hc => hpp (hc ▸ List.mem_append_left _ List.mem_cons_self))
    (fun hc => hpp (hc ▸ List.mem_append_right _ List.mem_cons_self))

end Leaves

section Inner

variable {A B : List (K × PageTree K V (m + 1))} {cs ds : List (K × PageTree K V m)}
  {c d d' : K × PageTree K V m}

/-- A child of one of two pages gets another parent after they have been written, and
what is below the two pages otherwise stays as it is. -/
theorem pages_write_child {l r l' r' : PageTree K V (m + 1)} {x : PageTree K V m}
    (hnodup : (node id (A ++ (k₁, l) :: (k₂, r) :: B)).ids.Nodup)
    (hl : l'.id = l.id) (hr : r'.id = r.id) (hx : x.id ∈ l.below ++ r.below)
    (new nextNew : PageId) :
    let s' := (writePair cfg s id parent next A k₁ l' key r' B).write (rootPage cfg x new nextNew)
    s'.pages id = some (rootPage cfg (node id (A ++ (k₁, l') :: (key, r') :: B)) parent next) ∧
      s'.pages l.id = some (rootPage cfg l' id r'.first) ∧
      s'.pages r.id = some (rootPage cfg r' id (firstOf B next)) ∧
      s'.pages x.id = some (rootPage cfg x new nextNew) ∧
      (∀ p ∈ l.below ++ r.below, p ≠ x.id → s'.pages p = s.pages p) ∧
      ∀ p, p ≠ id → p ∉ l.ids ++ r.ids → s'.pages p = s.pages p := by
  obtain ⟨hidl, hidr, -, -⟩ := nodup_pair hnodup
  have hids : ∀ p ∈ l.below ++ r.below, p ∈ l.ids ++ r.ids := fun p hp =>
    List.mem_append.mpr ((List.mem_append.mp hp).imp mem_ids_of_mem_below mem_ids_of_mem_below)
  have hbelow : ∀ p ∈ l.below ++ r.below, p ≠ id ∧ p ≠ l.id ∧ p ≠ r.id := fun p hp => by
    refine ⟨?_, (ne_neighbours hnodup).2 p (.inr (.inl hp))⟩
    rintro rfl
    exact (List.mem_append.mp (hids p hp)).elim hidl hidr
  obtain ⟨hpage, hpl, hpr, hsame⟩ := pages_writePair cfg hnodup hl hr
  obtain ⟨hxid, hxl, hxr⟩ := hbelow x.id hx
  refine ⟨?_, ?_, ?_, pages_write_self x, fun p hp hpx => ?_, fun p hp hpp => ?_⟩
  · rw [pages_write_of_ne hxid.symm, hpage]
  · rw [pages_write_of_ne hxl.symm, hpl]
  · rw [pages_write_of_ne hxr.symm, hpr]
  · obtain ⟨hp, hpl, hpr⟩ := hbelow p hp
    rw [pages_write_of_ne hpx, hsame p hp hpl hpr]
  · rw [pages_write_of_ne (fun hc : p = x.id => hpp (hc ▸ hids x.id hx)), hsame p hp
      (fun hc => hpp (hc ▸ List.mem_append_left _ l.id_mem_ids))
      (fun hc => hpp (hc ▸ List.mem_append_right _ r.id_mem_ids))]

/-- The first child of the second of two inner pages has gone to the first one. -/
theorem rewrites_first_inner (mid : K)
    (h : Stored cfg s.pages (node id (A ++ (k₁, node i cs) :: (k₂, node j (d :: d' :: ds)) :: B))
      parent next)
    (hnodup : (node id (A ++ (k₁, node i cs) :: (k₂, node j (d :: d' :: ds)) :: B)).ids.Nodup)
    (hcs : cs ≠ []) :
    Rewrites cfg s ((writePair cfg s id parent next A k₁ (node i (cs ++ [(mid, d.2)])) key
        (node j (d' :: ds)) B).write (rootPage cfg d.2 i d'.2.first))
      (node id (A ++ (k₁, node i cs) :: (k₂, node j (d :: d' :: ds)) :: B))
      (node id (A ++ (k₁, node i (cs ++ [(mid, d.2)])) :: (key, node j (d' :: ds)) :: B)) parent
      next := by
  have hi : (node i (cs ++ [(mid, d.2)])).id = (node i cs).id := rfl
  have hj : (node j (d' :: ds)).id = (node j (d :: d' :: ds)).id := rfl
  have hx : d.2.id ∈ (node i cs).below ++ (node j (d :: d' :: ds)).below :=
    List.mem_append_right _ (List.mem_append_left _ d.2.id_mem_ids)
  obtain ⟨hpage, hpl, hpr, hpx, hbelow, hsame⟩ := pages_write_child (A := A) (B := B) (s := s)
    hnodup hi hj hx i d'.2.first
  obtain ⟨-, hl, hr, -⟩ := storedIn_append.mp (stored_node.mp h).2
  obtain ⟨-, -, hpair, -⟩ := nodup_pair hnodup
  obtain ⟨-, hrn, hdisj⟩ := List.nodup_append.mp hpair
  obtain ⟨hdn, -, hdds⟩ := List.nodup_append.mp (List.nodup_cons.mp hrn).2
  refine rewrites_pair h hnodup hpage (stored_node.mpr ⟨hpl, storedIn_append.mpr ⟨?_, ?_, trivial⟩⟩)
    (stored_node.mpr ⟨hpr, ?_⟩) hsame rfl rfl ?_ ?_ ?_
  · refine StoredUnder.congr hl.2 (fun p hp => hbelow p (List.mem_append_left _ hp) ?_)
    rintro rfl
    exact hdisj _ (List.mem_cons_of_mem i hp) _
      (List.mem_cons_of_mem j (List.mem_append_left _ d.2.id_mem_ids)) rfl
  · refine Stored.reparent hr.2.1 hpx (fun p hp => hbelow p ?_ ?_)
    · exact List.mem_append_right _ (List.mem_append_left _ (mem_ids_of_mem_below hp))
    · rintro rfl
      exact id_notMem_below hdn hp
  · refine StoredUnder.congr hr.2.2 (fun p hp => hbelow p ?_ ?_)
    · exact List.mem_append_right _ (List.mem_append_right _ hp)
    · rintro rfl
      exact hdds _ d.2.id_mem_ids _ hp rfl
  · simp only [ids_node, idsIn_append, idsIn_cons, idsIn_nil, List.append_nil, List.cons_append,
      List.append_assoc]
    exact (List.perm_middle.append_left (idsIn cs)).cons i
  · obtain ⟨c, cs, rfl⟩ := List.exists_cons_of_ne_nil hcs
    rfl
  · simp only [entries_node, List.flatMap_append, List.flatMap_cons, List.flatMap_nil,
      List.append_nil, List.append_assoc]

/-- The last child of the first of two inner pages has gone to the second one. -/
theorem rewrites_last_inner (mid : K)
    (h : Stored cfg s.pages (node id (A ++ (k₁, node i (cs ++ [c])) :: (k₂, node j (d :: ds)) :: B))
      parent next)
    (hnodup : (node id (A ++ (k₁, node i (cs ++ [c])) :: (k₂, node j (d :: ds)) :: B)).ids.Nodup)
    (hcs : cs ≠ []) :
    Rewrites cfg s ((writePair cfg s id parent next A k₁ (node i cs) key
        (node j (c :: (mid, d.2) :: ds)) B).write (rootPage cfg c.2 j d.2.first))
      (node id (A ++ (k₁, node i (cs ++ [c])) :: (k₂, node j (d :: ds)) :: B))
      (node id (A ++ (k₁, node i cs) :: (key, node j (c :: (mid, d.2) :: ds)) :: B)) parent
      next := by
  have hi : (node i cs).id = (node i (cs ++ [c])).id := rfl
  have hj : (node j (c :: (mid, d.2) :: ds)).id = (node j (d :: ds)).id := rfl
  have hbelowl : (node i (cs ++ [c])).below = idsIn cs ++ c.2.ids := by
    rw [below_node, idsIn_append, idsIn_cons, idsIn_nil, List.append_nil]
  have hx : c.2.id ∈ (node i (cs ++ [c])).below ++ (node j (d :: ds)).below := by
    rw [hbelowl]
    exact List.mem_append_left _ (List.mem_append_right _ c.2.id_mem_ids)
  obtain ⟨hpage, hpl, hpr, hpx, hbelow, hsame⟩ := pages_write_child (A := A) (B := B) (s := s)
    hnodup hi hj hx j d.2.first
  obtain ⟨-, hl, hr, -⟩ := storedIn_append.mp (stored_node.mp h).2
  obtain ⟨hstored, hc, -⟩ := storedIn_append.mp hl.2
  obtain ⟨-, -, hpair, -⟩ := nodup_pair hnodup
  obtain ⟨hln, -, hdisj⟩ := List.nodup_append.mp hpair
  rw [ids_eq, hbelowl] at hln hdisj
  obtain ⟨-, hcn, hcsc⟩ := List.nodup_append.mp (List.nodup_cons.mp hln).2
  refine rewrites_pair h hnodup hpage (stored_node.mpr ⟨hpl, ?_⟩) (stored_node.mpr ⟨hpr, ?_, ?_⟩)
    hsame rfl rfl ?_ ?_ ?_
  · refine StoredUnder.congr hstored (fun p hp => hbelow p ?_ ?_)
    · rw [hbelowl]
      exact List.mem_append_left _ (List.mem_append_left _ hp)
    · rintro rfl
      exact hcsc _ hp _ c.2.id_mem_ids rfl
  · refine Stored.reparent hc hpx (fun p hp => hbelow p ?_ ?_)
    · rw [hbelowl]
      exact List.mem_append_left _ (List.mem_append_right _ (mem_ids_of_mem_below hp))
    · rintro rfl
      exact id_notMem_below hcn hp
  · refine StoredUnder.congr hr.2 (fun p hp => hbelow p (List.mem_append_right _ hp) ?_)
    rintro rfl
    exact hdisj _ (List.mem_cons_of_mem _ (List.mem_append_right _ c.2.id_mem_ids)) _
      (List.mem_cons_of_mem j hp) rfl
  · simp only [ids_node, idsIn_append, idsIn_cons, idsIn_nil, List.append_nil, List.cons_append,
      List.append_assoc]
    exact (List.perm_middle.symm.append_left (idsIn cs)).cons i
  · obtain ⟨c, cs, rfl⟩ := List.exists_cons_of_ne_nil hcs
    rfl
  · simp only [entries_node, List.flatMap_append, List.flatMap_cons, List.flatMap_nil,
      List.append_nil, List.append_assoc]

end Inner

end Moves

end BPlusTree

end MiniSql
