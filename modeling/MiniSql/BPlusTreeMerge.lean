import MiniSql.BPlusTreeContext
import MiniSql.BPlusTreeInsert

/-!
# Merging two pages

`Coalesce` moves the entries of a page into the page before it and takes the
page out of the parent. In the tree these two pages become one (`merge`): the
key that the parent had between them is put in the place of the key of the
first child of the second page, which no search has looked at.

A merge keeps the parent and everything below it as documented, with one child
fewer (`HoldsSubtree.merge_keeps`). One of the two pages may be short of entries
or children, as the page that gives rise to a merge is.
-/

namespace MiniSql

variable {K V : Type}

/-- What every page has at least: a leaf an entry, and an inner page two
children. -/
def TreeConfig.least (cfg : TreeConfig) : KeyTree.Bounds where
  min
    | 0 => 1
    | _ + 1 => 2
  max := cfg.bounds.max

namespace BPlusTree

open KeyTree

variable {n : ℕ} {cfg : TreeConfig} {s s' : BPlusTree K V} {t l r : PageTree K V n}
  {id parent next : PageId} {A B : List (K × PageTree K V n)} {k k₁ : K}

/-! ## The entries move -/

/-- `MoveAllTo`, of a page of either kind. -/
def moveAll (s : BPlusTree K V) (neighbor node : BPlusTreePage K V) (middleKey : K) :
    Option (BPlusTree K V) :=
  match neighbor, node with
  | .leaf neighbor, .leaf node => some (s.write (.leaf (node.moveAllTo neighbor)))
  | .internal neighbor, .internal node =>
    (s.write (.internal (node.moveAllTo neighbor middleKey))).adopt neighbor.pageId
      (node.array.map Prod.snd)
  | _, _ => none

theorem coalesce_eq (s : BPlusTree K V) (neighbor node : BPlusTreePage K V) (page : InternalPage K)
    (index : ℕ) : s.coalesce neighbor node page index =
      (page.keyAt index).bind (fun k => (s.moveAll neighbor node k).bind (fun s₁ =>
        (page.remove index).bind (fun page' =>
          some ((s₁.deletePage node.pageId).write (.internal page'), page')))) := by
  cases neighbor <;> cases node <;> rfl

section Shape

/-- A page that is no longer needed is deleted. -/
theorem changes_deletePage {p : PageId} {ids : List PageId} (hp : p ∉ ids)
    (hids : ∀ q ∈ ids, q ∈ s.allocated) : Changes s (s.deletePage p) (p :: ids) ids where
  root := rfl
  same q _ hq := Function.update_of_ne (fun e : q = p => hq (List.mem_cons.mpr (.inl e))) ..
  none q hq hor := by
    by_cases h : q = p
    · rw [h]
      exact Function.update_self ..
    · refine (Function.update_of_ne h ..).trans (hor.resolve_left (fun hc => ?_))
      exact (List.mem_cons.mp hc).elim h hq
  fresh q hq := .inl (List.mem_cons_of_mem p hq)
  allocated q := by
    show q ∈ s.allocated.filter (fun i => i ≠ p) ↔ _
    rw [List.mem_filter, decide_eq_true_eq, List.mem_cons, not_or]
    refine ⟨fun h => ?_, fun h => ?_⟩
    · by_cases hq : q ∈ ids
      · exact .inr hq
      · exact .inl ⟨h.1, h.2, hq⟩
    · rcases h with h | h
      · exact ⟨h.1, h.2.1⟩
      · exact ⟨hids q h, fun e => hp (e ▸ h)⟩

/-- `MoveAllTo`, of two inner pages of the tree. -/
theorem moveAll_node (s : BPlusTree K V) {i j : PageId} (cs ds : List (K × PageTree K V n)) :
    s.moveAll (rootPage cfg (node i cs) id next) (rootPage cfg (node j ds) id next) k =
      (s.write (rootPage cfg (merge k (node i cs) (node j ds)) id next)).adopt i
        (ds.map (fun c => c.2.id)) := by
  have harray : cs.map (fun c => (c.1, c.2.id)) ++
      (ds.map (fun c => (c.1, c.2.id))).modifyHead (fun c => (k, c.2)) =
      (cs ++ ds.modifyHead (fun c => (k, c.2))).map (fun c => (c.1, c.2.id)) := by
    rw [List.map_append]
    cases ds <;> rfl
  show (s.write (.internal ⟨i, id, cfg.internalMaxSize, cs.map (fun c => (c.1, c.2.id)) ++
    (ds.map (fun c => (c.1, c.2.id))).modifyHead (fun c => (k, c.2))⟩)).adopt i
      ((ds.map (fun c => (c.1, c.2.id))).map Prod.snd) = _
  rw [harray, List.map_map]
  rfl

/-- **`MoveAllTo` in the tree**: the two pages are one, with the children of both
and with what comes after the second one. -/
theorem exists_moveAll (hl : Stored cfg s.pages l id r.first) (hr : Stored cfg s.pages r id next)
    (hbl : Branches l) (hbr : Branches r) (hnodup : (l.ids ++ r.ids).Nodup) (k : K) :
    ∃ s₁, s.moveAll (rootPage cfg l id r.first) (rootPage cfg r id next) k = some s₁ ∧
      Stored cfg s₁.pages (merge k l r) id next ∧
      (∀ p ∉ l.id :: r.below, s₁.pages p = s.pages p) ∧ s₁.allocated = s.allocated ∧
      s₁.rootPageId = s.rootPageId := by
  cases n with
  | zero =>
    refine ⟨s.write (rootPage cfg (merge k l r) id next), rfl, Function.update_self .., ?_, rfl,
      rfl⟩
    exact fun p hp => Function.update_of_ne (fun e => hp (List.mem_singleton.mpr e)) ..
  | succ n =>
    obtain ⟨i, cs, rfl⟩ := exists_node l
    obtain ⟨j, ds, rfl⟩ := exists_node r
    obtain ⟨d, ds, rfl⟩ : ∃ d es, ds = d :: es := List.exists_cons_of_ne_nil hbr.1
    obtain ⟨hi, hdisj⟩ : i ∉ idsIn cs ∧ ∀ p ∈ idsIn (d :: ds), p ≠ i ∧ p ∉ idsIn cs := by
      obtain ⟨hln, -, hlr⟩ := List.nodup_append.mp hnodup
      refine ⟨(List.nodup_cons.mp hln).1, fun p hp => ⟨fun e => ?_, fun hc => ?_⟩⟩
      · exact hlr i List.mem_cons_self p (List.mem_cons_of_mem j hp) e.symm
      · exact hlr p (List.mem_cons_of_mem i hc) p (List.mem_cons_of_mem j hp) rfl
    have hds : (idsIn (d :: ds)).Nodup :=
      (List.nodup_cons.mp (List.nodup_append.mp hnodup).2.1).2
    obtain ⟨m, hm⟩ : ∃ m, m = node i (cs ++ (k, d.2) :: ds) := ⟨_, rfl⟩
    obtain ⟨s₁, hs₁⟩ : ∃ s₁, s₁ = s.write (rootPage cfg m id next) := ⟨_, rfl⟩
    have hsame : ∀ p, p ≠ i → s₁.pages p = s.pages p := fun p hp => by
      rw [hs₁, hm]
      exact Function.update_of_ne hp ..
    obtain ⟨s₂, hadopt, hstored, hframe, halloc, hroot⟩ := StoredUnder.adopt
      (StoredUnder.congr hr.2 (fun p hp => hsame p (hdisj p hp).1)) hds i
    refine ⟨s₂, ?_, ⟨?_, storedIn_append.mpr ⟨?_, hstored⟩⟩, fun p hp => ?_, ?_, ?_⟩
    · refine (moveAll_node s cs (d :: ds)).trans ?_
      rw [← hadopt, hs₁, hm]
      rfl
    · show s₂.pages i = _
      rw [hframe i (fun hc => (hdisj i hc).1 rfl), hs₁, hm]
      exact Function.update_self ..
    · refine StoredUnder.congr hl.2 (fun p hp => ?_)
      rw [hframe p (fun hc => (hdisj p hc).2 hp), hsame p (fun e => hi (e ▸ hp))]
    · rw [hframe p (fun hc => hp (List.mem_cons_of_mem _ hc)),
        hsame p (fun e => hp (e ▸ List.mem_cons_self))]
    · rw [halloc, hs₁]
      rfl
    · rw [hroot, hs₁]
      rfl

end Shape

/-! ## The parent lets go of a child -/

/-- The merge step: `Coalesce` of a page and the page before it, in their parent,
up to the step to the parent itself. -/
def mergeStep (s : BPlusTree K V) (parent left right : PageId) :
    Option (BPlusTree K V × InternalPage K) := do
  let neighbor ← s.pages left
  let node ← s.pages right
  let page ← s.fetchInternal parent
  s.coalesce neighbor node page (← page.valueIndex right)

section Parent

/-- **`FindSibling`** of the second of two neighbours is the first one, and of the
first one, if there is none before it, the second one. -/
theorem findSibling_neighbour {p : InternalPage K}
    (harray : p.array = (A ++ (k₁, l) :: (k, r) :: B).map (fun c => (c.1, c.2.id)))
    (hnodup : (idsIn (A ++ (k₁, l) :: (k, r) :: B)).Nodup) :
    findSibling p r.id = some (l.id, false) ∧
      (A = [] → findSibling p l.id = some (r.id, true)) := by
  have happ : A ++ (k₁, l) :: (k, r) :: B = (A ++ [(k₁, l)]) ++ (k, r) :: B :=
    (List.append_assoc A [(k₁, l)] _).symm
  have hleft := valueIndex_child harray hnodup
  have hright := valueIndex_child (happ ▸ harray) (happ ▸ hnodup)
  refine ⟨?_, ?_⟩
  · have hvalue := valueAt_child harray
    unfold findSibling
    simp only [Option.bind_eq_bind]
    rw [hright, Option.bind_some, if_neg (by rw [List.length_append]; exact Nat.succ_ne_zero _),
      List.length_append, List.length_singleton, Nat.add_sub_cancel, hvalue]
    rfl
  · rintro rfl
    have hvalue := valueAt_child (happ ▸ harray)
    unfold findSibling
    simp only [Option.bind_eq_bind]
    rw [hleft, Option.bind_some, List.length_nil, if_pos rfl]
    exact congrArg (Option.bind · _) hvalue

/-- **The merge step**: the two children are one. -/
theorem exists_mergeStep
    (h : Stored cfg s.pages (node id (A ++ (k₁, l) :: (k, r) :: B)) parent next)
    (hnodup : (node id (A ++ (k₁, l) :: (k, r) :: B)).ids.Nodup)
    (halloc : ∀ p ∈ (node id (A ++ (k₁, l) :: (k, r) :: B)).ids, p ∈ s.allocated)
    (hbl : Branches l) (hbr : Branches r) :
    ∃ s', s.mergeStep id l.id r.id = some (s', ⟨id, parent, cfg.internalMaxSize,
        (A ++ (k₁, merge k l r) :: B).map (fun c => (c.1, c.2.id))⟩) ∧
      Stored cfg s'.pages (node id (A ++ (k₁, merge k l r) :: B)) parent next ∧
      (node id (A ++ (k₁, merge k l r) :: B)).ids.Nodup ∧
      Changes s s' (node id (A ++ (k₁, l) :: (k, r) :: B)).ids
        (node id (A ++ (k₁, merge k l r) :: B)).ids := by
  obtain ⟨hid, hcs⟩ : id ∉ idsIn (A ++ (k₁, l) :: (k, r) :: B) ∧
    (idsIn (A ++ (k₁, l) :: (k, r) :: B)).Nodup := List.nodup_cons.mp hnodup
  obtain ⟨-, hl, hr, -⟩ := storedIn_append.mp (stored_node.mp h).2
  have hpair : (l.ids ++ r.ids).Nodup := by
    rw [idsIn_append, idsIn_cons, idsIn_cons, ← List.append_assoc l.ids] at hcs
    exact (List.nodup_append.mp (List.nodup_append.mp hcs).2.1).1
  have hin : ∀ p, p ∈ l.ids ∨ p ∈ r.ids → p ∈ idsIn (A ++ (k₁, l) :: (k, r) :: B) := by
    intro p hp
    rw [idsIn_append, idsIn_cons, idsIn_cons, ← List.append_assoc l.ids]
    exact List.mem_append_right _ (List.mem_append_left _ (List.mem_append.mpr hp))
  obtain ⟨s₁, hmove, hstored, hframe, halloc₁, hroot₁⟩ := exists_moveAll hl hr hbl hbr hpair k
  -- the pages of the one that stays, and the page that goes
  obtain ⟨L, hL⟩ : ∃ L, L = (merge k l r).ids := ⟨_, rfl⟩
  have hLeq : L = l.id :: (l.below ++ r.below) := by
    rw [hL, ids_eq, id_merge, below_merge]
  have hperm : (l.ids ++ r.ids).Perm (r.id :: L) := by
    rw [hLeq, ids_eq l, ids_eq r]
    exact List.perm_middle.trans (List.Perm.refl _)
  obtain ⟨hrL, hLn⟩ := List.nodup_cons.mp (hperm.nodup_iff.mp hpair)
  have hmem : ∀ p, p ∈ r.id :: L → p ∈ l.ids ∨ p ∈ r.ids := fun p hp =>
    List.mem_append.mp (hperm.mem_iff.mpr hp)
  have hold : ∀ p ∈ r.id :: L, p ∈ s.allocated := fun p hp =>
    halloc p (List.mem_cons_of_mem id (hin p (hmem p hp)))
  have hchanges : Changes s (s₁.deletePage r.id) (r.id :: L) L := by
    have hmoved : Changes s s₁ (r.id :: L) (r.id :: L) := by
      refine changes_within hold (fun p hp => hframe p (fun hc => hp ?_)) halloc₁ hroot₁
      rw [hLeq]
      rcases List.mem_cons.mp hc with rfl | hc
      · exact List.mem_cons_of_mem _ List.mem_cons_self
      · exact List.mem_cons_of_mem _ (List.mem_cons_of_mem _ (List.mem_append_right _ hc))
    exact hmoved.trans (changes_deletePage hrL (fun p hp =>
      hmoved.mem_allocated (List.mem_cons_of_mem _ hp)))
  have hreplaces : Replaces cfg s (s₁.deletePage r.id) id (firstOf B next) [(k₁, l), (k, r)]
      [(k₁, merge k l r)] := by
    refine ⟨⟨hstored.congr (fun p hp => ?_), trivial⟩, ?_, fun _ => first_merge hbl, ?_⟩
    · exact Function.update_of_ne (fun e : p = r.id => hrL (hL ▸ e ▸ hp)) ..
    · rw [idsIn_cons, idsIn_nil, List.append_nil, ← hL]
      exact hLn
    · refine hchanges.congr (fun p => ?_) (fun p => ?_)
      · rw [idsIn_cons, idsIn_cons, idsIn_nil, List.append_nil]
        exact hperm.mem_iff
      · rw [idsIn_cons, idsIn_nil, List.append_nil, ← hL]
  have hnode := hreplaces.inNode h.2 hcs (fun p hp => halloc p (List.mem_cons_of_mem id hp))
  obtain ⟨hstored', hnodup', hchanges'⟩ :=
    hnode.writeNode (halloc id List.mem_cons_self) hid parent
  refine ⟨_, ?_, hstored', hnodup', hchanges'⟩
  have hpage : s.fetchInternal id = some ⟨id, parent, cfg.internalMaxSize,
      ((A ++ [(k₁, l)]) ++ (k, r) :: B).map (fun c => (c.1, c.2.id))⟩ := by
    rw [List.append_assoc]
    exact h.fetchInternal
  have hindex := valueIndex_child (A := A ++ [(k₁, l)]) (B := B) (c := (k, r)) (p := ⟨id, parent,
    cfg.internalMaxSize, ((A ++ [(k₁, l)]) ++ (k, r) :: B).map (fun c => (c.1, c.2.id))⟩) rfl (by
      rw [List.append_assoc]
      exact hcs)
  obtain ⟨hkey, hremove⟩ := keyAt_remove_child (A := A ++ [(k₁, l)]) (B := B) (c := (k, r))
    (p := ⟨id, parent, cfg.internalMaxSize,
      ((A ++ [(k₁, l)]) ++ (k, r) :: B).map (fun c => (c.1, c.2.id))⟩) rfl
  have harray : ((A ++ [(k₁, l)]) ++ B).map (fun c => (c.1, c.2.id)) =
      (A ++ (k₁, merge k l r) :: B).map (fun c => (c.1, c.2.id)) := by
    simp only [List.append_assoc, List.map_append, List.map_cons, List.cons_append,
      List.nil_append, id_merge]
  unfold mergeStep
  simp only [Option.bind_eq_bind]
  rw [hl.root, Option.bind_some, hr.root, Option.bind_some, hpage, Option.bind_some, hindex,
    Option.bind_some, coalesce_eq, hkey, Option.bind_some]
  show (s.moveAll (rootPage cfg l id r.first) _ k).bind _ = _
  rw [hmove, Option.bind_some, hremove, Option.bind_some, harray, pageId_rootPage]
  rfl

/-- Two neighbours are two nodes, and not among the others of their parent. -/
theorem ne_neighbours (hnodup : (node id (A ++ (k₁, l) :: (k, r) :: B)).ids.Nodup) :
    l.id ≠ r.id ∧ ∀ i, i ∈ idsIn A ∨ i ∈ l.below ++ r.below ∨ i ∈ idsIn B →
      i ≠ l.id ∧ i ≠ r.id := by
  have hcs : (idsIn (A ++ (k₁, l) :: (k, r) :: B)).Nodup := (List.nodup_cons.mp hnodup).2
  have hperm : (idsIn (A ++ (k₁, l) :: (k, r) :: B)).Perm
      (l.id :: r.id :: (idsIn A ++ (l.below ++ r.below ++ idsIn B))) := by
    rw [idsIn_append, idsIn_cons, idsIn_cons, ids_eq l, ids_eq r, List.cons_append,
      List.cons_append, ← List.append_assoc]
    refine List.perm_middle.trans (List.Perm.cons _ ?_)
    rw [List.append_assoc, ← List.append_assoc, List.append_assoc l.below, ← List.append_assoc]
    exact List.perm_middle
  obtain ⟨hl, hrest⟩ := List.nodup_cons.mp (hperm.nodup_iff.mp hcs)
  obtain ⟨hr, -⟩ := List.nodup_cons.mp hrest
  refine ⟨fun e => hl (e ▸ List.mem_cons_self), fun i hi => ?_⟩
  have hmem : i ∈ idsIn A ++ (l.below ++ r.below ++ idsIn B) := by
    rw [List.mem_append, List.mem_append]
    exact hi
  exact ⟨fun e => hl (e ▸ List.mem_cons_of_mem _ hmem), fun e => hr (e ▸ hmem)⟩

/-- **The links after a merge**: the first page is followed by what followed the
second one, and is the parent of the children that have moved. -/
theorem links_merge (hr : Stored cfg s.pages r id next)
    (hm : Stored cfg s'.pages (merge k l r) id next) :
    (∀ right, s.pages r.id = some (.leaf right) → ∃ merged,
      s'.pages l.id = some (.leaf merged) ∧ merged.nextPageId = right.nextPageId) ∧
    ∀ right, s.pages r.id = some (.internal right) → ∀ c ∈ right.array, ∃ child,
      s'.pages c.2 = some child ∧ child.parentPageId = l.id := by
  have hpage := hm.root
  rw [id_merge] at hpage
  refine ⟨fun right hright => ?_, fun right hright c hc => ?_⟩
  · rw [hr.root] at hright
    cases n with
    | zero =>
      cases hright
      exact ⟨_, hpage, rfl⟩
    | succ n => cases hright
  · rw [hr.root] at hright
    cases n with
    | zero => cases hright
    | succ n =>
      obtain ⟨i, cs, rfl⟩ := exists_node l
      obtain ⟨j, ds, rfl⟩ := exists_node r
      cases hright
      obtain ⟨d, hd, rfl⟩ := List.mem_map.mp hc
      obtain ⟨e, he, hde⟩ : ∃ e ∈ cs ++ ds.modifyHead (fun c => (k, c.2)), e.2 = d.2 := by
        cases ds with
        | nil => cases hd
        | cons d' ds =>
          rcases List.mem_cons.mp hd with rfl | hd
          · exact ⟨_, List.mem_append_right _ List.mem_cons_self, rfl⟩
          · exact ⟨d, List.mem_append_right _ (List.mem_cons_of_mem _ hd), rfl⟩
      obtain ⟨next', hstored⟩ := (stored_node.mp hm).2.of_mem he
      rw [hde] at hstored
      exact ⟨_, hstored.root, parentPageId_rootPage d.2⟩

end Parent

/-! ## Subtrees as they are documented -/

variable [LinearOrder K] {lo : WithBot K} {hi : WithTop K}

/-- **The merge step is the step of `CoalesceOrRedistribute`** for the second of
two neighbours that fit in one page, and for the first one if there is none
before it. -/
theorem coalesceOrRedistribute_eq_mergeStep
    (h : Stored cfg s.pages (node id (A ++ (k₁, l) :: (k, r) :: B)) parent next)
    (hnodup : (node id (A ++ (k₁, l) :: (k, r) :: B)).ids.Nodup) (hid : id ≠ invalidPageId)
    (hfit : l.size + r.size ≤ cfg.bounds.max n) (rounds : ℕ) {i : PageId}
    (hi : i = r.id ∨ (i = l.id ∧ A = [])) :
    coalesceOrRedistribute (rounds + 1) s i = (s.mergeStep id l.id r.id).bind (fun m =>
      if m.2.size < (BPlusTreePage.internal (V := V) m.2).minSize then
        coalesceOrRedistribute rounds m.1 m.2.pageId
      else some m.1) := by
  have hcs : (idsIn (A ++ (k₁, l) :: (k, r) :: B)).Nodup := (List.nodup_cons.mp hnodup).2
  obtain ⟨-, hl, hr, -⟩ := storedIn_append.mp (stored_node.mp h).2
  obtain ⟨page, hpage⟩ : ∃ page : InternalPage K, page = ⟨id, parent, cfg.internalMaxSize,
    (A ++ (k₁, l) :: (k, r) :: B).map (fun c => (c.1, c.2.id))⟩ := ⟨_, rfl⟩
  have hfetch : s.fetchInternal id = some page := hpage ▸ h.fetchInternal
  obtain ⟨hright, hleft⟩ := findSibling_neighbour (p := page) (hpage ▸ rfl) hcs
  have hnotRoot : ∀ (t : PageTree K V n) next, (rootPage cfg t id next).isRootPage = false := by
    intro t next
    refine decide_eq_false ?_
    rw [parentPageId_rootPage]
    exact hid
  have hstep : s.mergeStep id l.id r.id = (page.valueIndex r.id).bind
      (s.coalesce (rootPage cfg l id r.first) (rootPage cfg r id (firstOf B next)) page) := by
    rw [mergeStep, Option.bind_eq_bind, hl.root, Option.bind_some, Option.bind_eq_bind, hr.root,
      Option.bind_some, Option.bind_eq_bind, hfetch, Option.bind_some]
    rfl
  rw [hstep, Option.bind_assoc, coalesceOrRedistribute]
  simp only [Option.bind_eq_bind]
  rcases hi with rfl | ⟨rfl, hA⟩
  · rw [hr.root, Option.bind_some, hnotRoot, if_neg Bool.false_ne_true, parentPageId_rootPage,
      hfetch, Option.bind_some, hright, Option.bind_some, hl.root, Option.bind_some, size_rootPage,
      size_rootPage, maxSize_rootPage, if_pos (by rwa [Nat.add_comm] at hfit),
      if_neg Bool.false_ne_true, pageId_rootPage]
    rfl
  · rw [hl.root, Option.bind_some, hnotRoot, if_neg Bool.false_ne_true, parentPageId_rootPage,
      hfetch, Option.bind_some, hleft hA, Option.bind_some, hr.root, Option.bind_some,
      size_rootPage, size_rootPage, maxSize_rootPage, if_pos hfit, if_pos rfl, pageId_rootPage]
    rfl

/-- A subtree in the store, with its parent, the page that comes after it, and
the bounds that the keys above it give it. -/
structure HoldsSubtree (cfg : TreeConfig) (s : BPlusTree K V) (t : PageTree K V n)
    (parent next : PageId) (lo : WithBot K) (hi : WithTop K) : Prop where
  stored : Stored cfg s.pages t parent next
  nodup : t.ids.Nodup
  allocated : ∀ id ∈ t.ids, id ∈ s.allocated
  separated : Separated t lo hi

/-- A lookup that starts at a page: the search below it, and `Lookup` in the leaf
that it ends at. -/
def lookupFrom (s : BPlusTree K V) (key : K) (rounds : ℕ) (id : PageId) : Option (Option V) :=
  (s.findLeafFrom key false rounds id).map (fun leaf => leaf.lookup key)

/-- **A lookup below a page** finds what the leaves below it have. -/
theorem HoldsSubtree.exists_lookupFrom (h : HoldsSubtree cfg s t parent next lo hi) (key : K)
    {rounds : ℕ} (hrounds : n < rounds) : ∃ found, s.lookupFrom key rounds t.id = some found ∧
      ∀ v, found = some v ↔ (key, v) ∈ t.entries := by
  have hsep : Separated t ⊥ ⊤ := h.separated.mono bot_le le_top
  obtain ⟨l, leaf, hfind, -, harray, hroutes, hmem⟩ := exists_leaf_of_separated h.stored.laid hsep
    ⟨bot_le, WithTop.coe_lt_top key⟩ hrounds
  refine ⟨leaf.lookup key, by rw [lookupFrom, hfind]; rfl, fun v => ?_⟩
  have hsorted : leaf.array.Pairwise (fun e f => e.1 < f.1) := by
    rw [harray]
    exact hsep.sorted_of_mem_leaves hroutes.mem_leaves
  rw [LeafPage.lookup_eq_some hsorted, harray, hmem]

/-- The same entries, the same answers. -/
theorem HoldsSubtree.lookupFrom_eq {t' : PageTree K V n}
    (h : HoldsSubtree cfg s t parent next lo hi) (h' : HoldsSubtree cfg s' t' parent next lo hi)
    (hid : t'.id = t.id) (hentries : t'.entries = t.entries) (key : K) {rounds : ℕ}
    (hrounds : n < rounds) : s'.lookupFrom key rounds t.id = s.lookupFrom key rounds t.id := by
  obtain ⟨found, hfound, hmem⟩ := h.exists_lookupFrom key hrounds
  obtain ⟨found', hfound', hmem'⟩ := h'.exists_lookupFrom key hrounds
  rw [hid] at hfound'
  rw [hfound, hfound']
  refine congrArg some (Option.ext fun v => ?_)
  rw [hmem v, hmem' v, hentries]

/-- **A merge keeps every key.** For two neighbours below a page with three
children or more, whose entries or children fit in one page, the merge step
ends with the page as documented, with one child fewer and with the same
entries, and lookups below it answer what they answered. The first of the two
pages is followed by what followed the second one, and is the parent of the
children that have moved. One of the two may be short of entries or
children. -/
theorem HoldsSubtree.merge_keeps {short : PageId}
    (h : HoldsSubtree cfg s (node id (A ++ (k₁, l) :: (k, r) :: B)) parent next lo hi)
    (hsized : SizedBut cfg.least [short] (node id (A ++ (k₁, l) :: (k, r) :: B)))
    (hshort : short = l.id ∨ short = r.id) (hthree : 3 ≤ (A ++ (k₁, l) :: (k, r) :: B).length)
    (hfit : l.size + r.size ≤ cfg.bounds.max n) :
    ∃ s' page', s.mergeStep id l.id r.id = some (s', page') ∧
      HoldsSubtree cfg s' (node id (A ++ (k₁, merge k l r) :: B)) parent next lo hi ∧
      KeyTree.Sized cfg.least (node id (A ++ (k₁, merge k l r) :: B)) ∧
      (s'.fetchInternal id = some page' ∧ ∀ page, s.fetchInternal id = some page →
        page'.size + 1 = page.size) ∧
      (node id (A ++ (k₁, merge k l r) :: B)).entries =
        (node id (A ++ (k₁, l) :: (k, r) :: B)).entries ∧
      (∀ key rounds, n + 1 < rounds →
        s'.lookupFrom key rounds id = s.lookupFrom key rounds id) ∧
      (∀ right, s.pages r.id = some (.leaf right) → ∃ merged,
        s'.pages l.id = some (.leaf merged) ∧ merged.nextPageId = right.nextPageId) ∧
      ∀ right, s.pages r.id = some (.internal right) → ∀ c ∈ right.array, ∃ child,
        s'.pages c.2 = some child ∧ child.parentPageId = l.id := by
  have hsep : SeparatedIn Separated (A ++ (k₁, l) :: (k, r) :: B) lo hi := h.separated
  obtain ⟨-, hsl, hsr, -⟩ := orderedIn_focus₂.mp hsep.children
  obtain ⟨s', hrun, hstored, hnodup, hchanges⟩ :=
    exists_mergeStep h.stored h.nodup h.allocated hsl.branches hsr.branches
  have hentries : (node id (A ++ (k₁, merge k l r) :: B)).entries =
      (node id (A ++ (k₁, l) :: (k, r) :: B)).entries := by
    simp only [entries_node, List.flatMap_append, List.flatMap_cons, entries_merge,
      List.append_assoc]
  -- only the two pages themselves may be short
  obtain ⟨hne, hothers⟩ := ne_neighbours h.nodup
  have hother : ∀ i, i ∈ idsIn A ∨ i ∈ l.below ++ r.below ∨ i ∈ idsIn B → i ∉ [short] := by
    intro i hi hc
    rw [List.mem_singleton.mp hc] at hi
    exact hshort.elim (hothers short hi).1 (hothers short hi).2
  have hchild : ∀ c ∈ A ++ (k₁, l) :: (k, r) :: B, SizedBut cfg.least [short] c.2 := hsized.2
  have hl := hchild (k₁, l) (List.mem_append_right A List.mem_cons_self)
  have hr := hchild (k, r) (List.mem_append_right A (List.mem_cons_of_mem _ List.mem_cons_self))
  have habove : 0 < n → Ordered r k (stop B hi) := fun hn => by
    refine hsr.ordered (fun d hd hnil => ?_)
    have hlength := (hr.leaf hd).resolve_left (hother d.id (.inr (.inl
      (List.mem_append_right _ (id_mem_below_of_mem_leaves hn hd)))))
    rw [hnil] at hlength
    exact absurd hlength (Nat.not_succ_le_zero 0)
  have hmerged : KeyTree.Sized cfg.least (merge k l r) := by
    refine Sized.merge hl hr ?_ hfit (fun i hi => hother i (.inr (.inl hi)))
    rcases hshort with hshort | hshort
    · have hmin := hr.root.1.resolve_left (fun hc => hne (hshort ▸ List.mem_singleton.mp hc).symm)
      exact hmin.trans (Nat.le_add_left _ _)
    · have hmin := hl.root.1.resolve_left (fun hc => hne (hshort ▸ List.mem_singleton.mp hc))
      exact hmin.trans (Nat.le_add_right _ _)
  have hsep' : SeparatedIn Separated (A ++ (k₁, merge k l r) :: B) lo hi := hsep.merge habove
  have h' : HoldsSubtree cfg s' (node id (A ++ (k₁, merge k l r) :: B)) parent next lo hi :=
    ⟨hstored, hnodup, fun p hp => hchanges.mem_allocated hp, hsep'⟩
  have hlength : (A ++ (k₁, merge k l r) :: B).length =
      (A ++ (k₁, l) :: (k, r) :: B).length - 1 := by
    simp only [List.length_append, List.length_cons, Nat.add_succ_sub_one]
  obtain ⟨-, hm, -⟩ := storedIn_append.mp (stored_node.mp hstored).2
  obtain ⟨-, -, hr', -⟩ := storedIn_append.mp (stored_node.mp h.stored).2
  obtain ⟨hleaf, hinner⟩ := links_merge hr' hm
  refine ⟨s', _, hrun, h', ⟨⟨?_, ?_⟩, fun c hc => ?_⟩,
    ⟨hstored.fetchInternal, fun page hpage => ?_⟩,
    hentries, fun key rounds hrounds => ?_, hleaf, hinner⟩
  · rw [size_node, hlength]
    exact Nat.le_sub_one_of_lt hthree
  · rw [size_node, hlength]
    exact (Nat.sub_le _ 1).trans hsized.1.2
  · have hmem : ∀ d, d ∈ A ∨ d ∈ B → KeyTree.Sized cfg.least d.2 := fun d hd => by
      refine (hchild d ?_).sized (fun i hi => hother i ?_)
      · rw [List.mem_append]
        exact hd.imp_right (fun hB => List.mem_cons_of_mem _ (List.mem_cons_of_mem _ hB))
      · exact hd.imp (fun hA => List.mem_flatMap.mpr ⟨d, hA, hi⟩)
          (fun hB => .inr (List.mem_flatMap.mpr ⟨d, hB, hi⟩))
    rcases List.mem_append.mp hc with hc | hc
    · exact hmem c (.inl hc)
    · rcases List.mem_cons.mp hc with rfl | hc
      · exact hmerged
      · exact hmem c (.inr hc)
  · rw [h.stored.fetchInternal] at hpage
    cases hpage
    rw [InternalPage.size, InternalPage.size, List.length_map, List.length_map, hlength]
    exact Nat.sub_add_cancel (Nat.one_le_of_lt hthree)
  · exact h.lookupFrom_eq h' rfl hentries key hrounds

/-- Three inner pages below a page. The second one has one child only. -/
def threeInner : PageTree ℕ ℕ 2 := node 9 [
  (0, node 6 [(0, leaf 1 [(1, 10)]), (2, leaf 2 [(2, 20)])]), (4, node 7 [(3, leaf 3 [(4, 40)])]),
  (6, node 8 [(0, leaf 4 [(6, 60)]), (8, leaf 5 [(8, 80)])])]

/-- The second page goes into the first one. -/
theorem merge_keeps_threeInner : ∃ s' page',
    (ofTree (.above 4 4) threeInner 0).mergeStep 9 6 7 = some (s', page') ∧
      ∀ key rounds, 2 < rounds → s'.lookupFrom key rounds 9 =
        (ofTree (.above 4 4) threeInner 0).lookupFrom key rounds 9 := by
  have h : HoldsSubtree (.above 4 4) (ofTree (.above 4 4) threeInner 0) threeInner invalidPageId 0
      ⊥ ⊤ := ⟨stored_ofTree (by decide) 0, by decide, fun _ hp => hp,
    (show Ordered threeInner ⊥ ⊤ by decide).separated⟩
  have hsized : SizedBut (TreeConfig.above 4 4).least [7] threeInner := by decide
  obtain ⟨s', page', hrun, -, -, -, -, hsame, -⟩ := HoldsSubtree.merge_keeps (A := [])
    (B := [(6, node 8 [(0, leaf 4 [(6, 60)]), (8, leaf 5 [(8, 80)])])]) h hsized (.inr rfl)
    (by decide) (by decide)
  exact ⟨s', page', hrun, hsame⟩

end BPlusTree

end MiniSql
