import MiniSql.BPlusTreeInsert
import MiniSql.Machine

/-!
# Steps of an iterator

`operator++` of `IndexIterator`, in the trees that insertions build. It goes from an entry to
the next one in key order. From the last entry it is to go to `INVALID_INDEX`, which it does
where the next page id of the leaf is `INVALID_PAGE_ID`. But nobody gives it that value:
`Init` of a leaf leaves the zero that a new page has there, and each split hands it on to the
leaf that is then the last one. So page 0 is read as if it were a leaf
(`stepsRight_iff`).
-/

namespace MiniSql

open KeyTree

variable {K V : Type} {n : ℕ}

namespace BPlusTree

/-! ## Positions -/

/-- The positions of the entries of leaves. -/
def positionsIn (ls : List (Leaf PageId K V)) : List IndexIterator :=
  ls.flatMap (fun l => (List.range l.entries.length).map (fun i => ⟨l.id, (i : ℕ)⟩))

/-- The positions of the entries of a tree, in key order. -/
def Contents.positions : Contents K V → List IndexIterator
  | .empty => []
  | .tree t => positionsIn t.leaves

/-- A number of steps. -/
def steps (s : BPlusTree K V) : ℕ → IndexIterator → Option IndexIterator
  | 0, it => some it
  | m + 1, it => (it.next s).bind (steps s m)

/-- **A step that is right**: it goes to the next entry, and from the last one to
`INVALID_INDEX`. -/
def StepsRight (s : BPlusTree K V) (contents : Contents K V) (k : ℕ) : Prop :=
  ∃ it, contents.positions[k]? = some it ∧
    it.next s = some (contents.positions[k + 1]?.getD ⟨it.leafPage, invalidIndex⟩)

/-- **A walk that ends**: after a step for each larger entry, and one more, it is at
`INVALID_INDEX`. -/
def WalkEnds (s : BPlusTree K V) (contents : Contents K V) (k : ℕ) : Prop :=
  ∃ it it', contents.positions[k]? = some it ∧
    steps s (contents.entries.length - k) it = some it' ∧ it'.index = invalidIndex

variable {s s' : BPlusTree K V} {cfg : TreeConfig} {l : Leaf PageId K V}
  {ls : List (Leaf PageId K V)} {next : PageId} {k : ℕ} {it : IndexIterator}

theorem getElem?_positionsIn_cons : (positionsIn (l :: ls))[k]? =
    if k < l.entries.length then some ⟨l.id, (k : ℕ)⟩
    else (positionsIn ls)[k - l.entries.length]? := by
  rw [positionsIn, List.flatMap_cons, List.getElem?_append, List.length_map, List.length_range]
  by_cases hk : k < l.entries.length
  · rw [if_pos hk, if_pos hk, List.getElem?_map, List.getElem?_range hk]
    rfl
  · rw [if_neg hk, if_neg hk]
    rfl

theorem length_positionsIn : (positionsIn ls).length = (ls.flatMap Leaf.entries).length := by
  induction ls with
  | nil => rfl
  | cons l ls ih =>
    rw [List.flatMap_cons, List.length_append, ← ih, positionsIn, List.flatMap_cons,
      List.length_append, List.length_map, List.length_range]
    rfl

/-- **An iterator reads the entry of its position.** -/
theorem item_positionsIn (hchain : Chained s.pages ls next) (k : ℕ) :
    (positionsIn ls)[k]?.bind (IndexIterator.item s) = (ls.flatMap Leaf.entries)[k]? := by
  induction ls generalizing k with
  | nil => rfl
  | cons l ls ih =>
    rw [getElem?_positionsIn_cons, List.flatMap_cons, List.getElem?_append]
    by_cases hk : k < l.entries.length
    · rw [if_pos hk, if_pos hk]
      exact item_of_chained hchain k
    · rw [if_neg hk, if_neg hk]
      exact ih hchain.2 _

/-- Where the iterator goes from the last entry of the last leaf. -/
theorem next_at_end (hchain : Chained s.pages [l] next) (hk : k + 1 = l.entries.length) :
    IndexIterator.next s ⟨l.id, (k : ℕ)⟩ =
      if next = invalidPageId then some ⟨l.id, invalidIndex⟩
      else (s.fetchLeaf next).map (fun p => ⟨p.pageId, 0⟩) := by
  obtain ⟨⟨p, hp, -, harray, hafter⟩, -⟩ := hchain
  have hafter : p.nextPageId = next := hafter
  rw [IndexIterator.next, fetchLeaf, hp]
  show (if (p.array.length : ℤ) ≤ (k : ℤ) + 1 then _ else _) = _
  rw [harray, if_pos (by omega), hafter]
  by_cases hnext : next = invalidPageId
  · rw [if_pos hnext, if_pos hnext]
    rfl
  · rw [if_neg hnext, if_neg hnext]
    exact (Option.map_eq_bind ..).symm

/-- **A step along the leaves**, where none is empty. -/
theorem next_positionsIn (hchain : Chained s.pages ls next) (hentries : ∀ l ∈ ls, l.entries ≠ [])
    (hvalid : ∀ l ∈ ls, l.id ≠ invalidPageId) (hit : (positionsIn ls)[k]? = some it) :
    it.next s = match (positionsIn ls)[k + 1]? with
      | some it' => some it'
      | none => if next = invalidPageId then some ⟨it.leafPage, invalidIndex⟩
        else (s.fetchLeaf next).map (fun p => ⟨p.pageId, 0⟩) := by
  induction ls generalizing k with
  | nil => cases hit
  | cons l ls ih =>
    rw [List.forall_mem_cons] at hentries hvalid
    rw [getElem?_positionsIn_cons] at hit ⊢
    by_cases hk : k < l.entries.length
    · rw [if_pos hk] at hit
      cases hit
      by_cases hlast : k + 1 < l.entries.length
      · rw [if_pos hlast]
        exact next_of_lt hchain hlast
      · have heq : k + 1 = l.entries.length := by omega
        rw [if_neg hlast, heq, Nat.sub_self]
        cases ls with
        | nil => exact next_at_end hchain heq
        | cons l' ls =>
          have hpos : 0 < l'.entries.length :=
            List.length_pos_of_ne_nil (hentries.2 l' List.mem_cons_self)
          rw [getElem?_positionsIn_cons, if_pos hpos]
          exact next_of_last hchain (hvalid.2 l' List.mem_cons_self) heq
    · rw [if_neg hk] at hit
      have hsub : k + 1 - l.entries.length = k - l.entries.length + 1 := by omega
      rw [if_neg (fun hc => hk (Nat.lt_of_succ_lt hc)), hsub]
      exact ih hchain.2 hentries.2 hvalid.2 hit

/-! ## Leaves that are not empty -/

/-- No leaf page is empty. -/
def LeavesFull (s : BPlusTree K V) : Prop :=
  ∀ id p, s.pages id = some (.leaf p) → p.array ≠ []

theorem LeavesFull.write {page : BPlusTreePage K V} (h : LeavesFull s)
    (hpage : ∀ p, page = .leaf p → p.array ≠ []) : LeavesFull (s.write page) := by
  intro id p hp
  by_cases hid : id = page.pageId
  · have hwritten : (s.write page).pages id = some page := by
      rw [hid]
      exact Function.update_self ..
    exact hpage p (Option.some.inj (hwritten.symm.trans hp))
  · have hkept : (s.write page).pages id = s.pages id := Function.update_of_ne hid ..
    exact h id p (hkept.symm.trans hp)

theorem LeavesFull.writeInternal (h : LeavesFull s) (page : InternalPage K) :
    LeavesFull (s.write (.internal page)) :=
  h.write (fun _ hp => by cases hp)

theorem LeavesFull.setParent {parent child : PageId} (h : LeavesFull s)
    (hs : s.setParent parent child = some s') : LeavesFull s' := by
  obtain ⟨page, hpage, rfl⟩ := Option.map_eq_some_iff.mp hs
  refine h.write (fun p hp => ?_)
  cases page with
  | leaf q =>
    cases hp
    exact h child q hpage
  | internal q => cases hp

theorem LeavesFull.adopt {parent : PageId} {children : List PageId} (h : LeavesFull s)
    (hs : s.adopt parent children = some s') : LeavesFull s' := by
  induction children generalizing s with
  | nil =>
    cases hs
    exact h
  | cons child children ih =>
    obtain ⟨s₁, hs₁, hrest⟩ := Option.bind_eq_some_iff.mp hs
    exact ih (h.setParent hs₁) hrest

theorem LeavesFull.splitLeaf {node new : LeafPage K V} (h : LeavesFull s)
    (hsize : 2 ≤ node.size) (hs : s.splitLeaf cfg node = some (s', new)) : LeavesFull s' := by
  obtain ⟨⟨p, q⟩, hmove, hs⟩ := Option.bind_eq_some_iff.mp hs
  cases hs
  unfold LeafPage.moveHalfTo at hmove
  dsimp only at hmove
  by_cases htotal : node.size = node.maxSize + 1
  · rw [if_pos htotal] at hmove
    cases hmove
    have hlen : node.array.length = node.maxSize + 1 := htotal
    refine LeavesFull.write (LeavesFull.write h ?_) ?_
    · rintro p ⟨⟩
      refine List.ne_nil_of_length_pos ?_
      rw [List.length_take]
      omega
    · rintro p ⟨⟩
      refine List.ne_nil_of_length_pos ?_
      rw [List.length_drop]
      omega
  · rw [if_neg htotal] at hmove
    cases hmove

theorem LeavesFull.splitInternal {node new : InternalPage K} (h : LeavesFull s)
    (hs : s.splitInternal cfg node = some (s', new)) : LeavesFull s' := by
  obtain ⟨⟨p, q⟩, -, hs⟩ := Option.bind_eq_some_iff.mp hs
  obtain ⟨s₁, hs₁, hs⟩ := Option.bind_eq_some_iff.mp hs
  cases hs
  refine LeavesFull.adopt ?_ hs₁
  exact LeavesFull.writeInternal (LeavesFull.writeInternal h _) _

variable [Inhabited K]

theorem LeavesFull.insertIntoParent {rounds : ℕ} {oldNode newNode : PageId} {key : K}
    (h : LeavesFull s) (hs : insertIntoParent cfg rounds s oldNode key newNode = some s') :
    LeavesFull s' := by
  induction rounds generalizing s oldNode key newNode with
  | zero => cases hs
  | succ rounds ih =>
    obtain ⟨old, -, hs⟩ := Option.bind_eq_some_iff.mp hs
    dsimp only at hs
    by_cases hroot : old.isRootPage = true
    · rw [if_pos hroot] at hs
      refine LeavesFull.adopt ?_ hs
      exact LeavesFull.writeInternal h _
    · rw [if_neg hroot] at hs
      obtain ⟨parent, -, hs⟩ := Option.bind_eq_some_iff.mp hs
      obtain ⟨s₁, hs₁, hs⟩ := Option.bind_eq_some_iff.mp hs
      obtain ⟨page, -, hs⟩ := Option.bind_eq_some_iff.mp hs
      have h₁ : LeavesFull (s₁.write (.internal page)) := (h.setParent hs₁).writeInternal page
      by_cases hfull : page.maxSize < page.size
      · rw [if_pos hfull] at hs
        obtain ⟨⟨s₂, new⟩, hs₂, hs⟩ := Option.bind_eq_some_iff.mp hs
        obtain ⟨first, -, hs⟩ := Option.bind_eq_some_iff.mp hs
        exact ih (h₁.splitInternal hs₂) hs
      · rw [if_neg hfull] at hs
        cases hs
        exact h₁

omit [Inhabited K] in
/-- The search ends in a page that is there. -/
theorem exists_of_findLeafFrom [LinearOrder K] {key : K} {leftMost : Bool} {rounds : ℕ}
    {id : PageId} {leaf : LeafPage K V}
    (h : findLeafFrom s key leftMost rounds id = some leaf) :
    ∃ id', s.pages id' = some (.leaf leaf) := by
  induction rounds generalizing id with
  | zero => cases h
  | succ rounds ih =>
    unfold findLeafFrom at h
    cases hpage : s.pages id with
    | none =>
      rw [hpage] at h
      cases h
    | some page =>
      rw [hpage] at h
      cases page with
      | leaf p =>
        cases h
        exact ⟨id, hpage⟩
      | internal p =>
        obtain ⟨child, -, h⟩ := Option.bind_eq_some_iff.mp h
        exact ih h

variable [LinearOrder K] {key : K} {value : V}

theorem LeavesFull.insertAt {leaf : LeafPage K V} {rounds : ℕ} (h : LeavesFull s)
    (hleaf : leaf.array ≠ []) (hs : s.insertAt cfg rounds leaf key value = some s') :
    LeavesFull s' := by
  obtain ⟨leaf', hinsert, hs⟩ := Option.bind_eq_some_iff.mp hs
  have hsize : 2 ≤ leaf'.size := by
    unfold LeafPage.insert at hinsert
    by_cases hroom : leaf.size < leaf.maxSize + 1
    · rw [if_pos hroom] at hinsert
      cases hinsert
      have hpos := List.length_pos_of_ne_nil hleaf
      have hlen : (leaf.array.take (leaf.keyIndex key) ++
          (key, value) :: leaf.array.drop (leaf.keyIndex key)).length = leaf.array.length + 1 := by
        rw [List.length_append, List.length_cons, ← Nat.add_assoc, ← List.length_append,
          List.take_append_drop]
      show 2 ≤ List.length _
      rw [hlen]
      exact Nat.succ_le_succ hpos
    · rw [if_neg hroom] at hinsert
      cases hinsert
  have h₁ : LeavesFull (s.write (.leaf leaf')) := h.write (fun p hp => by
    cases hp
    exact List.ne_nil_of_length_pos (Nat.lt_of_succ_le (Nat.le_of_succ_le hsize)))
  dsimp only at hs
  by_cases hfull : leaf'.maxSize < leaf'.size
  · rw [if_pos hfull] at hs
    obtain ⟨⟨s₂, new⟩, hs₂, hs⟩ := Option.bind_eq_some_iff.mp hs
    obtain ⟨first, -, hs⟩ := Option.bind_eq_some_iff.mp hs
    exact (h₁.splitLeaf hsize hs₂).insertIntoParent hs
  · rw [if_neg hfull] at hs
    cases hs
    exact h₁

/-- **Insertions leave no leaf empty.** -/
theorem LeavesFull.insert {answer : Bool} (h : LeavesFull s)
    (hs : s.insert cfg key value = some (s', answer)) : LeavesFull s' := by
  unfold BPlusTree.insert at hs
  by_cases hempty : s.isEmpty = true
  · rw [if_pos hempty] at hs
    obtain ⟨s₁, hs₁, hs⟩ := Option.map_eq_some_iff.mp hs
    cases hs
    unfold startNewTree at hs₁
    obtain ⟨root, hroot, hs⟩ := Option.bind_eq_some_iff.mp hs₁
    cases hs
    cases hroot
    refine LeavesFull.write h (fun p hp => ?_)
    cases hp
    nofun
  · rw [if_neg hempty, insertIntoLeaf_eq] at hs
    obtain ⟨leaf, hfind, hs⟩ := Option.bind_eq_some_iff.mp hs
    by_cases hfound : (leaf.lookup key).isSome = true
    · rw [if_pos hfound] at hs
      cases hs
      exact h
    · rw [if_neg hfound] at hs
      obtain ⟨s₁, hs₁, hs⟩ := Option.map_eq_some_iff.mp hs
      cases hs
      obtain ⟨id, hpage⟩ := exists_of_findLeafFrom hfind
      exact h.insertAt (h id leaf hpage) hs₁

/-! ## Runs of insertions -/

/-- `Insert` of an entry. -/
def insertEntry (cfg : TreeConfig) (s : BPlusTree K V) (e : K × V) :
    Option (BPlusTree K V × Bool) :=
  s.insert cfg e.1 e.2

omit [LinearOrder K] [Inhabited K] in
/-- The tree is empty, or it is one whose last leaf has page 0 after it. -/
inductive Linked [LinearOrder K] (cfg : TreeConfig) (s : BPlusTree K V) : Contents K V → Prop
  | empty : s.rootPageId = invalidPageId → Linked cfg s .empty
  | tree {n : ℕ} {t : PageTree K V n} : HoldsTree cfg s t 0 → Linked cfg s (.tree t)

omit [Inhabited K] in
theorem Linked.isSearchTree {contents : Contents K V} (h : Linked cfg s contents) :
    s.IsSearchTree cfg contents := by
  cases h with
  | empty hroot => exact hroot
  | tree ht => exact ⟨0, ht⟩

/-- **An insertion** leaves page 0 after the last leaf. -/
theorem Linked.insert {contents : Contents K V} {answer : Bool} (hleaf : 1 ≤ cfg.leafMaxSize)
    (hinternal : 3 ≤ cfg.internalMaxSize) (h : Linked cfg s contents)
    (hs : s.insert cfg key value = some (s', answer)) : ∃ contents', Linked cfg s' contents' := by
  cases h with
  | empty hroot =>
    have hempty : s.isEmpty = true := decide_eq_true hroot
    obtain ⟨s₁, id, hrun, ht⟩ := exists_startNewTree s cfg key value hleaf
    rw [BPlusTree.insert, hempty, if_pos rfl, hrun] at hs
    cases hs
    exact ⟨_, .tree ht⟩
  | @tree n t ht =>
    by_cases hfound : ∃ v, (key, v) ∈ t.entries
    · obtain ⟨v, hv⟩ := hfound
      rw [ht.insert_of_mem hv value] at hs
      cases hs
      exact ⟨_, .tree ht⟩
    · obtain ⟨s₁, m, t', hrun, ht', -⟩ :=
        ht.exists_insert hleaf hinternal (not_exists.mp hfound) value
      rw [hrun] at hs
      cases hs
      exact ⟨_, .tree ht'⟩

/-- **A reached tree**: no leaf is empty, and page 0 comes after the last one. -/
theorem exists_linked (hleaf : 1 ≤ cfg.leafMaxSize) (hinternal : 3 ≤ cfg.internalMaxSize)
    (hrun : Machine.Reaches (insertEntry cfg) (fun _ _ => True) BPlusTree.empty s) :
    LeavesFull s ∧ ∃ contents, Linked cfg s contents := by
  refine hrun.invariant (I := fun s => LeavesFull s ∧ ∃ contents, Linked cfg s contents)
    ?_ ?_
  · exact ⟨fun _ _ hp => (by cases hp), .empty, .empty rfl⟩
  · rintro s e s' answer ⟨hfull, contents, hlinked⟩ - hs
    exact ⟨hfull.insert hs, hlinked.insert hleaf hinternal hs⟩

variable {contents : Contents K V}

omit [Inhabited K] in
/-- The steps in such a tree. -/
theorem Linked.next_eq (h : Linked cfg s contents) (hfull : LeavesFull s)
    (hit : contents.positions[k]? = some it) :
    it.next s = match contents.positions[k + 1]? with
      | some it' => some it'
      | none => (s.fetchLeaf 0).map (fun p => ⟨p.pageId, 0⟩) := by
  cases h with
  | empty => cases hit
  | @tree n t ht =>
    have hchain := ht.stored.chained ht.separated.branches
    refine next_positionsIn hchain (fun l hl => ?_) (fun l hl hid => ?_) hit
    · obtain ⟨p, hp, -, harray⟩ := hchain.of_mem hl
      exact harray ▸ hfull l.id p hp
    · exact ht.valid (hid ▸ id_mem_ids_of_mem_leaves hl)

omit [Inhabited K] in
/-- The positions are those of the entries. -/
theorem Linked.item_eq (h : Linked cfg s contents) (k : ℕ) :
    contents.positions[k]?.bind (IndexIterator.item s) = contents.entries[k]? := by
  cases h with
  | empty => rfl
  | @tree n t ht =>
    show (positionsIn t.leaves)[k]?.bind _ = t.entries[k]?
    rw [entries_eq]
    exact item_positionsIn (ht.stored.chained ht.separated.branches) k

omit [LinearOrder K] [Inhabited K] in
theorem length_positions : contents.positions.length = contents.entries.length := by
  cases contents with
  | empty => rfl
  | tree t =>
    show (positionsIn t.leaves).length = t.entries.length
    rw [length_positionsIn, entries_eq]

omit [Inhabited K] in
/-- From the last entry the iterator does not get to `INVALID_INDEX`. -/
theorem Linked.next_of_last (h : Linked cfg s contents) (hfull : LeavesFull s)
    (hit : contents.positions[k]? = some it) (hk : k + 1 = contents.entries.length)
    {it' : IndexIterator} (hnext : it.next s = some it') : it'.index ≠ invalidIndex := by
  have hend : contents.positions[k + 1]? = none :=
    List.getElem?_eq_none (length_positions.trans hk.symm).le
  rw [h.next_eq hfull hit, hend] at hnext
  obtain ⟨p, -, rfl⟩ := Option.map_eq_some_iff.mp hnext
  exact (by decide : (0 : ℤ) ≠ -1)

omit [Inhabited K] in
/-- No walk ends. -/
theorem Linked.steps_ne (h : Linked cfg s contents) (hfull : LeavesFull s) {m : ℕ}
    (hit : contents.positions[k]? = some it) (hk : k + (m + 1) = contents.entries.length)
    {it' : IndexIterator} (hsteps : steps s (m + 1) it = some it') : it'.index ≠ invalidIndex := by
  induction m generalizing k it with
  | zero =>
    obtain ⟨it₁, hnext, hrest⟩ := Option.bind_eq_some_iff.mp hsteps
    cases hrest
    exact h.next_of_last hfull hit hk hnext
  | succ m ih =>
    obtain ⟨it₁, hnext, hrest⟩ := Option.bind_eq_some_iff.mp hsteps
    have hlt : k + 1 < contents.positions.length := by
      rw [length_positions]
      omega
    have hget := List.getElem?_eq_getElem hlt
    rw [h.next_eq hfull hit, hget] at hnext
    cases hnext
    exact ih hget (by omega) hrest

/-- **Steps in the trees that insertions build.** `operator++` goes on from every entry but
the last one, from which it never gets to `INVALID_INDEX`, and so no walk ends. -/
theorem stepsRight_iff (hleaf : 1 ≤ cfg.leafMaxSize) (hinternal : 3 ≤ cfg.internalMaxSize)
    (hrun : Machine.Reaches (insertEntry cfg) (fun _ _ => True) BPlusTree.empty s) :
    ∃ contents, s.IsSearchTree cfg contents ∧
      (∀ k : ℕ, contents.positions[k]?.bind (IndexIterator.item s) = contents.entries[k]?) ∧
      ∀ k < contents.entries.length,
        (StepsRight s contents k ↔ k + 1 < contents.entries.length) ∧ ¬ WalkEnds s contents k := by
  obtain ⟨hfull, contents, h⟩ := exists_linked hleaf hinternal hrun
  refine ⟨contents, h.isSearchTree, h.item_eq, fun k hk => ⟨⟨?_, fun hlt => ?_⟩, ?_⟩⟩
  · rintro ⟨it, hit, hnext⟩
    refine lt_of_le_of_ne hk (fun hlast => ?_)
    have hend : contents.positions[k + 1]? = none :=
      List.getElem?_eq_none (length_positions.trans hlast.symm).le
    rw [hend, Option.getD_none] at hnext
    exact h.next_of_last hfull hit hlast hnext rfl
  · have hget := List.getElem?_eq_getElem (length_positions.symm ▸ hk)
    have hget' := List.getElem?_eq_getElem (length_positions.symm ▸ hlt)
    refine ⟨_, hget, ?_⟩
    rw [h.next_eq hfull hget, hget', Option.getD_some]
  · rintro ⟨it, it', hit, hsteps, hindex⟩
    obtain ⟨m, hm⟩ := Nat.exists_eq_add_of_lt hk
    have hcount : contents.entries.length - k = m + 1 := by omega
    rw [hcount] at hsteps
    exact h.steps_ne hfull hit (by omega) hsteps hindex

/-- Two entries are inserted: the step from the first one is right. -/
theorem stepsRight_two : ∃ s os, Machine.run (insertEntry (TreeConfig.above 4 4))
      (BPlusTree.empty : BPlusTree ℕ ℕ) [(1, 10), (2, 20)] = some (s, os) ∧
    ∃ contents, s.IsSearchTree (TreeConfig.above 4 4) contents ∧
      (∀ k : ℕ, contents.positions[k]?.bind (IndexIterator.item s) = contents.entries[k]?) ∧
      ∀ k < contents.entries.length,
        (StepsRight s contents k ↔ k + 1 < contents.entries.length) ∧
          ¬ WalkEnds s contents k := by
  have hsome : (Machine.run (insertEntry (TreeConfig.above 4 4))
      (BPlusTree.empty : BPlusTree ℕ ℕ) [(1, 10), (2, 20)]).isSome = true := rfl
  obtain ⟨⟨s, os⟩, hrun⟩ := Option.isSome_iff_exists.mp hsome
  exact ⟨s, os, hrun, stepsRight_iff (by decide) (by decide)
    (Machine.Reaches.init.run (Machine.meets_of_forall (fun _ _ => trivial) _ _) hrun)⟩

/-- **After one insertion** the step from the only entry does not get to `INVALID_INDEX`. -/
theorem not_stepsRight : ¬ ∀ (cfg : TreeConfig) (s : BPlusTree ℕ ℕ) (contents : Contents ℕ ℕ),
    2 ≤ cfg.leafMaxSize → 3 ≤ cfg.internalMaxSize →
    Machine.Reaches (insertEntry cfg) (fun _ _ => True) BPlusTree.empty s →
    s.IsSearchTree cfg contents →
    ∀ k < contents.entries.length, StepsRight s contents k ∧ WalkEnds s contents k := by
  intro hall
  obtain ⟨s, id, hrun, ht⟩ :=
    exists_startNewTree (BPlusTree.empty : BPlusTree ℕ ℕ) (.above 4 4) 1 10 (by decide)
  have hinsert : insertEntry (.above 4 4) BPlusTree.empty (1, 10) = some (s, true) := by
    rw [insertEntry, BPlusTree.insert, if_pos (by decide), hrun]
    rfl
  have hreach : Machine.Reaches (insertEntry (.above 4 4)) (fun _ _ => True) BPlusTree.empty s :=
    .next .init trivial hinsert
  obtain ⟨⟨it, hit, hnext⟩, -⟩ := hall (.above 4 4) s (.tree (leaf id [(1, 10)])) (by decide)
    (by decide) hreach ⟨0, ht⟩ 0 Nat.one_pos
  exact (Linked.tree ht).next_of_last (exists_linked (by decide) (by decide) hreach).1 hit rfl
    hnext rfl

end BPlusTree

end MiniSql
