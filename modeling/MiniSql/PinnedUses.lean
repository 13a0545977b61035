import MiniSql.BPlusTreePoolRuns
import MiniSql.PagedHeapPool
import MiniSql.PinBalance

/-!
# Pages in use and their pins

`FindLeafPage` gives its leaf back unpinned, so the leaf is there for as long as
no other page is asked for. A call that stays in the leaf, or that starts the
tree, uses no pointer for longer than that (`StaysInLeaf`). A split, a new key in
the parent and a leaf that gets too small ask for another page and then use the
leaf again.
-/

namespace MiniSql

open PoolCalls Program Family

variable {K V : Type}

/-- `Insert` of a leaf adds one entry. -/
theorem LeafPage.insert_size [LinearOrder K] {page page' : LeafPage K V} {key : K} {value : V}
    (h : page.insert key value = some page') :
    page'.maxSize = page.maxSize ∧ page'.size = page.size + 1 := by
  obtain ⟨-, h⟩ := Option.ite_none_right_eq_some.mp h
  cases h
  refine ⟨rfl, ?_⟩
  show (page.array.take (page.keyIndex key) ++ (key, value) ::
    page.array.drop (page.keyIndex key)).length
    = page.array.length + 1
  rw [List.length_append, List.length_cons, ← Nat.add_assoc, ← List.length_append,
    List.take_append_drop]

namespace PooledTree

/-- A pointer that may be used: no frame has been asked for since it was handed
out. -/
def Usable (p : Pointer PageId) (s : PooledTree K V) : Prop := Clean s.log ∧ Fresh s.log p

variable {env : TreeEnv K V} {p : Pointer PageId} {q : PageId} {t : BPlusTree K V}

theorem use_usable : Keeps (Usable (K := K) (V := V) p) (emit (.use p)) :=
  Triple.update (fun _ h => ⟨h.1.use_fresh h.2, h.2.append not_false⟩)

theorem unpinPage_usable : Keeps (Usable (K := K) (V := V) p) (unpinPage q) :=
  Triple.update (fun _ h => ⟨h.1.unpin, h.2.append not_false⟩)

theorem update_usable {f : BPlusTree K V → BPlusTree K V} : Keeps (Usable p) (update f) :=
  Triple.update (fun _ h => h)

theorem fetchPage_usable : Triple (fun s : PooledTree K V => Clean s.log) (fetchPage q) Usable := by
  refine Triple.bind (Q := fun _ s => Clean s.log)
    (Triple.ite (fun _ => ?_) (fun _ => Triple.stuck))
    (fun _ => ?_)
  · exact Triple.update (fun _ h => h.fetch)
  · refine Triple.bind (Triple.read (Q := fun a s => a = s ∧ Clean s.log) (fun _ h => ⟨rfl, h⟩))
      (fun a => Triple.ret ?_)
    rintro s ⟨rfl, h⟩
    exact ⟨h, fresh_now⟩

/-- What a use keeps is kept by looking at the page. -/
theorem deref_keeps {I : PooledTree K V → Prop} (hI : Keeps I (emit (.use p))) :
    Keeps I (deref p) := by
  refine Triple.bind hI (fun _ => ?_)
  refine Triple.bind (Triple.read (Q := fun _ => I) (fun _ h => h)) (fun s => ?_)
  exact Triple.lift (fun _ _ _ h => h)

theorem derefLeaf_keeps {I : PooledTree K V → Prop} (hI : Keeps I (emit (.use p))) :
    Keeps I (derefLeaf p) := by
  refine Triple.bind (deref_keeps hI) (fun page => ?_)
  cases page with
  | leaf page => exact Triple.ret (fun _ h => h)
  | internal page => exact Triple.stuck

/-- A leaf of the tree is what the tree has there. -/
theorem derefLeaf_own {page : LeafPage K V} (hpage : t.pages p.page = some (.leaf page)) :
    Triple (fun s => Usable p s ∧ s.tree = t) (derefLeaf p)
      (fun page' s => page' = page ∧ Usable p s ∧ s.tree = t) := by
  refine ((derefLeaf_keeps use_usable).both derefLeaf_tree).post (fun page' s h => ?_)
  obtain ⟨husable, hpage', htree⟩ := h
  rw [hpage] at hpage'
  cases hpage'
  exact ⟨rfl, husable, htree⟩

theorem getPageId_usable : Keeps (Usable p) (getPageId env p) := by
  refine Triple.bind use_usable (fun _ => ?_)
  refine Triple.bind (Triple.read (Q := fun _ => Usable p) (fun _ h => h)) (fun s => ?_)
  split
  · exact Triple.ret (fun _ h => h)
  · exact Triple.ret (fun _ h => h)

/-- The end of a call that has not left its leaf. -/
theorem unpinOwn_usable : Keeps (Usable p) (do unpinPage (← getPageId env p)) :=
  Triple.bind getPageId_usable (fun _ => unpinPage_usable)

section

variable [LinearOrder K] {key : K} {value : V} {leftMost : Bool}

/-- The leaf that the search ends at may be used. -/
theorem findLeafLoop_usable {rounds : ℕ} : Triple (Usable (K := K) (V := V) p)
    (findLeafLoop key leftMost rounds p) Usable := by
  induction rounds generalizing p with
  | zero => exact Triple.stuck
  | succ rounds ih =>
    refine Triple.bind (deref_keeps use_usable) (fun page => ?_)
    cases page with
    | leaf page => exact Triple.bind unpinPage_usable (fun _ => Triple.ret (fun _ h => h))
    | internal page =>
      refine Triple.bind (Q := fun _ => Usable p) ?_ (fun next => ?_)
      · exact Triple.ite (fun _ => Triple.lift (fun _ _ _ h => h))
          (fun _ => Triple.lift (fun _ _ _ h => h))
      · refine Triple.bind (unpinPage_usable.post (fun _ _ h => h.1)) (fun _ => ?_)
        exact Triple.bind fetchPage_usable (fun _ => ih)

/-- **`FindLeafPage`** gives a leaf that may be used. -/
theorem findLeafPage_usable : Triple (fun s : PooledTree K V => Clean s.log)
    (findLeafPage key leftMost) (fun found s => Clean s.log ∧ ∀ leaf ∈ found, Usable leaf s) := by
  refine Triple.bind (Triple.read (Q := fun _ s => Clean s.log) (fun _ h => h)) (fun s => ?_)
  refine Triple.ite (fun _ => Triple.ret (fun _ h => ⟨h, nofun⟩)) (fun _ => ?_)
  refine Triple.bind fetchPage_usable (fun _ => Triple.bind findLeafLoop_usable (fun leaf => ?_))
  refine Triple.ret (fun _ h => ⟨h.1, ?_⟩)
  rintro _ ⟨⟩
  exact h

/-- The code after a search that must not fail: the leaf may be used, and it is
the one that the search without a buffer pool ends at. -/
theorem findLeaf_usable {α : Type} {f : Pointer PageId → TreeM K V α}
    {R : α → PooledTree K V → Prop}
    (hf : ∀ leaf page, t.findLeafPage key leftMost = some page →
      t.pages leaf.page = some (.leaf page) →
      Triple (fun s => Usable leaf s ∧ s.tree = t) (f leaf) R) :
    Triple (fun s : PooledTree K V => Clean s.log ∧ s.tree = t)
      (findLeafPage key leftMost >>= fun found => liftM found >>= f) R := by
  refine Triple.bind (findLeafPage_usable.both findLeafPage_tree) (fun found => ?_)
  cases found with
  | none => exact Triple.bind (Triple.lift (Q := fun _ _ => False) nofun) (fun _ _ _ _ h => h.elim)
  | some leaf =>
    intro s a s' hs hrun
    obtain ⟨⟨-, husable⟩, ⟨page, hpage, hfind⟩, htree⟩ := hs
    exact hf leaf page hfind hpage s a s' ⟨husable leaf rfl, htree⟩ hrun

/-- A call that stays in the leaf that it searches for, or that starts the
tree: `Insert` without a split, and `Remove` without a new key in the parent from
a leaf that is not too small afterwards. -/
def StaysInLeaf (t : BPlusTree K V) : PooledCall K V → Prop
  | .insert key _ => t.isEmpty ∨ ∀ leaf, t.findLeafPage key false = some leaf →
      (leaf.lookup key).isSome ∨ leaf.size < leaf.maxSize
  | .remove key => t.isEmpty ∨ ∀ leaf, t.findLeafPage key false = some leaf →
      (leaf.keyIndex key ≠ 0 ∨ leaf.parentPageId = invalidPageId) ∧
        (BPlusTreePage.leaf (leaf.removeAndDeleteRecord key)).minSize ≤
          (leaf.removeAndDeleteRecord key).size
  | _ => True

/-- `Remove` that changes its leaf alone. -/
theorem removeFromLeaf_usable {page : LeafPage K V} (hpage : t.pages p.page = some (.leaf page))
    (hkey : page.keyIndex key ≠ 0 ∨ page.parentPageId = invalidPageId)
    (hsize : (BPlusTreePage.leaf (page.removeAndDeleteRecord key)).minSize ≤
      (page.removeAndDeleteRecord key).size) :
    Triple (fun s => Usable p s ∧ s.tree = t) (removeFromLeaf env key p)
      (fun small s => small = false ∧ Usable p s) := by
  refine Triple.andThen (derefLeaf_own hpage) (fun page₁ hpage₁ => ?_)
  cases hpage₁
  have hstay : ¬ (page.keyIndex key = 0 ∧ page.parentPageId ≠ invalidPageId) :=
    fun h => hkey.elim (fun h' => h' h.1) h.2
  rw [if_neg hstay]
  refine Triple.bind (Q := fun _ s => Usable p s ∧ s.tree = t) (Triple.ret (fun _ h => h))
    (fun _ => ?_)
  refine Triple.andThen (derefLeaf_own hpage) (fun page₁ hpage₁ => ?_)
  cases hpage₁
  refine Triple.bind (update_usable.pre (fun _ h => h.1)) (fun _ => Triple.ret (fun _ h => ⟨?_, h⟩))
  exact decide_eq_false (Nat.not_lt.mpr hsize)

/-- **`Remove`** that stays in its leaf. -/
theorem remove_clean (hstay : StaysInLeaf t (.remove key)) :
    Triple (fun s : PooledTree K V => Clean s.log ∧ s.tree = t) (remove env key)
      (fun _ s => Clean s.log) := by
  refine Triple.bind (Triple.read (Q := fun a s => a.tree = t ∧ Clean s.log ∧ s.tree = t)
    (fun _ h => ⟨h.2, h⟩)) (fun a => Triple.assume (fun ha => ?_))
  rw [ha]
  refine Triple.ite (fun _ => Triple.ret (fun _ h => h.1)) (fun hne => ?_)
  refine findLeaf_usable (fun leaf page hfind hpage => ?_)
  obtain ⟨hkey, hsize⟩ := hstay.resolve_left hne page hfind
  refine Triple.andThen (removeFromLeaf_usable hpage hkey hsize) (fun small hsmall => ?_)
  rw [hsmall]
  refine Triple.bind (Q := fun _ => Usable leaf) (Triple.ret (fun _ h => h)) (fun _ => ?_)
  exact unpinOwn_usable.post (fun _ _ h => h.1)

/-- A call that stays in its leaf does not come to `Redistribute`. -/
theorem removeUntilRedistribute_eq_none (hstay : StaysInLeaf t (.remove key)) :
    Triple (fun s : PooledTree K V => Clean s.log ∧ s.tree = t) (removeUntilRedistribute env key)
      (fun found _ => found = none) := by
  refine Triple.bind (Triple.read (Q := fun a s => a.tree = t ∧ Clean s.log ∧ s.tree = t)
    (fun _ h => ⟨h.2, h⟩)) (fun a => Triple.assume (fun ha => ?_))
  rw [ha]
  refine Triple.ite (fun _ => Triple.ret (fun _ _ => rfl)) (fun hne => ?_)
  refine findLeaf_usable (fun leaf page hfind hpage => ?_)
  obtain ⟨hkey, hsize⟩ := hstay.resolve_left hne page hfind
  refine Triple.andThen (removeFromLeaf_usable hpage hkey hsize) (fun small hsmall => ?_)
  rw [hsmall]
  exact Triple.ret (fun _ _ => rfl)

/-- **A call that stays in its leaf** fetches no page that does not show its id. -/
theorem fetchedShown_of_staysInLeaf {s : PooledTree K V} {c : PooledCall K V}
    (hstay : StaysInLeaf s.tree c) : FetchedShown env c { s with log := [] } := by
  cases c with
  | remove key =>
    intro found s' hrun neighbor node index hfound
    have hclean : Clean ({ s with log := [] } : PooledTree K V).log ∧
        ({ s with log := [] } : PooledTree K V).tree = s.tree := ⟨Clean.nil, rfl⟩
    cases (removeUntilRedistribute_eq_none hstay _ _ _ hclean hrun).symm.trans hfound
  | _ => trivial

/-- So it leaves no page pinned. -/
theorem leavesUnpinned_of_staysInLeaf [Inhabited K] {r : IndexRootsPage}
    {calls : List (TreeEnv K V × PooledCall K V)} {answers : List (PooledAnswer V)}
    {s : PooledTree K V} {i : TreeEnv K V × PooledCall K V}
    (hrun : Machine.run step (start r) calls = some (s, answers))
    (hstay : StaysInLeaf s.tree i.2) : s.LeavesUnpinned i :=
  fun _ _ hstep q => Nat.le_zero.mp ((holding_step True (sound_of_run hrun)
    (fun _ => fetchedShown_of_staysInLeaf hstay) hstep).holds trivial q)

/-- **`InsertIntoLeaf`** without a split. -/
theorem insertIntoLeaf_clean [Inhabited K] (hstay : ∀ leaf, t.findLeafPage key false = some leaf →
      (leaf.lookup key).isSome ∨ leaf.size < leaf.maxSize) :
    Triple (fun s => Clean s.log ∧ s.tree = t) (insertIntoLeaf env key value)
      (fun _ s => Clean s.log) := by
  refine findLeaf_usable (fun leaf page hfind hpage => ?_)
  refine Triple.andThen (derefLeaf_own hpage) (fun page₁ hpage₁ => ?_)
  cases hpage₁
  refine Triple.pre (P := Usable leaf) (Triple.ite (fun _ => ?_) (fun hnew => ?_)) (fun _ h => h.1)
  · refine Triple.bind getPageId_usable (fun _ => Triple.bind unpinPage_usable (fun _ => ?_))
    exact Triple.ret (fun _ h => h.1)
  · refine Triple.andThen Triple.known (fun page' hpage' => ?_)
    refine Triple.bind update_usable (fun _ => ?_)
    have hfit : ¬ page'.maxSize < page'.size := by
      obtain ⟨hmax, hsize⟩ := LeafPage.insert_size hpage'
      have hroom := (hstay page hfind).resolve_left hnew
      omega
    rw [if_neg hfit]
    refine Triple.bind (Q := fun _ => Usable leaf) (Triple.ret (fun _ h => h)) (fun _ => ?_)
    refine Triple.bind getPageId_usable (fun _ => Triple.bind unpinPage_usable (fun _ => ?_))
    exact Triple.ret (fun _ h => h.1)

/-! ## The start of a tree -/

/-- A pointer to a page that is pinned, and is not the page of the index
roots. -/
def Kept (p : Pointer PageId) (s : PooledTree K V) : Prop :=
  Clean s.log ∧ Pinned s.log p ∧ p.page ≠ indexRootsPageId

omit [LinearOrder K] in
theorem use_kept : Keeps (Kept (K := K) (V := V) p) (emit (.use p)) :=
  Triple.update (fun _ h => ⟨h.1.use_pinned h.2.1, h.2.1.use, h.2.2⟩)

omit [LinearOrder K] in
theorem newPage_kept {init : PageId → BPlusTreePage K V} :
    Triple (fun s : PooledTree K V => Clean s.log ∧ indexRootsPageId ∈ s.tree.allocated)
      (newPage env init) Kept := by
  refine Triple.bind (Triple.read (Q := fun a s => a = s ∧ Clean s.log ∧
    indexRootsPageId ∈ s.tree.allocated) (fun _ h => ⟨rfl, h⟩)) (fun a => ?_)
  intro s p s' hs hrun
  obtain ⟨rfl, hclean, hmem⟩ := hs
  cases hrun
  have hpin : Pinned (a.log ++ [.new (env.allocatePage a.tree.allocated)])
      ⟨env.allocatePage a.tree.allocated, a.log.length + 1⟩ := by
    have hnow := pinned_now (pinCount_append_new a.log (env.allocatePage a.tree.allocated)).ge
    rwa [List.length_append] at hnow
  exact ⟨hclean.new.use_pinned hpin, hpin.use, fun h => env.fresh _ (h ▸ hmem)⟩

omit [LinearOrder K] in
/-- The page of the index roots is asked for while the new root is pinned. -/
theorem updateRootPageId_kept {insertRecord : Bool} :
    Keeps (Kept p) (updateRootPageId env insertRecord) := by
  refine Triple.bind (Q := fun roots s => Kept p s ∧ Fresh s.log roots) ?_ (fun roots => ?_)
  · refine Triple.bind (Q := fun _ => Kept p) (Triple.ite (fun _ => ?_) (fun _ => Triple.stuck))
      (fun _ => ?_)
    · exact Triple.update (fun _ h => ⟨h.1.fetch, h.2.1.fetch, h.2.2⟩)
    · refine Triple.bind (Triple.read (Q := fun a s => a = s ∧ Kept p s) (fun _ h => ⟨rfl, h⟩))
        (fun a => Triple.ret ?_)
      rintro s ⟨rfl, h⟩
      exact ⟨h, fresh_now⟩
  refine Triple.bind (Q := fun _ => Kept p) ?_ (fun _ => ?_)
  · exact Triple.update (fun _ h => ⟨h.1.1.use_fresh h.2, h.1.2.1.use, h.1.2.2⟩)
  refine Triple.bind (Triple.read (Q := fun a s => a = s ∧ Kept p s) (fun _ h => ⟨rfl, h⟩))
    (fun a => ?_)
  refine Triple.bind (Q := fun _ s => a = s ∧ Kept p s) ?_ (fun indexRoots => ?_)
  · cases insertRecord
    · exact Triple.lift (fun _ _ _ h => h)
    · exact Triple.lift (fun _ _ _ h => h)
  refine Triple.bind (Q := fun _ => Kept p) ?_ (fun _ => ?_)
  · intro s u s' hs hrun
    cases hrun
    obtain ⟨rfl, h⟩ := hs
    exact h
  · exact Triple.update (fun _ h => ⟨h.1.unpin, h.2.1.unpin_of_ne h.2.2, h.2.2⟩)

/-- **`StartNewTree`** keeps the root pinned while it is used. -/
theorem startNewTree_clean :
    Triple (fun s => Clean s.log ∧ indexRootsPageId ∈ s.tree.allocated) (startNewTree env key value)
      (fun _ s => Clean s.log) := by
  refine Triple.bind newPage_kept (fun root => ?_)
  refine Triple.bind (Triple.update (Q := fun _ => Kept root) (fun _ h => h)) (fun _ => ?_)
  refine Triple.bind updateRootPageId_kept (fun _ => ?_)
  refine Triple.bind (derefLeaf_keeps use_kept) (fun page => ?_)
  refine Triple.bind (Triple.lift (Q := fun _ => Kept root) (fun _ _ _ h => h)) (fun page' => ?_)
  refine Triple.bind (Triple.update (Q := fun _ => Kept root) (fun _ h => h)) (fun _ => ?_)
  exact Triple.update (fun _ h => h.1.unpin)

/-! ## Calls -/

theorem getValue_clean : Keeps (fun s : PooledTree K V => Clean s.log) (getValue env key) := by
  refine Triple.bind findLeafPage_usable (fun found => ?_)
  cases found with
  | none => exact Triple.ret (fun _ h => h.1)
  | some leaf =>
    refine Triple.bind ((derefLeaf_keeps use_usable).pre (fun _ h => h.2 leaf rfl)) (fun page => ?_)
    refine Triple.bind getPageId_usable (fun _ => Triple.bind unpinPage_usable (fun _ => ?_))
    exact Triple.ret (fun _ h => h.1)

theorem beginAt_clean : Keeps (fun s : PooledTree K V => Clean s.log) (beginAt key) := by
  refine Triple.bind findLeafPage_usable (fun found => ?_)
  cases found with
  | none => exact Triple.ret (fun _ h => h.1)
  | some leaf =>
    refine Triple.bind ((derefLeaf_keeps use_usable).pre (fun _ h => h.2 leaf rfl)) (fun page => ?_)
    exact Triple.ret (fun _ h => h.1)

theorem endOf_clean : Keeps (fun s : PooledTree K V => Clean s.log) (endOf (K := K) (V := V)) := by
  refine Triple.bind (Triple.read (Q := fun _ s => Clean s.log) (fun _ h => h)) (fun s => ?_)
  refine Triple.bind fetchPage_usable (fun root => ?_)
  refine Triple.bind (deref_keeps use_usable) (fun page => ?_)
  refine Triple.bind (Triple.lift (Q := fun _ s => Clean s.log) (fun _ _ _ h => h.1))
    (fun endKey => ?_)
  refine Triple.bind findLeafPage_usable (fun found => ?_)
  refine Triple.bind (Triple.lift (Q := fun leaf => Usable leaf)
    (fun leaf hleaf _ h => h.2 leaf hleaf))
    (fun leaf => ?_)
  refine Triple.bind unpinPage_usable (fun _ => ?_)
  exact Triple.bind (derefLeaf_keeps use_usable) (fun page => Triple.ret (fun _ h => h.1))

/-- **A call that stays in its leaf** uses every pointer safely. -/
theorem call_clean [Inhabited K] {c : PooledCall K V} (hmem : indexRootsPageId ∈ t.allocated)
    (hstay : StaysInLeaf t c) :
    Triple (fun s => Clean s.log ∧ s.tree = t) (call env c) (fun _ s => Clean s.log) := by
  cases c with
  | insert key value =>
    refine Triple.bind (Q := fun _ s => Clean s.log) ?_ (fun _ => Triple.ret (fun _ h => h))
    refine Triple.bind (Triple.read (Q := fun a s => a.tree = t ∧ Clean s.log ∧ s.tree = t)
      (fun _ h => ⟨h.2, h⟩)) (fun a => Triple.assume (fun ha => ?_))
    rw [ha]
    refine Triple.ite (fun _ => ?_) (fun hne => insertIntoLeaf_clean (hstay.resolve_left hne))
    refine Triple.bind (startNewTree_clean.pre (fun s h => ⟨h.1, ?_⟩))
      (fun _ => Triple.ret (fun _ h => h))
    rw [h.2]
    exact hmem
  | remove key => exact Triple.bind (remove_clean hstay) (fun _ => Triple.ret (fun _ h => h))
  | getValue key =>
    exact Triple.bind (getValue_clean.pre (fun _ h => h.1)) (fun _ => Triple.ret (fun _ h => h))
  | begin =>
    refine Triple.bind (Q := fun _ s => Clean s.log) ?_ (fun _ => Triple.ret (fun _ h => h))
    refine Triple.bind (findLeafPage_usable.pre (fun _ h => h.1)) (fun found => ?_)
    exact Triple.ret (fun _ h => h.1)
  | beginAt key =>
    exact Triple.bind (beginAt_clean.pre (fun _ h => h.1)) (fun _ => Triple.ret (fun _ h => h))
  | endOf =>
    exact Triple.bind (endOf_clean.pre (fun _ h => h.1)) (fun _ => Triple.ret (fun _ h => h))

/-- **One call** that stays in its leaf. -/
theorem Sound.clean_step [Inhabited K] {s s' : PooledTree K V} {i : TreeEnv K V × PooledCall K V}
    {o : PooledAnswer V} (hs : s.Sound) (hstay : StaysInLeaf s.tree i.2)
    (h : PooledTree.step s i = some (s', o)) : Clean s'.log := by
  obtain ⟨⟨o', s''⟩, hcall, heq⟩ := Option.map_eq_some_iff.mp h
  cases heq
  have hstart : Clean ({ s with log := [] } : PooledTree K V).log ∧
      ({ s with log := [] } : PooledTree K V).tree = s.tree := ⟨Clean.nil, rfl⟩
  exact call_clean hs.indexRoots.1 hstay _ _ _ hstart hcall

end

end PooledTree

/-- **Pages in use are pinned**: every use of a pointer after a later call for a
frame is of a page that has been pinned all the time, so that it finds its page in
every pool that evicts unpinned pages alone. -/
def PinnedInUse (log : List (Event PageId)) : Prop := UsesSafe log ∧ UsesFind log

/-- **When pages in use are pinned**: in every tree that is reached, if the call
stays in its leaf; in every heap that is reached, where the pages form a chain,
if and only if one of them has room for the row. -/
theorem pinnedInUse_of_staysInLeaf [LinearOrder K] [Inhabited K] :
    (∀ (r : IndexRootsPage) (calls : List (TreeEnv K V × PooledCall K V))
      (answers : List (PooledAnswer V)) (s s' : PooledTree K V)
      (i : TreeEnv K V × PooledCall K V) (o : PooledAnswer V),
      Machine.run PooledTree.step (PooledTree.start r) calls = some (s, answers) →
      PooledTree.StaysInLeaf s.tree i.2 → PooledTree.step s i = some (s', o) →
      PinnedInUse s'.log) ∧
    ∀ (schema : Schema) (id : PageId) (h₀ h : PagedHeap) (calls : List PagedHeap.Call)
      (answers : List PagedHeap.Answer), PagedHeap.create schema id = some h₀ →
      Machine.run PagedHeap.step h₀ calls = some (h, answers) →
      ∃ ids, h.IsChain ids ∧ ∀ row newPageId rid s',
        PooledHeap.insertTuple row newPageId ⟨h, []⟩ = some (rid, s') →
        (PinnedInUse s'.log ↔ h.HasRoom row ids) := by
  refine ⟨fun r calls answers s s' i o hrun hstay hstep => ?_, ?_⟩
  · have hclean := (PooledTree.sound_of_run hrun).clean_step hstay hstep
    exact ⟨hclean.safe, hclean.usesFind⟩
  · intro schema id h₀ h calls answers hcreate hrun
    obtain ⟨-, ids, slots, hl⟩ :=
      PagedHeap.exists_laid_of_run hcreate (fun c _ => c.brings_true) hrun
    exact ⟨ids, hl.isChain, fun row newPageId rid s' h =>
      PooledHeap.usesSafe_iff_hasRoom hl.isChain h⟩

/-- Leaves of four entries. -/
def fourEnv : TreeEnv ℕ ℕ where
  toTreeConfig := TreeConfig.above 4 4
  indexId := 0
  foreign _ q := ⟨q, 0, 0, 0, []⟩

/-- Pages in use are pinned when a second entry goes into a leaf with room, and when a row enters
a new heap. -/
theorem pinnedInUse_of_staysInLeaf_first :
    (∃ (s s' : PooledTree ℕ ℕ) (answers : List (PooledAnswer ℕ)) (o : PooledAnswer ℕ),
      Machine.run PooledTree.step (PooledTree.start ⟨[]⟩) [(fourEnv, .insert 1 1)] =
        some (s, answers) ∧ ¬ s.tree.isEmpty ∧
      PooledTree.step s (fourEnv, .insert 2 2) = some (s', o) ∧
        s'.log ≠ [] ∧ PinnedInUse s'.log) ∧
    ∃ h rid s', PagedHeap.create idNameSchema 0 = some h ∧
      PooledHeap.insertTuple abRow.fields 1 ⟨h, []⟩ = some (rid, s') ∧ PinnedInUse s'.log := by
  obtain ⟨htree, hheap⟩ := pinnedInUse_of_staysInLeaf (K := ℕ) (V := ℕ)
  refine ⟨?_, ?_⟩
  · have hrun : (Machine.run PooledTree.step (PooledTree.start ⟨[]⟩)
        [(fourEnv, PooledCall.insert 1 1)]).bind (fun r =>
          (PooledTree.step r.1 (fourEnv, .insert 2 2)).map (fun r' => (r'.1.log.isEmpty,
            r.1.tree.isEmpty, (r.1.tree.findLeafPage 2 false).map (fun leaf =>
              (leaf.size, leaf.maxSize))))) = some (false, false, some (1, 4)) := by
      decide +kernel
    obtain ⟨⟨s, answers⟩, hprefix, hrest⟩ := Option.bind_eq_some_iff.mp hrun
    obtain ⟨⟨s', o⟩, hstep, hout⟩ := Option.map_eq_some_iff.mp hrest
    simp only [Prod.mk.injEq] at hout
    obtain ⟨hlog, hempty, hleaf⟩ := hout
    have hstays : PooledTree.StaysInLeaf s.tree (.insert 2 2) := by
      refine .inr (fun leaf hfind => .inr ?_)
      rw [hfind, Option.map_some, Option.some_inj, Prod.mk.injEq] at hleaf
      rw [hleaf.1, hleaf.2]
      decide
    refine ⟨s, s', answers, o, hprefix, ?_, hstep, ?_,
      htree ⟨[]⟩ _ answers s s' (fourEnv, .insert 2 2) o hprefix hstays hstep⟩
    · rw [hempty]
      exact nofun
    · rintro h
      rw [h] at hlog
      cases hlog
  · have hinsert : (PagedHeap.create idNameSchema 0).bind (fun h =>
        (Tuple.ofFields abRow.fields).bind (fun t =>
          (PooledHeap.insertTuple abRow.fields 1 ⟨h, []⟩).map (fun _ => (h.firstPageId,
            (TablePage.insertTuple (h.bufferPool.data 0) t).2.isSome)))) = some (0, true) := rfl
    obtain ⟨h, hcreate, hinsert⟩ := Option.bind_eq_some_iff.mp hinsert
    obtain ⟨t, ht, hinsert⟩ := Option.bind_eq_some_iff.mp hinsert
    obtain ⟨⟨rid, s'⟩, hrun, heq⟩ := Option.map_eq_some_iff.mp hinsert
    obtain ⟨hfirst, hroom⟩ := Prod.mk.inj heq
    obtain ⟨ids, ⟨-, hin, hlinked⟩, hiff⟩ := hheap idNameSchema 0 h h [] [] hcreate rfl
    refine ⟨h, rid, s', hcreate, hrun, (hiff _ _ rid s' hrun).mpr ⟨t, ht, 0, ?_, ?_⟩⟩
    · cases ids with
      | nil => exact absurd (hfirst.symm.trans hlinked) (by decide)
      | cons first ids => exact List.mem_cons.mpr (.inl (hfirst.symm.trans hlinked.1))
    · exact Option.isSome_iff_ne_none.mp hroom

/-- **An unpinned page is used** by an insertion that splits the root: the old
leaf, after the new one has been asked for. -/
theorem not_pinnedInUse : ¬ ∀ (r : IndexRootsPage) (calls : List (TreeEnv ℕ ℕ × PooledCall ℕ ℕ))
    (answers : List (PooledAnswer ℕ)) (s : PooledTree ℕ ℕ),
    Machine.run PooledTree.step (PooledTree.start r) calls = some (s, answers) →
      PinnedInUse s.log := by
  intro h
  have hlog : (Machine.run PooledTree.step (PooledTree.start ⟨[]⟩)
      ([1, 2, 3, 4, 5].map (fun k => (fourEnv, .insert k k)))).map (fun r => r.1.log.take 9) =
      some ([.fetch 2, .use ⟨2, 1⟩, .unpin 2, .use ⟨2, 1⟩, .use ⟨2, 1⟩, .new 3, .use ⟨3, 6⟩,
        .use ⟨3, 6⟩] ++ [.use ⟨2, 1⟩]) := by
    decide +kernel
  obtain ⟨⟨s, answers⟩, hrun, hs⟩ := Option.map_eq_some_iff.mp hlog
  have hsafe := (h _ _ _ s hrun).1.take 9
  rw [hs] at hsafe
  exact absurd hsafe (@not_usesSafe_use _ _ _ _ (by decide) (.new 3) (by decide) trivial
    (by decide))

end MiniSql
