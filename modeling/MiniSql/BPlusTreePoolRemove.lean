import MiniSql.BPlusTreePoolInsert

/-!
# What removal leaves

One rule for each function of the removal. A page is left pinned in one place
alone: `Redistribute` fetches the two leaves that follow the one for a key, and
gives up the pages whose ids these frames show. After the last leaf comes page
0, which is none of the tree.
-/

namespace MiniSql

open PoolCalls Program Family

variable {K V : Type}

/-- `SetKeyAt` changes a key alone. -/
theorem InternalPage.setKeyAt_links {page page' : InternalPage K} {i : ℕ} {key : K}
    (h : page.setKeyAt i key = some page') :
    page'.pageId = page.pageId ∧ page'.parentPageId = page.parentPageId ∧
      page'.array.map Prod.snd = page.array.map Prod.snd := by
  obtain ⟨e, he, rfl⟩ := Option.map_eq_some_iff.mp h
  refine ⟨rfl, rfl, ?_⟩
  show (page.array.set i (key, e.2)).map Prod.snd = _
  rw [List.map_set]
  obtain ⟨hi, rfl⟩ := List.getElem?_eq_some_iff.mp he
  have hi' : i < (page.array.map Prod.snd).length := by rwa [List.length_map]
  have heq : page.array[i].2 = (page.array.map Prod.snd)[i] := (List.getElem_map _).symm
  rw [heq, List.set_getElem_self]

/-- `ValueIndex` finds the child. -/
theorem InternalPage.valueIndex_eq_some {page : InternalPage K} {v : PageId} {i : ℕ}
    (h : page.valueIndex v = some i) : (page.array.map Prod.snd)[i]? = some v := by
  obtain ⟨hi, hv, -⟩ := List.findIdx?_eq_some_iff_getElem.mp h
  rw [List.getElem?_map, List.getElem?_eq_getElem hi, Option.map_some, of_decide_eq_true hv]

/-- `RemoveAndReturnOnlyChild` gives the only child. -/
theorem InternalPage.children_onlyChild {page : InternalPage K} {child : PageId}
    (h : page.removeAndReturnOnlyChild = some child) : page.array.map Prod.snd = [child] := by
  unfold removeAndReturnOnlyChild at h
  split at h
  · rename_i c hc
    rw [hc]
    exact congrArg (fun i => [i]) (Option.some.inj h)
  · exact absurd h nofun

/-- `MoveFirstToEndOf` of a leaf moves an entry alone. -/
theorem LeafPage.moveFirstToEndOf_links {page recipient : LeafPage K V}
    {r : LeafPage K V × LeafPage K V} (h : page.moveFirstToEndOf recipient = some r) :
    (r.1.pageId = page.pageId ∧ r.1.parentPageId = page.parentPageId) ∧
      r.2.pageId = recipient.pageId ∧ r.2.parentPageId = recipient.parentPageId := by
  obtain ⟨e, -, rfl⟩ := Option.map_eq_some_iff.mp h
  exact ⟨⟨rfl, rfl⟩, rfl, rfl⟩

/-- So does `MoveLastToFrontOf`. -/
theorem LeafPage.moveLastToFrontOf_links {page recipient : LeafPage K V}
    {r : LeafPage K V × LeafPage K V} (h : page.moveLastToFrontOf recipient = some r) :
    (r.1.pageId = page.pageId ∧ r.1.parentPageId = page.parentPageId) ∧
      r.2.pageId = recipient.pageId ∧ r.2.parentPageId = recipient.parentPageId := by
  obtain ⟨e, -, rfl⟩ := Option.map_eq_some_iff.mp h
  exact ⟨⟨rfl, rfl⟩, rfl, rfl⟩

/-- `RemoveAndDeleteRecord` deletes entries alone. -/
theorem LeafPage.removeAndDeleteRecord_links [LinearOrder K] (page : LeafPage K V) (key : K) :
    (page.removeAndDeleteRecord key).pageId = page.pageId ∧
      (page.removeAndDeleteRecord key).parentPageId = page.parentPageId := by
  unfold removeAndDeleteRecord
  split
  · exact ⟨rfl, rfl⟩
  · split
    · exact ⟨rfl, rfl⟩
    · exact ⟨rfl, rfl⟩

/-- **A child moves** from one internal page to another. -/
structure MovesChild (page recipient : InternalPage K) (child : PageId)
    (r : InternalPage K × InternalPage K) : Prop where
  pageId : r.1.pageId = page.pageId
  parentPageId : r.1.parentPageId = page.parentPageId
  recipientId : r.2.pageId = recipient.pageId
  recipientParent : r.2.parentPageId = recipient.parentPageId
  perm : (page.array.map Prod.snd).Perm (child :: r.1.array.map Prod.snd)
  recipientPerm : (r.2.array.map Prod.snd).Perm (child :: recipient.array.map Prod.snd)

theorem InternalPage.moveFirstToEndOf_links {page recipient : InternalPage K} {key : K}
    {child : PageId} {r : InternalPage K × InternalPage K} (hchild : page.valueAt 0 = some child)
    (h : page.moveFirstToEndOf recipient key = some r) : MovesChild page recipient child r := by
  obtain ⟨c, hc, rfl⟩ := Option.map_eq_some_iff.mp h
  obtain ⟨cs, hcs⟩ := List.head?_eq_some_iff.mp hc
  have heq : c.2 = child := by
    rw [InternalPage.valueAt, hcs] at hchild
    exact Option.some.inj hchild
  refine ⟨rfl, rfl, rfl, rfl, ?_, ?_⟩
  · rw [hcs, ← heq]
    exact List.Perm.refl _
  · show ((recipient.array ++ [(key, c.2)]).map Prod.snd).Perm _
    rw [List.map_append, ← heq]
    exact List.perm_append_singleton _ _

theorem InternalPage.moveLastToFrontOf_links {page recipient : InternalPage K} {key : K}
    {child : PageId} {r : InternalPage K × InternalPage K}
    (hchild : page.valueAt (page.size - 1) = some child)
    (h : page.moveLastToFrontOf recipient key = some r) : MovesChild page recipient child r := by
  obtain ⟨c, hc, rfl⟩ := Option.map_eq_some_iff.mp h
  have hsplit : page.array.dropLast ++ [c] = page.array := List.dropLast_append_getLast? c hc
  have heq : c.2 = child := by
    rw [InternalPage.valueAt, InternalPage.size, ← List.getLast?_eq_getElem?, hc] at hchild
    exact Option.some.inj hchild
  refine ⟨rfl, rfl, rfl, rfl, ?_, ?_⟩
  · show (page.array.map Prod.snd).Perm (child :: page.array.dropLast.map Prod.snd)
    rw [← hsplit, List.map_append, ← heq, List.dropLast_concat]
    exact List.perm_append_singleton _ _
  · show (((c :: recipient.array.modifyHead _) : List (K × PageId)).map Prod.snd).Perm _
    rw [List.map_cons, ← heq]
    cases recipient.array <;> exact List.Perm.refl _

namespace PooledTree

variable {counted : Prop} {A B : Store PageId → IndexRootsPage → Prop} {log : List (Event PageId)}
  {held held' : PageId → ℕ} {env : TreeEnv K V} {p node neighbor parent : Pointer PageId}
  {q : PageId} {key : K}

/-! ## Pages that get a new parent -/

/-- `adoptOne` gives up the child. -/
theorem adoptOne_rule {child : PageId} (hp : ∀ σ r, A σ r → σ.up p.page ≠ none)
    (hf : ∀ σ r, A σ r → B (σ.adopt p.page [child]) r) :
    Triple (Holding (K := K) (V := V) counted A log held) (adoptOne env p child)
      (fun _ => Holding counted B log held) := by
  refine Triple.andThen fetchPage_rule (fun page hpage => ?_)
  refine Triple.andThen (getPageId_rule hp) (fun id hid => ?_)
  refine Triple.bind (setParentPageId_rule (B := fun σ r => B σ r ∧ σ.up page.page ≠ none) ?_)
    (fun _ => ?_)
  · intro σ r h
    rw [hid, hpage]
    exact ⟨hf σ r h, by simp⟩
  refine Triple.andThen (getPageId_rule (fun _ _ h => h.2)) (fun id' hid' => ?_)
  refine Triple.post (unpinPage_rule held ?_) (fun _ _ h => h.imp (fun _ _ h => h.1))
  rw [hid']
  exact fun _ => le_rfl

/-- `CopyNFrom` gives up all of them. -/
theorem adoptAll_rule {children : List PageId} (hp : ∀ σ r, A σ r → σ.up p.page ≠ none)
    (hf : ∀ σ r, A σ r → B (σ.adopt p.page children) r) :
    Triple (Holding (K := K) (V := V) counted A log held) (adoptAll env p children)
      (fun _ => Holding counted B log held) := by
  induction children generalizing A with
  | nil => exact Triple.ret (fun _ h => h.imp (fun σ r hA => Store.adopt_nil (σ := σ) ▸ hf σ r hA))
  | cons child children ih =>
    refine Triple.bind (adoptOne_rule (B := fun σ r =>
      ∃ σ₁, A σ₁ r ∧ σ = σ₁.adopt p.page [child]) hp ?_) (fun _ => ih ?_ ?_)
    · exact fun σ r hA => ⟨σ, hA, rfl⟩
    · rintro _ r ⟨σ₁, hA, rfl⟩
      exact Store.up_adopt_ne_none (hp σ₁ r hA)
    · rintro _ r ⟨σ₁, hA, rfl⟩
      rw [Store.adopt_adopt]
      exact hf σ₁ r hA

/-! ## Siblings -/

/-- **`FindSibling`** gives another child of the parent, pinned. -/
theorem findSibling_rule (hA : ∀ σ r, A σ r → Linked invalidPageId σ) :
    Triple (Holding (V := V) counted A log held) (findSibling env node) (fun found s =>
      found.1.page ≠ node.page ∧ Holding counted A log (held + one found.1.page) s) := by
  refine fix_links (fun σ₀ r₀ h₀ => ?_)
  have hl := hA σ₀ r₀ h₀
  refine Triple.andThen deref_rule (fun page hid => ?_)
  refine Triple.andThen fetchPage_rule (fun parent hparent => ?_)
  refine assume_links (fun σ r h => h.1.1 ▸ h.2) (fun hshow => ?_)
  refine Triple.andThen (getPageId_rule ?_) (fun nodeId hnodeId => ?_)
  · exact fun σ r h => h.2.ne_none
  refine Triple.andThen derefInternal_rule (fun parentPage hparentPage => ?_)
  refine assume_links (fun σ r h => h.1.1.1 ▸ h.2) (fun hparentShow => ?_)
  refine Triple.andThen Triple.known (fun index hindex => ?_)
  refine Triple.andThen (getPageId_rule (fun _ _ h => h.2.ne_none)) (fun parentId hparentId => ?_)
  refine Triple.bind (unpinPage_rule held ?_) (fun _ => ?_)
  · rw [hparentId]
    exact fun _ => le_rfl
  refine Triple.andThen Triple.known (fun siblingId hsiblingId => ?_)
  refine Triple.andThen fetchPage_rule (fun sibling hsibling => ?_)
  refine Triple.bind getPageId_any (fun _ => Triple.bind unpinPage_any (fun _ => ?_))
  refine Triple.ret (fun s h => ⟨?_, h.imp ?_⟩)
  · -- The two are at different places in the list of the parent.
    intro heq
    have hchildren : σ₀.kids parent.page = parentPage.array.map Prod.snd := hparentShow.2
    have hnodup : (parentPage.array.map Prod.snd).Nodup := hchildren ▸ hl.nodup _
    have hnode := InternalPage.valueIndex_eq_some hindex
    have hlt := (List.getElem?_eq_some_iff.mp hnode).1
    rw [InternalPage.valueAt, ← List.getElem?_map] at hsiblingId
    have hsame := (List.getElem?_inj hlt hnodup).mp (hnode.trans (by
      rw [hsiblingId, hnodeId, ← hsibling]
      exact congrArg some heq.symm))
    split at hsame <;> omega
  · rintro σ r ⟨⟨⟨rfl, rfl⟩, -⟩, -⟩
    exact h₀

/-! ## Coalescing -/

/-- `MoveAllTo` puts the children behind those of the other page. -/
theorem InternalPage.moveAllTo_children {page recipient : InternalPage K} :
    ((page.moveAllTo recipient key).array.map Prod.snd) =
      recipient.array.map Prod.snd ++ page.array.map Prod.snd := by
  show (recipient.array ++ page.array.modifyHead _).map Prod.snd = _
  rw [List.map_append]
  cases page.array <;> rfl

variable {x : ℕ} {σ₀ : Store PageId} {r₀ : IndexRootsPage}

/-- **`Coalesce`** gives up both pages, and the second one goes. -/
theorem coalesce_rule {index : ℕ} (hne : neighbor.page ≠ node.page) :
    Triple (Holding (K := K) (V := V) counted (fun σ r => Evolved x σ₀ r₀ σ r ∧
        (σ.kids parent.page)[index]? = some node.page) log
        (held + one neighbor.page + one node.page))
      (coalesce env neighbor node parent index) (fun page s => page.pageId = parent.page ∧
        Holding counted (fun σ r => Evolved x σ₀ r₀ σ r ∧ σ.up parent.page ≠ none) log held s) := by
  refine fix_links (fun σ₁ r₁ h₁ => ?_)
  obtain ⟨hev, hindex⟩ := h₁
  refine Triple.andThen derefInternal_rule (fun parentPage _ => ?_)
  refine forget (B := fun σ r => σ = σ₁ ∧ r = r₁) ?_ (fun _ _ h => h.1)
  refine Triple.bind (Triple.lift (fun _ _ _ h => h)) (fun middleKey => ?_)
  refine Triple.andThen deref_rule (fun page hpage => ?_)
  refine assume_links (fun σ r h => h.1.1 ▸ h.2) (fun hshow => ?_)
  refine Triple.bind (Q := fun _ => Holding counted (fun σ r => ∃ g, σ₁.up neighbor.page = some g ∧
    σ = (σ₁.put neighbor.page g (σ₁.kids neighbor.page ++ page.children)).adopt neighbor.page
      page.children ∧ r = r₁) log (held + one neighbor.page + one node.page)) ?_ (fun _ => ?_)
  · cases page with
    | leaf page =>
      refine Triple.andThen derefLeaf_rule (fun recipient hrecipient => ?_)
      refine Triple.post (rewrite_rule (fun σ r h => ?_)) (fun _ _ h => h.imp ?_)
      · show Shows recipient.pageId _ σ
        rw [hrecipient]
        exact h.2.leaf rfl
      · rintro σ r ⟨⟨⟨rfl, rfl⟩, -⟩, hup, hkids⟩
        refine ⟨_, hup, ?_, rfl⟩
        rw [BPlusTreePage.children, List.append_nil, Store.adopt_nil, Store.put_self hup rfl]
    | internal page =>
      refine Triple.andThen derefInternal_rule (fun recipient hrecipient => ?_)
      refine Triple.bind (write_rule (B := fun σ r => ∃ g, σ₁.up neighbor.page = some g ∧
        σ = σ₁.put neighbor.page g (σ₁.kids neighbor.page ++ page.array.map Prod.snd) ∧ r = r₁) ?_)
        (fun _ => adoptAll_rule ?_ ?_)
      · rintro σ r ⟨⟨⟨rfl, rfl⟩, -⟩, hup, hkids⟩
        refine ⟨_, hup, ?_, rfl⟩
        show Store.put σ recipient.pageId _ ((page.moveAllTo recipient middleKey).array.map _) = _
        rw [hrecipient, InternalPage.moveAllTo_children, hkids]
        rfl
      · rintro σ r ⟨g, -, rfl, -⟩
        simp
      · rintro σ r ⟨g, hg, rfl, hr⟩
        exact ⟨g, hg, rfl, hr⟩
  refine Triple.andThen (getPageId_rule ?_) (fun nodeId hnodeId => ?_)
  · rintro σ r ⟨g, -, rfl, -⟩
    exact Store.up_adopt_ne_none (Store.up_put_ne_none hshow.ne_none)
  refine Triple.bind (unpinPage_rule (held + one neighbor.page) ?_) (fun _ => ?_)
  · rw [hnodeId]
    exact fun _ => le_rfl
  refine Triple.bind (deletePage_rule (B := fun σ r => ∃ g, σ₁.up neighbor.page = some g ∧
    σ = ((σ₁.put neighbor.page g (σ₁.kids neighbor.page ++ page.children)).adopt neighbor.page
      page.children).drop node.page ∧ r = r₁) ?_) (fun _ => ?_)
  · rintro σ r ⟨g, hg, rfl, hr⟩
    exact ⟨g, hg, by rw [hnodeId], hr⟩
  refine Triple.andThen (getPageId_rule ?_) (fun neighborId hneighborId => ?_)
  · rintro σ r ⟨g, -, rfl, -⟩
    rw [Store.up_drop, if_neg hne]
    exact Store.up_adopt_ne_none (by simp)
  refine Triple.bind (unpinPage_rule held ?_) (fun _ => ?_)
  · rw [hneighborId]
    exact fun _ => le_rfl
  refine Triple.andThen derefInternal_rule (fun parentPage hparentPage => ?_)
  refine Triple.andThen Triple.known (fun parentPage' hparentPage' => ?_)
  obtain ⟨-, hremove⟩ := Option.ite_none_right_eq_some.mp hparentPage'
  cases hremove
  refine Triple.bind (write_rule (B := fun σ r => Evolved x σ₀ r₀ σ r ∧ σ.up parent.page ≠ none)
    ?_) (fun _ => Triple.ret (fun _ h => ⟨hparentPage, h⟩))
  rintro σ r ⟨⟨g, hg, rfl, rfl⟩, hup, hkids⟩
  show Evolved x σ₀ r₀ (Store.put _ parentPage.pageId parentPage.parentPageId
    ((parentPage.array.eraseIdx index).map Prod.snd)) r ∧ _
  rw [hparentPage, ← List.eraseIdx_map]
  refine ⟨hev.confined (confined_merge hev.links hne hg hshow.2 hindex hup hkids), ?_⟩
  exact Store.up_put_ne_none (by rw [hup]; exact Option.some_ne_none _)

/-- So it is where the place of the second page is looked up first. -/
theorem coalesceSecond_rule (hne : neighbor.page ≠ node.page) :
    Triple (Holding (K := K) (V := V) counted (fun σ r => Evolved x σ₀ r₀ σ r ∧
        σ.up node.page ≠ none) log (held + one neighbor.page + one node.page))
      (coalesceSecond env neighbor node parent) (fun page s => page.pageId = parent.page ∧
        Holding counted (fun σ r => Evolved x σ₀ r₀ σ r ∧ σ.up parent.page ≠ none) log held s) := by
  refine Triple.andThen (getPageId_rule (fun _ _ h => h.2)) (fun nodeId hnodeId => ?_)
  refine Triple.andThen derefInternal_rule (fun parentPage hparent => ?_)
  refine Triple.andThen Triple.known (fun index hindex => ?_)
  refine forget (coalesce_rule hne) (fun σ r h => ⟨h.1.1, ?_⟩)
  rw [h.2.2, ← hnodeId]
  exact InternalPage.valueIndex_eq_some hindex

/-! ## Redistribution -/

/-- A page that is none of the tree shows its own id all the same. -/
def ShowsOwnId (env : TreeEnv K V) (σ : Store PageId) (q : PageId) : Prop :=
  σ.up q = none → ∀ l, (env.foreign l q).pageId = q

/-- The end of `Redistribute` gives up the three pages, if the last two show
their ids. -/
theorem unpinAround_rule {middle aft : Pointer PageId} (hp : ∀ σ r, A σ r → σ.up p.page ≠ none)
    (hmiddle : counted → ∀ σ r, A σ r → ShowsOwnId env σ middle.page)
    (haft : counted → ∀ σ r, A σ r → ShowsOwnId env σ aft.page)
    (hle : ∀ r, held' r ≤ (held + one aft.page + one middle.page + one p.page) r) :
    Triple (Holding (K := K) (V := V) counted A log held') (unpinAround env p middle aft)
      (fun _ => Holding counted A log held) := by
  refine Triple.andThen (getPageId_rule hp) (fun id hid => ?_)
  refine Triple.bind (unpinPage_rule (held + one aft.page + one middle.page) ?_)
    (fun _ => ?_)
  · rw [hid]
    exact hle
  refine Triple.andThen (getPageId_own hmiddle) (fun id hid => ?_)
  refine Triple.bind (unpinPage_counted (held + one aft.page) ?_) (fun _ => ?_)
  · intro hc
    rw [hid hc]
    exact fun _ => le_rfl
  refine Triple.andThen (getPageId_own haft) (fun id hid => ?_)
  refine unpinPage_counted _ (fun hc => ?_)
  rw [hid hc]
  exact fun _ => le_rfl

section

variable [LinearOrder K]

/-- The pages that `Redistribute` looks up stay pinned for the time being. -/
theorem fetchAround_rule : Triple (Holding counted A log held) (fetchAround (V := V) env key)
    (fun around => Holding counted A log (held + one around.2.1.page + one around.2.2.page)) := by
  refine findLeaf_andThen (fun pre => ?_)
  refine Triple.andThen derefLeaf_rule (fun page _ => ?_)
  refine forget (B := A) ?_ (fun _ _ h => h.1.1)
  refine Triple.andThen fetchPage_rule (fun middle _ => ?_)
  refine Triple.bind derefAsLeaf_rule (fun page' => ?_)
  refine Triple.andThen fetchPage_rule (fun aft _ => ?_)
  exact Triple.ret (fun _ h => h)

/-- The search for the leaf before them ends as without a buffer pool. -/
theorem fetchAround_tree {t : BPlusTree K V} : Triple (fun s : PooledTree K V => s.tree = t)
    (fetchAround env key) (fun around s => (∃ leaf, t.findLeafPage key false = some leaf ∧
      around.2.1.page = leaf.nextPageId ∧ Next env t around.2.1.page around.2.2.page) ∧
        s.tree = t) := by
  refine Triple.andThen findLeafPage_tree (fun found hfound => ?_)
  refine Triple.andThen Triple.known (fun pre hpre => ?_)
  rw [hpre] at hfound
  obtain ⟨leaf, hleaf, hfind⟩ := hfound
  refine Triple.andThen derefLeaf_tree (fun page hpage => ?_)
  rw [hleaf] at hpage
  cases hpage
  refine Triple.andThen fetchPage_tree (fun middle hmiddle => ?_)
  refine Triple.andThen derefAsLeaf_tree (fun page' hpage' => ?_)
  refine Triple.andThen fetchPage_tree (fun aft haft => ?_)
  refine Triple.ret (fun _ h => ⟨⟨leaf, hfind, hmiddle, ?_⟩, h⟩)
  rw [haft]
  exact hpage'

/-- **The successors show their ids**: the two pages that follow the leaf for a
key. -/
def SuccessorsShow (env : TreeEnv K V) (t : BPlusTree K V) (key : K) : Prop :=
  ∀ leaf, t.findLeafPage key false = some leaf → ShowsOwnId env t.family leaf.nextPageId ∧
    ∀ q, Next env t leaf.nextPageId q → ShowsOwnId env t.family q

/-- The pages that `Redistribute` looks up show their ids. -/
theorem fetchAround_own {t : BPlusTree K V} (h : counted → SuccessorsShow env t key) :
    Triple (fun s => Holding counted A log held s ∧ s.tree = t) (fetchAround env key)
      (fun around => Holding counted (fun σ r => A σ r ∧ (counted →
        ShowsOwnId env σ around.2.1.page ∧ ShowsOwnId env σ around.2.2.page)) log
        (held + one around.2.1.page + one around.2.2.page)) := by
  refine (fetchAround_rule.both fetchAround_tree).post (fun around s hs => ?_)
  obtain ⟨hold, ⟨leaf, hfind, hmiddle, hnext⟩, rfl⟩ := hs
  rw [hmiddle] at hnext
  refine ⟨hold.selfIds, ⟨hold.links, fun hc => ?_⟩, hold.log, hold.holds⟩
  obtain ⟨hown, hown'⟩ := h hc leaf hfind
  rw [hmiddle]
  exact ⟨hown, hown' _ hnext⟩

/-- The two pages that follow the leaf for the last key of the left one of two
siblings, which is the node itself if it is the first child. -/
def SiblingsShow (env : TreeEnv K V) (t : BPlusTree K V) (neighbor node : PageId) (index : ℕ) :
    Prop :=
  ∀ page key, t.pages (if index = 0 then node else neighbor) = some page →
    BPlusTree.lastKey page = some key → SuccessorsShow env t key

variable {middle aft : Pointer PageId}

/-- What is kept in mind of the successors. -/
def Around (env : TreeEnv K V) (counted : Prop) (A : Store PageId → IndexRootsPage → Prop)
    (middle aft : Pointer PageId) (σ : Store PageId) (r : IndexRootsPage) : Prop :=
  A σ r ∧ (counted → ShowsOwnId env σ middle.page ∧ ShowsOwnId env σ aft.page)

omit [LinearOrder K] in
theorem lasts_around (hA : Lasts A) : Lasts (Around env counted A middle aft) where
  linked σ r h := hA.linked σ r h.1
  grows σ σ' r h hg := by
    have hown : ∀ q, ShowsOwnId env σ q → ShowsOwnId env σ' q := fun q hq hnone =>
      hq (by_contra fun hn => hg.keeps q hn hnone)
    exact ⟨hA.grows σ σ' r h.1 hg, fun hc => ⟨hown _ (h.2 hc).1, hown _ (h.2 hc).2⟩⟩

omit [LinearOrder K] in
/-- **Two leaves exchange an entry**, and the pages that have been looked up are
given up. -/
theorem exchangeLeaf_rule {move : LeafPage K V → LeafPage K V →
    Option (LeafPage K V × LeafPage K V)}
    (hmove : ∀ page recipient r, move page recipient = some r →
      (r.1.pageId = page.pageId ∧ r.1.parentPageId = page.parentPageId) ∧
        r.2.pageId = recipient.pageId ∧ r.2.parentPageId = recipient.parentPageId) :
    Triple (Holding counted
      (fun σ r => Around env counted A middle aft σ r ∧ σ.up parent.page ≠ none) log
        (held + one middle.page + one aft.page + one parent.page))
      (do
        let neighborPage ← derefLeaf neighbor
        let page ← derefLeaf node
        let (neighborPage, page) ← move neighborPage page
        update (fun t => (t.write (.leaf neighborPage)).write (.leaf page))
        unpinAround env parent middle aft)
      (fun _ => Holding counted A log held) := by
  refine Triple.andThen derefLeaf_rule (fun neighborPage hneighbor => ?_)
  refine Triple.andThen derefLeaf_rule (fun page hpage => ?_)
  refine Triple.andThen Triple.known (fun moved hmoved => ?_)
  obtain ⟨⟨hid₁, hparent₁⟩, hid₂, hparent₂⟩ := hmove _ _ _ hmoved
  refine Triple.bind (rewrite_two_rule ?_ ?_) (fun _ => ?_)
  · intro σ r h
    show Shows moved.1.pageId _ σ
    rw [hid₁, hneighbor]
    exact h.1.2.leaf hparent₁
  · intro σ r h
    show Shows moved.2.pageId _ σ
    rw [hid₂, hpage]
    exact h.2.leaf hparent₂
  refine Triple.post (unpinAround_rule (fun _ _ h => h.1.1.2) (fun hc _ _ h => (h.1.1.1.2 hc).1)
    (fun hc _ _ h => (h.1.1.1.2 hc).2) ?_) (fun _ _ h => h.imp (fun _ _ h => h.1.1.1.1))
  rw [add_right_comm held]
  exact fun _ => le_rfl

omit [LinearOrder K] in
/-- The parent gets a new key for a child. -/
theorem setKeyAt_rule {parentPage : InternalPage K} {i : ℕ} {key' : K} {α : Type}
    {f : TreeM K V α} {R : α → PooledTree K V → Prop} (hid : parentPage.pageId = parent.page)
    (hA : ∀ σ r, A σ r → Shows (V := V) parent.page (.internal parentPage) σ)
    (hf : Triple (Holding counted A log held) f R) :
    Triple (Holding counted A log held) (do
      let parentPage ← parentPage.setKeyAt i key'
      update (·.write (.internal parentPage))
      f) R := by
  refine Triple.andThen Triple.known (fun page' hpage' => ?_)
  obtain ⟨hid', hparent', harray⟩ := InternalPage.setKeyAt_links hpage'
  refine Triple.bind (rewrite_rule (fun σ r h => ?_)) (fun _ => hf)
  obtain ⟨hup, hkids⟩ := hA σ r h
  show σ.up page'.pageId = some page'.parentPageId ∧ σ.kids page'.pageId = page'.array.map Prod.snd
  rw [hid', hid, hparent', harray]
  exact ⟨hup, hkids⟩

/-- **`Redistribute`** of two leaves. -/
theorem redistributeLeaf_rule {t : BPlusTree K V} {index : ℕ}
    (h : counted → SiblingsShow env t neighbor.page node.page index) :
    Triple (fun s => Holding counted A log held s ∧ s.tree = t)
      (redistributeLeaf env neighbor node index)
      (fun _ => Holding counted A log held) := by
  refine Triple.ite (fun h0 => ?_) (fun h0 => ?_)
  · refine Triple.andThen (derefLeaf_rule.bothKnown derefLeaf_tree) (fun page hpage => ?_)
    refine Triple.andThen Triple.known (fun key hkey => ?_)
    have hshow := fun hc => h hc (.leaf page) key (by rw [if_pos h0]; exact hpage.2) hkey
    refine Triple.bind (fetchAround_own hshow) (fun around => ?_)
    refine Triple.andThen derefLeaf_rule (fun neighborPage _ => ?_)
    refine Triple.andThen fetchPage_rule (fun parent _ => ?_)
    refine Triple.bind getPageId_any (fun neighborId => ?_)
    refine Triple.andThen derefInternal_rule (fun parentPage hparent => ?_)
    refine Triple.bind (Triple.lift (fun _ _ _ h => h)) (fun neighborIndex => ?_)
    refine Triple.bind derefAsLeaf_rule (fun middlePage => ?_)
    refine Triple.bind (Triple.lift (fun _ _ _ h => h)) (fun key' => ?_)
    refine setKeyAt_rule hparent (fun _ _ h => h.2) ?_
    refine forget (exchangeLeaf_rule (fun _ _ _ => LeafPage.moveFirstToEndOf_links)) ?_
    exact fun σ r h => ⟨⟨h.1.1.1.1, h.1.1.2⟩, h.2.ne_none⟩
  · refine Triple.andThen (derefLeaf_rule.bothKnown derefLeaf_tree) (fun page hpage => ?_)
    refine Triple.andThen Triple.known (fun key hkey => ?_)
    have hshow := fun hc => h hc (.leaf page) key (by rw [if_neg h0]; exact hpage.2) hkey
    refine Triple.bind (fetchAround_own hshow) (fun around => ?_)
    refine Triple.andThen derefLeaf_rule (fun neighborPage _ => ?_)
    refine Triple.andThen fetchPage_rule (fun parent _ => ?_)
    refine Triple.bind getPageId_any (fun nodeId => ?_)
    refine Triple.andThen derefInternal_rule (fun parentPage hparent => ?_)
    refine Triple.bind (Triple.lift (fun _ _ _ h => h)) (fun nodeIndex => ?_)
    refine Triple.andThen derefLeaf_rule (fun prePage _ => ?_)
    refine Triple.bind (Triple.lift (fun _ _ _ h => h)) (fun key' => ?_)
    refine setKeyAt_rule hparent (fun _ _ h => h.1.2) ?_
    refine forget (exchangeLeaf_rule (fun _ _ _ => LeafPage.moveLastToFrontOf_links)) ?_
    exact fun σ r h => ⟨⟨h.1.1.1.1.1, h.1.1.1.2⟩, h.1.2.ne_none⟩

omit [LinearOrder K] in
/-- **Two internal pages exchange a child**, and the pages that have been looked
up are given up. -/
theorem exchangeInternal_rule (hA : Lasts A) (hne : neighbor.page ≠ node.page)
    {choose : InternalPage K → Option PageId}
    {move : InternalPage K → InternalPage K → Option (InternalPage K × InternalPage K)}
    (hmove : ∀ page recipient child r, choose page = some child →
      move page recipient = some r → MovesChild page recipient child r) :
    Triple (Holding counted
      (fun σ r => Around env counted A middle aft σ r ∧ σ.up parent.page ≠ none) log
        (held + one middle.page + one aft.page + one parent.page))
      (do
        let neighborPage ← derefInternal neighbor
        let child ← choose neighborPage
        let page ← derefInternal node
        let (neighborPage, page) ← move neighborPage page
        update (fun t => (t.write (.internal neighborPage)).write (.internal page))
        adoptOne env node child
        unpinAround env parent middle aft)
      (fun _ => Holding (V := V) counted A log held) := by
  have hlasts : Lasts (fun σ r => Around env counted A middle aft σ r ∧ σ.up parent.page ≠ none) :=
    (lasts_around hA).and_node parent.page
  refine fix_links (fun σ₁ r₁ h₁ => ?_)
  refine Triple.andThen derefInternal_rule (fun neighborPage hneighbor => ?_)
  refine Triple.andThen Triple.known (fun child hchild => ?_)
  refine Triple.andThen derefInternal_rule (fun page hpage => ?_)
  refine assume_links (φ := Shows (V := V) neighbor.page (.internal neighborPage) σ₁ ∧
    Shows (V := V) node.page (.internal page) σ₁) ?_ (fun hshow => ?_)
  · rintro σ r ⟨⟨⟨rfl, -⟩, hshow⟩, hshow'⟩
    exact ⟨hshow, hshow'⟩
  obtain ⟨hshowNeighbor, hshowNode⟩ := hshow
  refine Triple.andThen Triple.known (fun moved hmoved => ?_)
  have hm := hmove _ _ _ _ hchild hmoved
  refine Triple.bind (update_rule (B := fun σ r => σ = (σ₁.put neighbor.page
    neighborPage.parentPageId (moved.1.array.map Prod.snd)).put node.page page.parentPageId
      (moved.2.array.map Prod.snd) ∧ r = r₁) (fun _ h => h.write.write) ?_) (fun _ => ?_)
  · rintro t r ⟨⟨hσ, -⟩, -⟩
    refine ⟨?_, hσ.2⟩
    rw [BPlusTree.family_write, BPlusTree.family_write, hσ.1]
    show (σ₁.put moved.1.pageId moved.1.parentPageId _).put
      moved.2.pageId moved.2.parentPageId _ = _
    rw [hm.pageId, hm.parentPageId, hm.recipientId, hm.recipientParent, hneighbor, hpage]
    rfl
  refine Triple.bind (adoptOne_rule (B := fun σ r => Around env counted A middle aft σ r ∧
    σ.up parent.page ≠ none) ?_ ?_) (fun _ => ?_)
  · rintro σ r ⟨rfl, -⟩
    simp
  · rintro σ r ⟨rfl, rfl⟩
    refine hlasts.grows _ _ _ h₁ (grows_move (hlasts.linked _ _ h₁) hne hshowNeighbor.1 hshowNode.1
      ?_ ?_)
    · rw [hshowNeighbor.2]
      exact hm.perm
    · rw [hshowNode.2]
      exact hm.recipientPerm
  refine Triple.post (unpinAround_rule (fun _ _ h => h.2) (fun hc _ _ h => (h.1.2 hc).1)
    (fun hc _ _ h => (h.1.2 hc).2) ?_) (fun _ _ h => h.imp (fun _ _ h => h.1.1))
  rw [add_right_comm held]
  exact fun _ => le_rfl

/-- **`Redistribute`** of two internal pages. -/
theorem redistributeInternal_rule {t : BPlusTree K V} {index : ℕ} (hA : Lasts A)
    (hne : neighbor.page ≠ node.page)
    (h : counted → SiblingsShow env t neighbor.page node.page index) :
    Triple (fun s => Holding counted A log held s ∧ s.tree = t)
      (redistributeInternal env neighbor node index) (fun _ => Holding counted A log held) := by
  refine Triple.ite (fun h0 => ?_) (fun h0 => ?_)
  · refine Triple.andThen (derefInternal_rule.bothKnown derefInternal_tree) (fun page hpage => ?_)
    refine Triple.andThen Triple.known (fun key hkey => ?_)
    have hshow := fun hc => h hc (.internal page) key (by rw [if_pos h0]; exact hpage.2) hkey
    refine Triple.bind (fetchAround_own hshow) (fun around => ?_)
    refine Triple.bind derefAsLeaf_rule (fun middlePage => ?_)
    refine Triple.bind (Triple.lift (fun _ _ _ h => h)) (fun middleKey => ?_)
    refine Triple.andThen derefInternal_rule (fun page _ => ?_)
    refine Triple.andThen fetchPage_rule (fun parent _ => ?_)
    refine Triple.bind getPageId_any (fun neighborId => ?_)
    refine Triple.andThen derefInternal_rule (fun parentPage hparent => ?_)
    refine Triple.bind (Triple.lift (fun _ _ _ h => h)) (fun neighborIndex => ?_)
    refine Triple.bind derefAsLeaf_rule (fun aftPage => ?_)
    refine Triple.bind (Triple.lift (fun _ _ _ h => h)) (fun key' => ?_)
    refine setKeyAt_rule hparent (fun _ _ h => h.2) ?_
    refine forget (exchangeInternal_rule hA hne (fun _ _ _ _ hc hm =>
      InternalPage.moveFirstToEndOf_links hc hm)) ?_
    exact fun σ r h => ⟨⟨h.1.1.1.1, h.1.1.2⟩, h.2.ne_none⟩
  · refine Triple.andThen (derefInternal_rule.bothKnown derefInternal_tree) (fun page hpage => ?_)
    refine Triple.andThen Triple.known (fun key hkey => ?_)
    have hshow := fun hc => h hc (.internal page) key (by rw [if_neg h0]; exact hpage.2) hkey
    refine Triple.bind (fetchAround_own hshow) (fun around => ?_)
    refine Triple.bind derefAsLeaf_rule (fun middlePage => ?_)
    refine Triple.bind (Triple.lift (fun _ _ _ h => h)) (fun middleKey => ?_)
    refine Triple.andThen derefInternal_rule (fun page _ => ?_)
    refine Triple.andThen fetchPage_rule (fun parent _ => ?_)
    refine Triple.bind getPageId_any (fun nodeId => ?_)
    refine Triple.andThen derefInternal_rule (fun parentPage hparent => ?_)
    refine Triple.bind (Triple.lift (fun _ _ _ h => h)) (fun nodeIndex => ?_)
    refine Triple.andThen derefLeaf_rule (fun prePage _ => ?_)
    refine Triple.bind (Triple.lift (fun _ _ _ h => h)) (fun key' => ?_)
    refine setKeyAt_rule hparent (fun _ _ h => h.1.2) ?_
    refine forget (exchangeInternal_rule hA hne (fun _ _ _ _ hc hm =>
      InternalPage.moveLastToFrontOf_links hc hm)) ?_
    exact fun σ r h => ⟨⟨h.1.1.1.1.1, h.1.1.1.2⟩, h.1.2.ne_none⟩

/-- **`Redistribute`** gives up the two siblings. -/
theorem redistribute_rule {t : BPlusTree K V} {index : ℕ} (hA : Lasts A)
    (hne : neighbor.page ≠ node.page)
    (h : counted → SiblingsShow env t neighbor.page node.page index) :
    Triple (fun s => Holding counted (fun σ r => A σ r ∧ σ.up neighbor.page ≠ none) log
        (held + one neighbor.page + one node.page) s ∧ s.tree = t)
      (redistribute env neighbor node index) (fun _ => Holding counted A log held) := by
  refine Triple.andThen (deref_rule.bothKnown deref_tree) (fun page hpage => ?_)
  have hlasts := (hA.and_node neighbor.page).and_node node.page
  refine Triple.bind (Q := fun _ => Holding counted
    (fun σ r => (A σ r ∧ σ.up neighbor.page ≠ none) ∧
    σ.up node.page ≠ none) log (held + one neighbor.page + one node.page)) ?_ (fun _ => ?_)
  · refine Triple.pre (P := fun s => Holding counted
      (fun σ r => (A σ r ∧ σ.up neighbor.page ≠ none) ∧
      σ.up node.page ≠ none) log (held + one neighbor.page + one node.page) s ∧ s.tree = t) ?_
      (fun s hs => ⟨hs.1.imp (fun _ _ h => ⟨h.1, h.2.ne_none⟩), hs.2⟩)
    cases page with
    | leaf page => exact redistributeLeaf_rule h
    | internal page => exact redistributeInternal_rule hlasts hne h
  refine Triple.andThen (getPageId_rule (fun _ _ h => h.2)) (fun nodeId hnodeId => ?_)
  refine Triple.bind (unpinPage_rule (held + one neighbor.page) ?_) (fun _ => ?_)
  · rw [hnodeId]
    exact fun _ => le_rfl
  refine Triple.andThen (getPageId_rule (fun _ _ h => h.1.2)) (fun neighborId hneighborId => ?_)
  refine Triple.post (unpinPage_rule _ ?_) (fun _ _ h => h.imp (fun _ _ h => h.1.1))
  rw [hneighborId]
  exact fun _ => le_rfl

/-! ## Climbing -/

/-- A pointer has been given up, or its page is one of the tree and still
pinned. -/
def Returned (counted : Prop) (A : Store PageId → IndexRootsPage → Prop)
    (log : List (Event PageId)) (held : PageId → ℕ) (p : Pointer PageId)
    (s : PooledTree K V) : Prop :=
  Holding counted A log held s ∨
    Holding counted (fun σ r => A σ r ∧ σ.up p.page ≠ none) log (held + one p.page) s

omit [LinearOrder K] in
/-- Then it is given up by one more unpin. -/
theorem unpinReturned_rule : Triple (Returned (K := K) (V := V) counted A log held p)
    (do unpinPage (← getPageId env p)) (fun _ => Holding counted A log held) := by
  refine Triple.or ?_ ?_
  · exact Triple.bind getPageId_any (fun _ => unpinPage_any)
  · refine Triple.andThen (getPageId_rule (fun _ _ h => h.2)) (fun id hid => ?_)
    refine Triple.post (unpinPage_rule _ ?_) (fun _ _ h => h.imp (fun _ _ h => h.1))
    rw [hid]
    exact fun _ => le_rfl

omit [LinearOrder K] in
/-- **`AdjustRoot`** gives up the old root, if it goes. -/
theorem adjustRoot_rule (hx : env.indexId = x) :
    Triple (Holding (K := K) (V := V) counted (fun σ r => Evolved x σ₀ r₀ σ r ∧
        σ.up p.page = some invalidPageId) log (held + one p.page))
      (adjustRoot env p) (fun _ => Returned counted (Evolved x σ₀ r₀) log held p) := by
  refine fix_links (fun σ₁ r₁ h₁ => ?_)
  obtain ⟨hev, hup⟩ := h₁
  refine Triple.andThen deref_rule (fun page hpage => ?_)
  refine assume_links (fun σ r h => h.1.1 ▸ h.2) (fun hshow => ?_)
  refine forget (B := fun σ r => σ = σ₁ ∧ r = r₁) ?_ (fun _ _ h => h.1)
  cases page with
  | leaf page =>
    refine Triple.ite (fun hsize => ?_) (fun _ => Triple.stuck)
    refine Triple.andThen (getPageId_rule (fun _ _ h => h.1 ▸ hshow.ne_none)) (fun id hid => ?_)
    refine Triple.bind (unpinPage_rule held (by rw [hid]; exact fun _ => le_rfl))
      (fun _ => ?_)
    refine Triple.andThen (getPageId_rule (fun _ _ h => h.1 ▸ hshow.ne_none)) (fun id' hid' => ?_)
    refine Triple.bind (deletePage_rule (B := fun σ r => σ = σ₁.drop p.page ∧ r = r₁) ?_)
      (fun _ => ?_)
    · rintro σ r ⟨rfl, rfl⟩
      exact ⟨by rw [hid'], rfl⟩
    refine Triple.bind (update_rule (B := fun σ r =>
      σ = { σ₁.drop p.page with root := invalidPageId } ∧ r = r₁) (fun _ h => h) ?_) (fun _ => ?_)
    · rintro t r ⟨ht, hr⟩
      exact ⟨by rw [← ht]; rfl, hr⟩
    refine Triple.post (updateRootPageId_rule (B := Evolved x σ₀ r₀) ?_) (fun _ _ h => .inl h)
    rintro σ r r' ⟨rfl, rfl⟩ hr
    cases hr
    rw [hx]
    have hc := contained_unroot hev.links hup invalidPageId
    rw [hshow.2, BPlusTreePage.children, Store.adopt_nil] at hc
    exact hev.update hc
  | internal page =>
    refine Triple.ite (fun hsize => ?_) (fun _ => ?_)
    · refine Triple.andThen Triple.known (fun child hchild => ?_)
      refine Triple.bind (update_rule (B := fun σ r => σ = { σ₁ with root := child } ∧ r = r₁)
        (fun _ h => h) ?_) (fun _ => ?_)
      · rintro t r ⟨ht, hr⟩
        exact ⟨by rw [← ht]; rfl, hr⟩
      refine Triple.bind (updateRootPageId_rule (B := fun σ r => σ = { σ₁ with root := child } ∧
        r = (r₁.update x child).1) ?_) (fun _ => ?_)
      · rintro σ r r' ⟨rfl, rfl⟩ hr
        cases hr
        exact ⟨rfl, by rw [hx]⟩
      refine Triple.andThen fetchPage_rule (fun newRoot hnewRoot => ?_)
      refine Triple.bind (setParentPageId_rule (B := fun σ r =>
        σ = ({ σ₁ with root := child } : Store PageId).adopt invalidPageId [child] ∧
          r = (r₁.update x child).1) ?_) (fun _ => ?_)
      · rintro σ r ⟨rfl, rfl⟩
        exact ⟨by rw [hnewRoot], rfl⟩
      refine Triple.bind (unpinPage_rule (held + one p.page)
        (by rw [hnewRoot]; exact fun _ => le_rfl)) (fun _ => ?_)
      refine Triple.andThen (getPageId_rule ?_) (fun id hid => ?_)
      · rintro σ r ⟨rfl, -⟩
        exact Store.up_adopt_ne_none hshow.ne_none
      refine Triple.bind (unpinPage_rule held (by rw [hid]; exact fun _ => le_rfl))
        (fun _ => ?_)
      refine Triple.andThen (getPageId_rule ?_) (fun id' hid' => ?_)
      · rintro σ r ⟨rfl, -⟩
        exact Store.up_adopt_ne_none hshow.ne_none
      refine Triple.post (deletePage_rule (B := Evolved x σ₀ r₀) ?_) (fun _ _ h => .inl h)
      rintro σ r ⟨rfl, rfl⟩
      have hc := contained_unroot hev.links hup child
      rw [hshow.2, BPlusTreePage.children, InternalPage.children_onlyChild hchild] at hc
      rw [hid']
      exact hev.update hc
    · refine Triple.ret (fun _ h => .inr (h.imp ?_))
      rintro σ r ⟨rfl, rfl⟩
      exact ⟨hev, hshow.ne_none⟩

/-- `CoalesceOrRedistribute` up to `Redistribute`, if it comes to that: the two
siblings and the place of the node among its siblings. -/
def untilRedistribute (env : TreeEnv K V) :
    ℕ → Pointer PageId → TreeM K V (Option (Pointer PageId × Pointer PageId × ℕ))
  | 0, _ => failure
  | rounds + 1, node => do
    let page ← deref node
    if page.isRootPage then return none
    else do
      let (sibling, after) ← findSibling env node
      let page ← deref node
      let parent ← fetchPage page.parentPageId
      let siblingPage ← deref sibling
      if page.size + siblingPage.size ≤ page.maxSize then do
        let first := if after then node else sibling
        let second := if after then sibling else node
        let parentPage ← coalesceSecond env first second parent
        if parentPage.size < (BPlusTreePage.internal (V := V) parentPage).minSize then
          untilRedistribute env rounds parent
        else return none
      else do
        let nodeId ← getPageId env node
        let parentPage ← derefInternal parent
        return some (sibling, node, ← parentPage.valueIndex nodeId)

/-- Where it comes to `Redistribute`, the pages that it fetches show their
ids. -/
def RedistributesShown (env : TreeEnv K V)
    (found : Option (Pointer PageId × Pointer PageId × ℕ)) (s : PooledTree K V) : Prop :=
  ∀ neighbor node index, found = some (neighbor, node, index) →
    SiblingsShow env s.tree neighbor.page node.page index

/-- **`CoalesceOrRedistribute`** gives up the page that it is called for, or
leaves it in the tree and as it was. -/
theorem coalesceOrRedistribute_rule (hx : env.indexId = x) {rounds : ℕ} :
    Triple (fun s => Holding counted (Evolved x σ₀ r₀) log (held + one node.page) s ∧
        Afterwards (untilRedistribute env rounds node)
          (fun found s => counted → RedistributesShown env found s) s)
      (coalesceOrRedistribute env rounds node)
      (fun _ => Returned counted (Evolved x σ₀ r₀) log held node) := by
  induction rounds generalizing node held with
  | zero => exact Triple.stuck
  | succ rounds ih =>
    refine Triple.alongsideKnown deref_rule (fun page hpage => ?_)
    by_cases hroot : page.isRootPage
    · rw [if_pos hroot, if_pos hroot]
      refine Triple.pre (adjustRoot_rule hx) (fun s h => h.1.imp (fun σ r hσ => ⟨hσ.1, ?_⟩))
      exact hσ.2.1.trans (congrArg some (of_decide_eq_true hroot))
    rw [if_neg hroot, if_neg hroot]
    refine Triple.alongsideKnown (findSibling_rule (fun _ _ h => h.1.links))
      (fun found hfound => ?_)
    obtain ⟨sibling, after⟩ := found
    refine Triple.alongsideKnown deref_rule (fun page hpage => ?_)
    refine Triple.alongsideKnown fetchPage_rule (fun parent hparent => ?_)
    refine Triple.alongsideKnown deref_rule (fun siblingPage hsiblingPage => ?_)
    -- Both siblings are there, and both are held.
    refine Triple.pre (P := fun s => Holding counted (fun σ r => (Evolved x σ₀ r₀ σ r ∧
      σ.up sibling.page ≠ none) ∧ σ.up node.page ≠ none) log
      (held + one parent.page + one sibling.page + one node.page) s ∧ Afterwards _ _ s) ?_
      (fun s h => ⟨(h.1.imp ?_).mono ?_, h.2⟩)
    rotate_left
    · rintro σ r ⟨⟨⟨hev, -⟩, hnode⟩, hsibling⟩
      exact ⟨⟨hev, hsibling.ne_none⟩, hnode.ne_none⟩
    · intro q
      simp only [Pi.add_apply]
      omega
    by_cases hfit : page.size + siblingPage.size ≤ page.maxSize
    · rw [if_pos hfit, if_pos hfit]
      refine Triple.alongsideKnown (φ := fun page : InternalPage K => page.pageId = parent.page)
        (Q := fun _ => Holding counted (fun σ r => Evolved x σ₀ r₀ σ r ∧ σ.up parent.page ≠ none)
          log (held + one parent.page)) ?_ (fun parentPage hparentPage => ?_)
      · cases after with
        | true =>
          refine Triple.pre (coalesceSecond_rule (Ne.symm hfound)) (fun s h => ?_)
          refine (h.imp (fun σ r hσ => hσ.1)).mono (fun q => ?_)
          simp only [Pi.add_apply, if_true]
          omega
        | false =>
          exact forget (coalesceSecond_rule hfound) (fun σ r h => ⟨h.1.1, h.2⟩)
      by_cases hsmall : parentPage.size < (BPlusTreePage.internal (V := V) parentPage).minSize
      · rw [if_pos hsmall, if_pos hsmall]
        refine Triple.bind (Triple.pre ih (fun s h => ⟨h.1.imp (fun _ _ h => h.1), h.2⟩))
          (fun _ => ?_)
        exact Triple.post unpinReturned_rule (fun _ _ h => .inl h)
      · rw [if_neg hsmall, if_neg hsmall]
        refine Triple.bind (Q := fun _ => Returned counted (Evolved x σ₀ r₀) log held parent)
          (Triple.ret (fun _ h => .inr h.1)) (fun _ => ?_)
        exact Triple.post unpinReturned_rule (fun _ _ h => .inl h)
    · rw [if_neg hfit, if_neg hfit]
      refine Triple.alongsideKnown (getPageId_rule (fun _ _ h => h.2)) (fun nodeId hnodeId => ?_)
      refine Triple.alongsideKnown derefInternal_rule (fun parentPage hparentPage => ?_)
      refine Triple.alongsideKnown Triple.known (fun index hindex => ?_)
      refine Triple.bind (Q := fun _ => Holding counted (fun σ r => Evolved x σ₀ r₀ σ r ∧
        σ.up parent.page ≠ none) log (held + one parent.page)) ?_ (fun _ => ?_)
      · refine Triple.of_start (fun s₁ hs₁ => ?_)
        refine Triple.pre (redistribute_rule (t := s₁.tree) (lasts_evolved.and_node parent.page)
          hfound (fun hc => hs₁.2 _ _ rfl hc _ _ _ rfl)) ?_
        rintro s rfl
        refine ⟨(hs₁.1.imp ?_), rfl⟩
        exact fun σ r h => ⟨⟨h.1.1.1, h.2.ne_none⟩, h.1.1.2⟩
      · refine Triple.andThen (getPageId_rule (fun _ _ h => h.2)) (fun id hid => ?_)
        refine Triple.post (unpinPage_rule held ?_)
          (fun _ _ h => .inl (h.imp (fun _ _ h => h.1)))
        rw [hid]
        exact fun _ => le_rfl

/-! ## Removal -/

/-- **`Remove`** gives up the parent of the leaf, and changes entries and keys
alone. -/
theorem removeFromLeaf_rule : Keeps (Holding (V := V) counted A log held)
    (removeFromLeaf env key node) := by
  refine Triple.andThen derefLeaf_rule (fun page _ => ?_)
  refine Triple.bind (Q := fun _ => Holding counted A log held)
    (Triple.ite (fun _ => ?_) (fun _ => Triple.ret (fun _ h => h.imp (fun _ _ h => h.1))))
    (fun _ => ?_)
  · refine fix_links (fun σ₁ r₁ h₁ => ?_)
    refine Triple.andThen fetchPage_rule (fun parent hparent => ?_)
    refine Triple.bind getPageId_any (fun nodeId => ?_)
    refine Triple.andThen derefInternal_rule (fun parentPage hparentPage => ?_)
    refine Triple.bind (Triple.lift (fun _ _ _ h => h)) (fun pageIndex => ?_)
    refine Triple.andThen derefLeaf_rule (fun page₁ _ => ?_)
    refine Triple.bind (Triple.lift (fun _ _ _ h => h)) (fun key' => ?_)
    refine setKeyAt_rule hparentPage (fun _ _ h => h.1.2) ?_
    refine Triple.andThen derefLeaf_rule (fun page₂ _ => ?_)
    -- The leaf still has the parent it had.
    refine assume_links (φ := page₂.parentPageId = parent.page) ?_ (fun hsame => ?_)
    · rintro σ r ⟨⟨⟨⟨rfl, -⟩, -⟩, -⟩, hshow⟩
      rw [hparent]
      exact Option.some.inj (hshow.1.symm.trans h₁.2.1)
    refine Triple.post (unpinPage_rule held ?_) (fun _ _ h => h.imp ?_)
    · rw [hsame]
      exact fun _ => le_rfl
    · rintro σ r ⟨⟨⟨⟨rfl, rfl⟩, -⟩, -⟩, -⟩
      exact h₁.1
  · refine Triple.andThen derefLeaf_rule (fun page hpage => ?_)
    refine Triple.bind (rewrite_rule (fun σ r h => ?_)) (fun _ => ?_)
    · obtain ⟨hid, hparent⟩ := page.removeAndDeleteRecord_links key
      show Shows (page.removeAndDeleteRecord key).pageId _ σ
      rw [hid, hpage]
      exact h.2.leaf hparent
    · exact Triple.ret (fun _ h => h.imp (fun _ _ h => h.1))

/-- `Remove` up to `Redistribute`, if it comes to that. -/
def removeUntilRedistribute (env : TreeEnv K V) (key : K) :
    TreeM K V (Option (Pointer PageId × Pointer PageId × ℕ)) := do
  let s ← get
  if s.tree.isEmpty then return none
  else do
    let target ← (← findLeafPage key false)
    let small ← removeFromLeaf env key target
    if small then do
      let s ← get
      untilRedistribute env s.tree.allocated.length target
    else return none

/-- **`Remove`** leaves no more pages pinned than there were, if the successors
of the leaves that it looks up show their ids. -/
theorem remove_rule (hx : env.indexId = x) :
    Triple (fun s => Holding counted (Evolved x σ₀ r₀) log held s ∧
        Afterwards (removeUntilRedistribute env key)
          (fun found s => counted → RedistributesShown env found s) s)
      (remove env key) (fun _ => Holding counted (Evolved x σ₀ r₀) log held) := by
  refine Triple.alongside (Triple.read (Q := fun _ => Holding counted (Evolved x σ₀ r₀) log held)
    (fun _ h => h)) (fun s₁ => ?_)
  by_cases hempty : s₁.tree.isEmpty
  · rw [if_pos hempty, if_pos hempty]
    exact Triple.ret (fun _ h => h.1)
  rw [if_neg hempty, if_neg hempty]
  refine Triple.alongside findLeafPage_rule (fun found => ?_)
  refine Triple.alongside (Triple.lift (Q := fun _ => Holding counted (Evolved x σ₀ r₀) log held)
    (fun _ _ _ h => h.imp (fun _ _ h => h.1))) (fun target => ?_)
  refine Triple.alongside removeFromLeaf_rule (fun small => ?_)
  by_cases hsmall : small
  · rw [if_pos hsmall, if_pos hsmall, bind_assoc]
    refine Triple.alongside (Triple.read (Q := fun _ => Holding counted (Evolved x σ₀ r₀) log held)
      (fun _ h => h)) (fun s₂ => ?_)
    refine Triple.bind ((coalesceOrRedistribute_rule hx).pre (fun s h => ⟨h.1.mono ?_, h.2⟩))
      (fun _ => unpinReturned_rule)
    exact fun q => Nat.le_add_right _ _
  · rw [if_neg hsmall, if_neg hsmall]
    refine Triple.bind (Q := fun _ => Returned counted (Evolved x σ₀ r₀) log held target)
      (Triple.ret (fun _ h => .inl h.1)) (fun _ => unpinReturned_rule)

end

end PooledTree

end MiniSql
