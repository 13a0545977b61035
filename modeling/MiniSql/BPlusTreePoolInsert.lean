import MiniSql.BPlusTreePoolRules

/-!
# What search and insertion leave

One rule for each function of the search and of the insertion. None of them
leaves more pages pinned than there were, apart from the new page of a split,
and each of them keeps the links between the pages right, leaves the pages of
others alone, and moves the root only together with its record.
-/

namespace MiniSql

open PoolCalls Program Family

variable {K V : Type}

/-- **What lasts** while pages are added and rewritten. -/
structure Lasts (A : Store PageId → IndexRootsPage → Prop) : Prop where
  linked : ∀ σ r, A σ r → Linked invalidPageId σ
  grows : ∀ σ σ' r, A σ r → Grows invalidPageId σ σ' → A σ' r

/-- So does it that a page is there. -/
theorem Lasts.and_node {A : Store PageId → IndexRootsPage → Prop} (hA : Lasts A) (q : PageId) :
    Lasts (fun σ r => A σ r ∧ σ.up q ≠ none) where
  linked σ r h := hA.linked σ r h.1
  grows σ σ' r h hg := ⟨hA.grows σ σ' r h.1 hg, hg.keeps q h.2⟩

/-- **What becomes** of the links and of the page of the index roots in the
course of a call: the pages of others and their records stay, and the record of
the tree is that of its root, if it was. -/
structure Evolved (x : ℕ) (σ₀ : Store PageId) (r₀ : IndexRootsPage) (σ : Store PageId)
    (r : IndexRootsPage) : Prop extends Contained invalidPageId σ₀ σ where
  links : Linked invalidPageId σ
  others : ∀ y ≠ x, r.recorded y = r₀.recorded y
  recorded : r₀.recorded x = some σ₀.root → r.recorded x = some σ.root

section

variable {x : ℕ} {σ₀ σ₁ σ : Store PageId} {r₀ r₁ r : IndexRootsPage}

theorem Evolved.trans (h : Evolved x σ₀ r₀ σ₁ r₁) (h' : Evolved x σ₁ r₁ σ r) :
    Evolved x σ₀ r₀ σ r where
  toContained := h.toContained.trans h'.toContained
  links := h'.links
  others y hy := (h'.others y hy).trans (h.others y hy)
  recorded hx := h'.recorded (h.recorded hx)

/-- The root stays, and so does the record. -/
theorem Evolved.confined (h : Evolved x σ₀ r₀ σ₁ r) (hc : Confined invalidPageId σ₁ σ) :
    Evolved x σ₀ r₀ σ r where
  toContained := h.toContained.trans hc.toContained
  links := hc.linked h.links
  others := h.others
  recorded hx := (h.recorded hx).trans (by rw [hc.root])

theorem lasts_evolved : Lasts (Evolved x σ₀ r₀) where
  linked _ _ h := h.links
  grows _ _ _ h hg := h.confined hg.toConfined

/-- The root moves, and the record with it. -/
theorem Evolved.update (h : Evolved x σ₀ r₀ σ₁ r) (hc : Contained invalidPageId σ₁ σ) :
    Evolved x σ₀ r₀ σ (r.update x σ.root).1 where
  toContained := h.toContained.trans hc
  links := hc.linked h.links
  others y hy := (IndexRootsPage.recorded_update_of_ne hy).trans (h.others y hy)
  recorded hx := (IndexRootsPage.recorded_update (by rw [h.recorded hx]; exact nofun)).1

/-- **What becomes** of an empty tree in which the first entry is inserted: its
root is recorded, if there was no record. -/
structure Started (x : ℕ) (σ₀ : Store PageId) (r₀ : IndexRootsPage) (σ : Store PageId)
    (r : IndexRootsPage) : Prop extends Contained invalidPageId σ₀ σ where
  links : Linked invalidPageId σ
  others : ∀ y ≠ x, r.recorded y = r₀.recorded y
  recorded : r₀.recorded x = none → r.recorded x = some σ.root

/-- The root is recorded. -/
theorem started_insert {b : Bool} {root : PageId} {r' : IndexRootsPage}
    (hc : Contained invalidPageId σ₀ σ) (hl : Linked invalidPageId σ₀)
    (h : r₀.insert x root = some (r', b)) : Started x σ₀ r₀ { σ with root := root } r' where
  toContained := hc.setRoot root
  links := (hc.setRoot root).linked hl
  others y hy := by
    by_cases hx : r₀.recorded x = none
    · exact (IndexRootsPage.recorded_insert hx h).2 y hy
    · rw [IndexRootsPage.insert_of_recorded hx] at h
      cases h
      rfl
  recorded hx := (IndexRootsPage.recorded_insert hx h).1

end

/-- `Insert` of a leaf changes entries alone. -/
theorem LeafPage.insert_links [LinearOrder K] {page page' : LeafPage K V} {key : K} {value : V}
    (h : page.insert key value = some page') :
    page'.pageId = page.pageId ∧ page'.parentPageId = page.parentPageId := by
  obtain ⟨-, h⟩ := Option.ite_none_right_eq_some.mp h
  cases h
  exact ⟨rfl, rfl⟩

/-- `MoveHalfTo` moves entries alone. -/
theorem LeafPage.moveHalfTo_links {page recipient : LeafPage K V}
    {r : LeafPage K V × LeafPage K V} (h : page.moveHalfTo recipient = some r) :
    (r.1.pageId = page.pageId ∧ r.1.parentPageId = page.parentPageId) ∧
      r.2.pageId = recipient.pageId ∧ r.2.parentPageId = recipient.parentPageId := by
  obtain ⟨-, h⟩ := Option.ite_none_right_eq_some.mp h
  cases h
  exact ⟨⟨rfl, rfl⟩, rfl, rfl⟩

/-- `MoveHalfTo` cuts the row of the children. -/
theorem InternalPage.moveHalfTo_links {page recipient : InternalPage K}
    {r : InternalPage K × InternalPage K} (h : page.moveHalfTo recipient = some r) :
    (r.1.pageId = page.pageId ∧ r.1.parentPageId = page.parentPageId) ∧
      (r.2.pageId = recipient.pageId ∧ r.2.parentPageId = recipient.parentPageId) ∧
      page.array = r.1.array ++ r.2.array := by
  obtain ⟨-, h⟩ := Option.ite_none_right_eq_some.mp h
  cases h
  exact ⟨⟨rfl, rfl⟩, ⟨rfl, rfl⟩, (List.take_append_drop _ _).symm⟩

/-- `InsertNodeAfter` enters a child and leaves the others. -/
theorem InternalPage.insertNodeAfter_links {page page' : InternalPage K} {key : K} {a b : PageId}
    (h : page.insertNodeAfter a key b = some page') :
    page'.pageId = page.pageId ∧ page'.parentPageId = page.parentPageId ∧
      ∃ before after, page.array.map Prod.snd = before ++ after ∧
        page'.array.map Prod.snd = before ++ b :: after := by
  obtain ⟨i, -, rfl⟩ := Option.map_eq_some_iff.mp h
  refine ⟨rfl, rfl, (page.array.take (i + 1)).map Prod.snd, (page.array.drop (i + 1)).map Prod.snd,
    ?_, ?_⟩
  · rw [← List.map_append, List.take_append_drop]
  · rw [List.map_append, List.map_cons]

namespace PooledTree

variable {counted : Prop} {A B : Store PageId → IndexRootsPage → Prop} {log : List (Event PageId)}
  {held held' : PageId → ℕ} {env : TreeEnv K V} {p node new : Pointer PageId} {q : PageId}
  {key : K} {value : V}

section Search

variable [LinearOrder K]

/-- The page from which the loop starts is given up, and so is every page on
the way. -/
theorem findLeafLoop_rule {leftMost : Bool} {rounds : ℕ} :
    Triple (Holding (V := V) counted A log (held + one p.page)) (findLeafLoop key leftMost rounds p)
      (fun leaf => Holding counted (fun σ r => A σ r ∧ σ.up leaf.page ≠ none) log held) := by
  induction rounds generalizing p with
  | zero => exact Triple.stuck
  | succ rounds ih =>
    refine Triple.andThen deref_rule (fun page hid => ?_)
    have hnode : ∀ σ r, A σ r ∧ Shows p.page page σ → A σ r ∧ σ.up p.page ≠ none :=
      fun _ _ h => ⟨h.1, h.2.ne_none⟩
    cases page with
    | leaf page =>
      refine Triple.bind (unpinPage_rule _ (fun _ => le_rfl)) (fun _ => ?_)
      exact Triple.ret (fun _ h => h.imp hnode)
    | internal page =>
      refine Triple.bind (Q := fun _ => Holding counted A log (held + one p.page)) ?_
        (fun next => ?_)
      · exact Triple.ite (fun _ => Triple.lift (fun _ _ _ h => h.imp (fun _ _ hA => hA.1)))
          (fun _ => Triple.lift (fun _ _ _ h => h.imp (fun _ _ hA => hA.1)))
      · refine Triple.bind (unpinPage_rule _ (fun _ => le_rfl)) (fun _ => ?_)
        exact Triple.andThen fetchPage_rule (fun _ _ => ih)

theorem findLeafPage_rule {leftMost : Bool} :
    Triple (Holding (V := V) counted A log held) (findLeafPage key leftMost)
      (fun found => Holding counted
        (fun σ r => A σ r ∧ ∀ leaf ∈ found, σ.up leaf.page ≠ none) log held) := by
  refine Triple.bind (Triple.read (Q := fun _ => Holding counted A log held) (fun _ h => h))
    (fun s => ?_)
  refine Triple.ite (fun _ => ?_) (fun _ => ?_)
  · exact Triple.ret (fun _ h => h.imp (fun _ _ hA => ⟨hA, nofun⟩))
  · refine Triple.andThen fetchPage_rule (fun p _ => ?_)
    refine Triple.bind findLeafLoop_rule (fun leaf => ?_)
    refine Triple.ret (fun _ h => h.imp (fun _ _ hA => ⟨hA.1, ?_⟩))
    rintro _ ⟨⟩
    exact hA.2

/-- The code after a search that must not fail. -/
theorem findLeaf_andThen {α : Type} {leftMost : Bool} {f : Pointer PageId → TreeM K V α}
    {R : α → PooledTree K V → Prop}
    (hf : ∀ leaf, Triple (Holding counted (fun σ r => A σ r ∧ σ.up leaf.page ≠ none) log held)
      (f leaf) R) :
    Triple (Holding counted A log held)
      (findLeafPage key leftMost >>= fun found => liftM found >>= f) R := by
  refine Triple.bind findLeafPage_rule (fun found => ?_)
  refine Triple.bind (Triple.lift (fun leaf hleaf _ h => ?_)) hf
  exact h.imp (fun _ _ hA => ⟨hA.1, hA.2 leaf hleaf⟩)

theorem getValue_rule : Keeps (Holding counted A log held) (getValue env key) := by
  refine Triple.bind findLeafPage_rule (fun found => ?_)
  cases found with
  | none => exact Triple.ret (fun _ h => h.imp (fun _ _ hA => hA.1))
  | some leaf =>
    refine Triple.andThen derefLeaf_rule (fun page _ => ?_)
    refine Triple.bind getPageId_any (fun id => ?_)
    refine Triple.bind unpinPage_any (fun _ => ?_)
    exact Triple.ret (fun _ h => h.imp (fun _ _ hA => hA.1.1))

theorem begin_rule [Inhabited K] : Keeps (Holding (V := V) counted A log held) (begin (K := K)) :=
  Triple.bind findLeafPage_rule (fun _ => Triple.ret (fun _ h => h.imp (fun _ _ hA => hA.1)))

theorem beginAt_rule : Keeps (Holding (V := V) counted A log held) (beginAt key) := by
  refine Triple.bind findLeafPage_rule (fun found => ?_)
  cases found with
  | none => exact Triple.ret (fun _ h => h.imp (fun _ _ hA => hA.1))
  | some leaf =>
    refine Triple.andThen derefLeaf_rule (fun page _ => ?_)
    exact Triple.ret (fun _ h => h.imp (fun _ _ hA => hA.1.1))

theorem endOf_rule : Keeps (Holding (K := K) (V := V) counted A log held) endOf := by
  refine Triple.bind (Triple.read (Q := fun _ => Holding counted A log held) (fun _ h => h))
    (fun s => ?_)
  refine Triple.andThen fetchPage_rule (fun root hroot => ?_)
  refine Triple.andThen deref_rule (fun page _ => ?_)
  refine Triple.bind (Triple.lift (fun _ _ _ h => h)) (fun endKey => ?_)
  refine findLeaf_andThen (fun leaf => ?_)
  refine Triple.bind (unpinPage_rule _ (fun _ => by rw [hroot])) (fun _ => ?_)
  refine Triple.andThen derefLeaf_rule (fun page _ => ?_)
  exact Triple.ret (fun _ h => h.imp (fun _ _ hA => hA.1.1.1))

end Search

/-! ## Insertion -/

/-- The children get their new parent one after the other. -/
theorem adoptHalf_rule {recipientId : PageId} {children : List PageId}
    (hf : ∀ σ r, A σ r → B (σ.adopt recipientId children) r) :
    Triple (Holding (K := K) (V := V) counted A log held) (adoptHalf node p recipientId children)
      (fun _ => Holding counted B log held) := by
  induction children generalizing A with
  | nil => exact Triple.ret (fun _ h => h.imp (fun σ r hA => Store.adopt_nil (σ := σ) ▸ hf σ r hA))
  | cons child children ih =>
    refine Triple.bind use_rule (fun _ => ?_)
    refine Triple.bind use_rule (fun _ => ?_)
    refine Triple.andThen fetchPage_rule (fun page hpage => ?_)
    refine Triple.bind (setParentPageId_rule (B := fun σ r =>
      ∃ σ₁, A σ₁ r ∧ σ = σ₁.adopt recipientId [child]) ?_) (fun _ => ?_)
    · exact fun σ r hA => ⟨σ, hA, by rw [hpage]⟩
    refine Triple.bind (unpinPage_rule held (fun _ => by rw [hpage])) (fun _ => ?_)
    refine ih ?_
    rintro _ r ⟨σ₁, hA, rfl⟩
    rw [Store.adopt_adopt]
    exact hf σ₁ r hA

/-- **The split of a leaf** gives a new page that is pinned and nobody's
child. -/
theorem splitLeaf_rule (hA : Lasts A) : Triple (Holding (K := K) (V := V) counted A log held)
    (splitLeaf env node) (fun new s => new.page ≠ node.page ∧
      Holding counted (fun σ r => A σ r ∧ σ.up new.page ≠ none ∧ Orphan σ new.page) log
        (held + one new.page) s) := by
  refine Triple.andThen derefLeaf_rule (fun page hid => ?_)
  refine Triple.bind (newPage_rule (C := fun q σ r =>
    (A σ r ∧ σ.up q ≠ none ∧ Orphan σ q) ∧ q ≠ node.page) (fun _ => rfl) (fun _ => rfl) ?_)
    (fun new => ?_)
  · rintro σ r q ⟨h, hshow⟩ hq h0
    have hout : q ≠ invalidPageId := fun heq => absurd h0 (by rw [heq]; decide)
    have hlinked := hA.linked σ r h
    refine ⟨⟨hA.grows _ _ _ h (grows_add hq hout), ?_, ?_⟩, ?_⟩
    · rw [Store.up_put, if_pos rfl]
      exact nofun
    · exact orphan_add hlinked hq
    · rintro rfl
      exact hq (hlinked.used _ hshow.ne_none)
  refine assume_links (fun _ _ h => h.2) (fun hne => ?_)
  refine Triple.andThen derefLeaf_rule (fun recipient hrecipient => ?_)
  refine Triple.andThen derefLeaf_rule (fun page hpage => ?_)
  refine Triple.andThen Triple.known (fun halves hhalves => ?_)
  obtain ⟨⟨hid₁, hparent₁⟩, hid₂, hparent₂⟩ := LeafPage.moveHalfTo_links hhalves
  refine Triple.bind (rewrite_two_rule ?_ ?_) (fun _ => ?_)
  · intro σ r h
    show Shows halves.1.pageId _ σ
    rw [hid₁, hpage]
    exact h.2.leaf hparent₁
  · intro σ r h
    show Shows halves.2.pageId _ σ
    rw [hid₂, hrecipient]
    exact h.1.2.leaf hparent₂
  exact Triple.ret (fun _ h => ⟨hne, h.imp (fun _ _ h => h.1.1.1)⟩)

/-- **The split of an internal page** does the same, and gives the children
that it gets the new page as their parent. -/
theorem splitInternal_rule (hA : Lasts A) : Triple (Holding (K := K) (V := V) counted A log held)
    (splitInternal env node) (fun new s => new.page ≠ node.page ∧
      Holding counted (fun σ r => A σ r ∧ σ.up new.page ≠ none ∧ Orphan σ new.page) log
        (held + one new.page) s) := by
  refine fix_links (fun σ₀ r₀ h₀ => ?_)
  refine Triple.andThen derefInternal_rule (fun page hid => ?_)
  refine assume_links (fun σ r h => h.1.1 ▸ h.2) (fun hshow => ?_)
  refine Triple.bind (newPage_rule (C := fun q σ r =>
    (σ = (σ₀.alloc q).put q page.parentPageId [] ∧ r = r₀) ∧ q ∉ σ₀.used ∧ 0 ≤ q)
    (fun _ => rfl) (fun _ => rfl) ?_) (fun new => ?_)
  · rintro σ r q ⟨⟨rfl, rfl⟩, -⟩ hq h0
    exact ⟨⟨rfl, rfl⟩, hq, h0⟩
  refine assume_links (fun _ _ h => h.2) (fun hnew => ?_)
  have hlinked := hA.linked σ₀ r₀ h₀
  have hout : new.page ≠ invalidPageId := fun heq => absurd hnew.2 (by rw [heq]; decide)
  have hne : new.page ≠ node.page := fun heq =>
    hnew.1 (heq ▸ hlinked.used _ hshow.ne_none)
  refine Triple.andThen derefInternal_rule (fun recipient hrecipient => ?_)
  refine Triple.andThen derefInternal_rule (fun page₁ hpage₁ => ?_)
  refine Triple.andThen Triple.known (fun halves hhalves => ?_)
  obtain ⟨⟨hid₁, hparent₁⟩, ⟨hid₂, hparent₂⟩, harray⟩ := InternalPage.moveHalfTo_links hhalves
  refine assume_links (φ := recipient.parentPageId = page.parentPageId ∧
    page₁.parentPageId = page.parentPageId ∧
    σ₀.kids node.page = halves.1.array.map Prod.snd ++ halves.2.array.map Prod.snd) ?_
    (fun hlinks => ?_)
  · rintro σ r ⟨⟨⟨⟨rfl, rfl⟩, -⟩, hrec⟩, hnode⟩
    refine ⟨?_, ?_, ?_⟩
    · have h := hrec.1
      rw [Store.up_put, if_pos rfl] at h
      exact (Option.some.inj h).symm
    · have h := hnode.1
      rw [Store.up_put, if_neg hne.symm, Store.up_alloc, hshow.1] at h
      exact (Option.some.inj h).symm
    · have h := hnode.2
      rw [Store.kids_put, if_neg hne.symm, Store.kids_alloc] at h
      rw [h, BPlusTreePage.children, harray, List.map_append]
  obtain ⟨hparentRec, hparentPage, hkids⟩ := hlinks
  refine Triple.bind (update_rule (B := fun σ r => σ = ((((σ₀.alloc new.page).put new.page
    page.parentPageId []).put node.page page.parentPageId (halves.1.array.map Prod.snd)).put
    new.page page.parentPageId (halves.2.array.map Prod.snd)) ∧ r = r₀)
    (fun _ h => h.write.write) ?_) (fun _ => ?_)
  · rintro t r ⟨⟨⟨hσ, -⟩, -⟩, -⟩
    refine ⟨?_, hσ.2⟩
    rw [BPlusTree.family_write, BPlusTree.family_write, hσ.1]
    show ((((σ₀.alloc new.page).put new.page page.parentPageId []).put halves.1.pageId
      halves.1.parentPageId _).put halves.2.pageId halves.2.parentPageId _) = _
    rw [hid₁, hid₂, hparent₁, hparent₂, hparentRec, hparentPage, hpage₁, hrecipient]
    rfl
  refine Triple.bind (adoptHalf_rule (B := fun σ r => A σ r ∧ σ.up new.page ≠ none ∧
    Orphan σ new.page) ?_) (fun _ => Triple.ret (fun _ h => ⟨hne, h⟩))
  rintro σ r ⟨rfl, rfl⟩
  rw [hid₂, hrecipient]
  refine ⟨hA.grows _ _ _ h₀ (grows_split hlinked hshow.1 hkids hnew.1 hout), ?_,
    orphan_split hlinked hkids hnew.1⟩
  have hnode : new.page ∉ halves.2.array.map Prod.snd := fun h =>
    hlinked.orphan hnew.1 node.page (hkids ▸ List.mem_append_right _ h)
  rw [Store.up_adopt, if_neg hnode, Store.up_put, if_pos rfl]
  exact nofun

section InsertIntoParent

variable [Inhabited K] {x : ℕ} {σ₀ : Store PageId} {r₀ : IndexRootsPage}

/-- **A new root** above a root and the page that has been split off. -/
theorem populateNewRoot_rule (hx : env.indexId = x) (hne : node.page ≠ new.page) :
    Triple (Holding (V := V) counted (fun σ r => (Evolved x σ₀ r₀ σ r ∧ σ.up new.page ≠ none ∧
        Orphan σ new.page) ∧ σ.up node.page = some invalidPageId) log (held + one new.page))
      (populateNewRoot env node key new) (fun _ => Holding counted (Evolved x σ₀ r₀) log held) := by
  refine fix_links (fun σ₁ r₁ h₁ => ?_)
  obtain ⟨⟨hev, hnode, horphan⟩, hup⟩ := h₁
  refine Triple.bind (newPage_rule (C := fun q σ r =>
    (σ = (σ₁.alloc q).put q invalidPageId [] ∧ r = r₁) ∧ q ∉ σ₁.used ∧ 0 ≤ q)
    (fun _ => rfl) (fun _ => rfl) ?_) (fun newRoot => ?_)
  · rintro σ r q ⟨rfl, rfl⟩ hq h0
    exact ⟨⟨rfl, rfl⟩, hq, h0⟩
  refine assume_links (fun _ _ h => h.2) (fun hfresh => ?_)
  have hout : newRoot.page ≠ invalidPageId := fun heq => absurd hfresh.2 (by rw [heq]; decide)
  -- The store with the new root, before it is filled.
  obtain ⟨τ, hτ⟩ : ∃ τ : Store PageId, τ =
      { (σ₁.alloc newRoot.page).put newRoot.page invalidPageId [] with root := newRoot.page } :=
    ⟨_, rfl⟩
  have hkeeps : ∀ q, σ₁.up q ≠ none → τ.up q ≠ none := by
    intro q hq
    rw [hτ]
    exact (grows_add hfresh.1 hout).keeps q hq
  refine Triple.bind (update_rule (B := fun σ r => σ = τ ∧ r = r₁) (fun _ h => h) ?_)
    (fun _ => ?_)
  · rintro t r ⟨⟨ht, rfl⟩, -⟩
    exact ⟨by rw [hτ, ← ht]; rfl, rfl⟩
  refine Triple.andThen (getPageId_rule ?_) (fun oldId holdId => ?_)
  · rintro σ r ⟨rfl, -⟩
    exact hkeeps _ (by rw [hup]; exact nofun)
  refine Triple.andThen (getPageId_rule ?_) (fun newId hnewId => ?_)
  · rintro σ r ⟨rfl, -⟩
    exact hkeeps _ hnode
  refine Triple.andThen derefInternal_rule (fun root hrootId => ?_)
  refine Triple.bind (write_rule (B := fun σ r =>
    σ = τ.put newRoot.page invalidPageId [node.page, new.page] ∧ r = r₁) ?_) (fun _ => ?_)
  · rintro σ r ⟨⟨rfl, rfl⟩, hroot⟩
    refine ⟨?_, rfl⟩
    have hparent : root.parentPageId = invalidPageId := by
      have h := hroot.1
      rw [hτ] at h
      exact (Option.some.inj ((if_pos rfl).symm.trans h)).symm
    show σ.put root.pageId root.parentPageId [oldId, newId] = _
    rw [hrootId, hparent, holdId, hnewId]
  refine Triple.bind (setParentPageId_rule (B := fun σ r =>
    σ = (τ.put newRoot.page invalidPageId [node.page, new.page]).adopt newRoot.page
      [node.page] ∧ r = r₁) ?_) (fun _ => ?_)
  · rintro σ r ⟨rfl, rfl⟩
    exact ⟨rfl, rfl⟩
  refine Triple.bind (setParentPageId_rule (B := fun σ r =>
    σ = ((τ.put newRoot.page invalidPageId [node.page, new.page]).adopt newRoot.page
      [node.page]).adopt newRoot.page [new.page] ∧ r = r₁) ?_) (fun _ => ?_)
  · rintro σ r ⟨rfl, rfl⟩
    exact ⟨rfl, rfl⟩
  refine Triple.bind (updateRootPageId_rule (B := fun σ r =>
    Evolved x σ₀ r₀ σ r ∧ σ.up new.page ≠ none ∧ σ.up newRoot.page ≠ none) ?_) (fun _ => ?_)
  · rintro σ r r' ⟨rfl, rfl⟩ hr
    cases hr
    have hc := contained_newRoot hev.links hup horphan hnode hne hfresh.1 hout newRoot.page
    rw [← hτ] at hc
    rw [hx]
    have hroot :
        (τ.put newRoot.page invalidPageId [node.page, new.page]).up newRoot.page ≠ none := by
      simp
    exact ⟨hev.update hc, by simp, Store.up_adopt_ne_none (Store.up_adopt_ne_none hroot)⟩
  refine Triple.andThen (getPageId_rule (fun _ _ h => h.2.1)) (fun newId' hnewId' => ?_)
  refine Triple.bind (unpinPage_rule (held + one newRoot.page) ?_) (fun _ => ?_)
  · rw [hnewId', add_right_comm]
    exact fun _ => le_rfl
  refine Triple.andThen (getPageId_rule (fun _ _ h => h.2.2)) (fun rootId hrootId => ?_)
  refine Triple.post (unpinPage_rule held ?_) (fun _ _ h => h.imp (fun _ _ h => h.1))
  rw [hrootId]
  exact fun _ => le_rfl

/-- **`InsertIntoParent`** gives up the new page. -/
theorem insertIntoParent_rule (hx : env.indexId = x) {rounds : ℕ} (hne : node.page ≠ new.page) :
    Triple (Holding (V := V) counted (fun σ r => Evolved x σ₀ r₀ σ r ∧ σ.up new.page ≠ none ∧
        Orphan σ new.page) log (held + one new.page))
      (insertIntoParent env rounds node key new)
      (fun _ => Holding counted (Evolved x σ₀ r₀) log held) := by
  induction rounds generalizing node key new held with
  | zero => exact Triple.stuck
  | succ rounds ih =>
    refine Triple.andThen deref_rule (fun old hold => ?_)
    refine Triple.ite (fun hroot => ?_) (fun hroot => ?_)
    · refine forget (populateNewRoot_rule hx hne) (fun σ r h => ⟨h.1, ?_⟩)
      exact h.2.1.trans (congrArg some (of_decide_eq_true hroot))
    refine fix_links (fun σ₁ r₁ h₁ => ?_)
    obtain ⟨⟨hev, hnode, horphan⟩, hshow⟩ := h₁
    refine Triple.andThen fetchPage_rule (fun parent hparent => ?_)
    refine Triple.bind (setParentPageId_rule (B := fun σ r =>
      σ = σ₁.adopt parent.page [new.page] ∧ r = r₁) ?_) (fun _ => ?_)
    · rintro σ r ⟨rfl, rfl⟩
      rw [hparent]
      exact ⟨rfl, rfl⟩
    refine Triple.andThen (getPageId_rule ?_) (fun newId hnewId => ?_)
    · rintro σ r ⟨rfl, -⟩
      exact Store.up_adopt_ne_none hnode
    refine Triple.bind (unpinPage_rule (held + one parent.page) ?_) (fun _ => ?_)
    · rw [hnewId, add_right_comm]
      exact fun _ => le_rfl
    refine Triple.andThen (getPageId_rule ?_) (fun oldId holdId => ?_)
    · rintro σ r ⟨rfl, -⟩
      exact Store.up_adopt_ne_none hshow.ne_none
    refine Triple.andThen (getPageId_rule ?_) (fun newId' hnewId' => ?_)
    · rintro σ r ⟨rfl, -⟩
      exact Store.up_adopt_ne_none hnode
    refine Triple.andThen derefInternal_rule (fun page hpage => ?_)
    refine Triple.andThen Triple.known (fun page' hpage' => ?_)
    obtain ⟨hid, hparent', before, after, hbefore, hafter⟩ :=
      InternalPage.insertNodeAfter_links hpage'
    refine Triple.bind (write_rule (B := fun σ r => Evolved x σ₀ r₀ σ r) ?_) (fun _ => ?_)
    · rintro σ r ⟨⟨rfl, rfl⟩, hparentShow⟩
      show Evolved x σ₀ r₀
        (Store.put _ page'.pageId page'.parentPageId (page'.array.map Prod.snd)) r
      rw [hid, hparent', hpage, hafter, hnewId']
      exact hev.confined (grows_enter hev.links horphan hparentShow.1
        (hparentShow.2.trans hbefore) hnode).toConfined
    refine Triple.bind (Q := fun _ => Holding counted (Evolved x σ₀ r₀) log
      (held + one parent.page))
      (Triple.ite (fun _ => ?_) (fun _ => Triple.ret (fun _ h => h))) (fun _ => ?_)
    · refine Triple.andThen (splitInternal_rule lasts_evolved) (fun new' hne' => ?_)
      refine Triple.andThen derefInternal_rule (fun newPage _ => ?_)
      refine Triple.bind (Triple.lift
        (Q := fun _ => Holding counted (fun σ r => Evolved x σ₀ r₀ σ r ∧
        σ.up new'.page ≠ none ∧ Orphan σ new'.page) log (held + one parent.page + one new'.page))
        (fun _ _ _ h => h.imp (fun _ _ h => h.1))) (fun key' => ?_)
      exact ih (Ne.symm hne')
    · rw [← hparent]
      exact unpinPage_rule _ (fun _ => le_rfl)

omit [Inhabited K] in
/-- **`StartNewTree`** gives up the root. -/
theorem startNewTree_rule [LinearOrder K] (hx : env.indexId = x)
    (hl : Linked invalidPageId σ₀) :
    Triple (Holding counted (fun σ r => σ = σ₀ ∧ r = r₀) log held) (startNewTree env key value)
      (fun _ => Holding counted (Started x σ₀ r₀) log held) := by
  refine Triple.bind (newPage_rule (C := fun q σ r => (Grows invalidPageId σ₀ σ ∧ r = r₀) ∧
    σ.up q = some invalidPageId ∧ σ.kids q = []) (fun _ => rfl) (fun _ => rfl) ?_) (fun root => ?_)
  · rintro σ r q ⟨rfl, rfl⟩ hq h0
    have hout : q ≠ invalidPageId := fun heq => absurd h0 (by rw [heq]; decide)
    exact ⟨⟨grows_add hq hout, rfl⟩, if_pos rfl, if_pos rfl⟩
  refine Triple.bind (update_rule (B := fun σ r => ∃ σ₁, σ = { σ₁ with root := root.page } ∧
    (Grows invalidPageId σ₀ σ₁ ∧ r = r₀) ∧ σ₁.up root.page ≠ none) (fun _ h => h) ?_) (fun _ => ?_)
  · rintro t r ⟨h, hup, -⟩
    exact ⟨t.family, rfl, h, by rw [hup]; exact nofun⟩
  refine Triple.bind (updateRootPageId_rule (B := Started x σ₀ r₀) ?_) (fun _ => ?_)
  · rintro σ r r' ⟨σ₁, rfl, ⟨hg, rfl⟩, -⟩ hr
    obtain ⟨⟨r'', b⟩, hinsert, rfl⟩ := Option.map_eq_some_iff.mp hr
    rw [hx] at hinsert
    exact started_insert hg.toContained hl hinsert
  refine Triple.andThen derefLeaf_rule (fun page hpage => ?_)
  refine Triple.andThen Triple.known (fun page' hpage' => ?_)
  obtain ⟨hid, hparent⟩ := LeafPage.insert_links hpage'
  refine Triple.bind (rewrite_rule ?_) (fun _ => ?_)
  · rintro σ r ⟨-, hshow⟩
    show Shows page'.pageId _ σ
    rw [hid, hpage]
    exact hshow.leaf hparent
  · exact Triple.post (unpinPage_rule _ (fun _ => le_rfl)) (fun _ _ h => h.imp (fun _ _ h => h.1))

/-- **`InsertIntoLeaf`** leaves no more pages pinned than there were. -/
theorem insertIntoLeaf_rule [LinearOrder K] (hx : env.indexId = x) :
    Keeps (Holding counted (Evolved x σ₀ r₀) log held) (insertIntoLeaf env key value) := by
  refine findLeaf_andThen (fun leaf => ?_)
  refine forget (B := Evolved x σ₀ r₀) ?_ (fun _ _ h => h.1)
  refine Triple.andThen derefLeaf_rule (fun page hpage => ?_)
  refine Triple.ite (fun _ => ?_) (fun _ => ?_)
  · refine Triple.bind getPageId_any (fun _ => Triple.bind unpinPage_any (fun _ => ?_))
    exact Triple.ret (fun _ h => h.imp (fun _ _ h => h.1))
  refine Triple.andThen Triple.known (fun page' hpage' => ?_)
  obtain ⟨hid, hparent⟩ := LeafPage.insert_links hpage'
  refine Triple.bind (rewrite_rule ?_) (fun _ => ?_)
  · rintro σ r ⟨-, hshow⟩
    show Shows page'.pageId _ σ
    rw [hid, hpage]
    exact hshow.leaf hparent
  refine forget (B := Evolved x σ₀ r₀) ?_ (fun _ _ h => h.1)
  refine Triple.bind (Q := fun _ => Holding counted (Evolved x σ₀ r₀) log held)
    (Triple.ite (fun _ => ?_) (fun _ => Triple.ret (fun _ h => h))) (fun _ => ?_)
  · refine Triple.bind (Triple.read (Q := fun _ => Holding counted (Evolved x σ₀ r₀) log held)
      (fun _ h => h)) (fun s => ?_)
    refine Triple.andThen (splitLeaf_rule lasts_evolved) (fun new hne => ?_)
    refine Triple.andThen derefLeaf_rule (fun newPage _ => ?_)
    refine Triple.bind (Triple.lift (Q := fun _ => Holding counted (fun σ r => Evolved x σ₀ r₀ σ r ∧
      σ.up new.page ≠ none ∧ Orphan σ new.page) log (held + one new.page))
      (fun _ _ _ h => h.imp (fun _ _ h => h.1))) (fun key' => ?_)
    exact insertIntoParent_rule hx (Ne.symm hne)
  · refine Triple.bind getPageId_any (fun _ => Triple.bind unpinPage_any (fun _ => ?_))
    exact Triple.ret (fun _ h => h)

end InsertIntoParent

end PooledTree

end MiniSql
