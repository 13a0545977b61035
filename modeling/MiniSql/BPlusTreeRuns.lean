import MiniSql.BPlusTreeShrink
import MiniSql.LeafChain
import MiniSql.Machine

/-!
# The shape of a tree over whole runs

The comments of the pages give a tree a shape: sizes between `GetMinSize` and `GetMaxSize`, a
parent for each page, and leaves that `next_page_id` leads along, up to `INVALID_PAGE_ID`
(`DocumentedShape`). A tree in the store that has its shape (`Shaped`) has all of this but the
end of the chain, and insertion and removal keep the shape, whatever the keys are.

`Init` leaves `next_page_id_` as it is in a new page, and that is 0. So the last leaf of every
tree leads on to page 0, and only a tree without pages is as documented
(`documentedShape_iff`).
-/

namespace MiniSql

variable {K V : Type}

namespace BPlusTree

open KeyTree

variable {n : ℕ} {cfg : TreeConfig} {s s' : BPlusTree K V}
  {pages : PageId → Option (BPlusTreePage K V)} {t : PageTree K V n} {parent next p q : PageId}

/-! ## What is documented -/

/-- A page lists another one as its child. -/
def Lists (pages : PageId → Option (BPlusTreePage K V)) (p q : PageId) : Prop :=
  ∃ page : InternalPage K, pages p = some (.internal page) ∧ q ∈ page.array.map Prod.snd

/-- The leaf pages that `next_page_id` leads to from a page on, up to `INVALID_PAGE_ID`. -/
def Follows (pages : PageId → Option (BPlusTreePage K V)) : PageId → List PageId → Prop
  | p, [] => p = invalidPageId
  | p, q :: qs => p = q ∧ ∃ page : LeafPage K V, pages q = some (.leaf page) ∧
      Follows pages page.nextPageId qs

/-- **The shape that is documented**, but for the end of the chain, of a tree whose leaves are
at one depth: the sizes of the pages are between `GetMinSize` and `GetMaxSize` (`GetMinSize` of
the root is one entry or two children), every page but the root is listed by its parent and by
no other page of the tree, and each leaf is chained to the one on its right, the last one to
`next`. -/
structure ListedShape (cfg : TreeConfig) (s : BPlusTree K V) (t : PageTree K V n)
    (next : PageId) : Prop where
  root : t.id = s.rootPageId
  stored : Stored cfg s.pages t invalidPageId next
  nodup : t.ids.Nodup
  sized : ∀ p ∈ t.ids, ∃ page, s.pages p = some page ∧ page.pageId = p ∧
    page.minSize ≤ page.size ∧ page.size ≤ page.maxSize
  rootParent : ∃ page, s.pages t.id = some page ∧ page.parentPageId = invalidPageId
  parent : ∀ q ∈ t.below, ∃ page, s.pages q = some page ∧ page.parentPageId ∈ t.ids ∧
    ∀ p ∈ t.ids, Lists s.pages p q ↔ p = page.parentPageId
  below : ∀ p ∈ t.ids, ∀ q, Lists s.pages p q → q ∈ t.below
  chained : Chained s.pages t.leaves next

/-- **The shape that is documented**: besides, `next_page_id` leads from the leftmost leaf along
exactly the leaves, from left to right. -/
structure DocumentedShape (cfg : TreeConfig) (s : BPlusTree K V) (t : PageTree K V n)
    (next : PageId) : Prop extends ListedShape cfg s t next where
  follows : Follows s.pages t.first (t.leaves.map Leaf.id)

/-- The tree has no pages, or it has the shape that is documented. -/
def AsDocumented (cfg : TreeConfig) (s : BPlusTree K V) : Prop :=
  s.rootPageId = invalidPageId ∨
    ∃ (n : ℕ) (t : PageTree K V n) (next : PageId), DocumentedShape cfg s t next

/-- What a page lists is below it and has it as its parent. -/
theorem Stored.of_lists : {n : ℕ} → {t : PageTree K V n} → {parent next : PageId} →
    Stored cfg pages t parent next → p ∈ t.ids → Lists pages p q →
    q ∈ t.below ∧ ∃ page, pages q = some page ∧ page.parentPageId = p
  | 0, t, _, _, h, hp, ⟨page, hpage, _⟩ => by
    obtain rfl : p = t.id := List.mem_singleton.mp hp
    cases hpage.symm.trans h
  | n + 1, t, _, _, h, hp, ⟨page, hpage, hq⟩ => by
    obtain ⟨id, cs, rfl⟩ := exists_node t
    rcases List.mem_cons.mp hp with rfl | hp
    · cases hpage.symm.trans h.root
      obtain ⟨e, he, rfl⟩ := List.mem_map.mp hq
      obtain ⟨c, hc, rfl⟩ := List.mem_map.mp he
      obtain ⟨after, hstored⟩ := StoredIn.of_mem h.2 hc
      exact ⟨List.mem_flatMap.mpr ⟨c, hc, c.2.id_mem_ids⟩, _, hstored.root,
        parentPageId_rootPage c.2⟩
    · obtain ⟨c, hc, hp⟩ := List.mem_flatMap.mp hp
      obtain ⟨after, hstored⟩ := StoredIn.of_mem h.2 hc
      obtain ⟨hbelow, hpage⟩ := hstored.of_lists hp ⟨page, hpage, hq⟩
      exact ⟨List.mem_flatMap.mpr ⟨c, hc, mem_ids_of_mem_below hbelow⟩, hpage⟩

/-- Every page below the root is listed. -/
theorem Stored.exists_lists : {n : ℕ} → {t : PageTree K V n} → {parent next : PageId} →
    Stored cfg pages t parent next → q ∈ t.below → ∃ p ∈ t.ids, Lists pages p q
  | 0, _, _, _, _, hq => (List.not_mem_nil hq).elim
  | n + 1, t, _, _, h, hq => by
    obtain ⟨id, cs, rfl⟩ := exists_node t
    obtain ⟨c, hc, hq⟩ := List.mem_flatMap.mp hq
    obtain ⟨after, hstored⟩ := StoredIn.of_mem h.2 hc
    rw [ids_eq] at hq
    rcases List.mem_cons.mp hq with rfl | hq
    · exact ⟨id, List.mem_cons_self, _, h.root,
        List.mem_map_of_mem (f := Prod.snd) (List.mem_map_of_mem hc)⟩
    · obtain ⟨p, hp, hlists⟩ := hstored.exists_lists hq
      exact ⟨p, List.mem_cons_of_mem id (List.mem_flatMap.mpr ⟨c, hc, hp⟩), hlists⟩

/-- **A tree that has its shape is as documented**, but for the end of the chain. -/
theorem Shaped.listedShape (h : Shaped cfg [] s t next) : ListedShape cfg s t next where
  root := h.root
  stored := h.stored
  nodup := h.nodup
  sized p hp := by
    obtain ⟨m, C, u, rfl, rfl⟩ := exists_subtree hp
    refine ⟨_, h.stored.hole.root, pageId_rootPage u, ?_, ?_⟩
    · rw [size_rootPage]
      exact h.min_le List.not_mem_nil _
    · rw [size_rootPage, maxSize_rootPage]
      exact h.sized.hole.root.2
  rootParent := ⟨_, h.stored.root, parentPageId_rootPage t⟩
  parent q hq := by
    obtain ⟨p, hp, hlists⟩ := h.stored.exists_lists hq
    obtain ⟨-, page, hpage, rfl⟩ := h.stored.of_lists hp hlists
    refine ⟨page, hpage, hp, fun p' hp' => ⟨fun hlists' => ?_, fun heq => heq ▸ hlists⟩⟩
    obtain ⟨-, page', hpage', rfl⟩ := h.stored.of_lists hp' hlists'
    rw [Option.some.inj (hpage.symm.trans hpage')]
  below p hp q hlists := (h.stored.of_lists hp hlists).1
  chained := h.stored.chained h.branches

/-! ## The end of the chain -/

/-- Where every inner page has children, there are leaves below it. -/
theorem Stored.branches : {n : ℕ} → {t : PageTree K V n} → {parent next : PageId} →
    Stored cfg pages t parent next →
    (∀ p ∈ t.ids, ∀ page : InternalPage K, pages p = some (.internal page) → page.array ≠ []) →
    Branches t
  | 0, _, _, _, _, _ => trivial
  | n + 1, t, _, _, h, hne => by
    obtain ⟨id, cs, rfl⟩ := exists_node t
    refine ⟨fun hnil => hne id List.mem_cons_self _ h.root (List.map_eq_nil_iff.mpr hnil),
      fun c hc => ?_⟩
    obtain ⟨after, hstored⟩ := StoredIn.of_mem h.2 hc
    exact hstored.branches
      (fun p hp => hne p (List.mem_cons_of_mem id (List.mem_flatMap.mpr ⟨c, hc, hp⟩)))

/-- A tree of the documented sizes has leaves. -/
theorem ListedShape.branches (h : ListedShape cfg s t next) : Branches t := by
  refine h.stored.branches (fun p hp page hpage hnil => ?_)
  obtain ⟨page', hpage', -, hmin, -⟩ := h.sized p hp
  cases hpage.symm.trans hpage'
  have hsize : (BPlusTreePage.internal page : BPlusTreePage K V).size = 0 :=
    congrArg List.length hnil
  have hpos : 0 < (BPlusTreePage.internal page : BPlusTreePage K V).minSize := by
    unfold BPlusTreePage.minSize
    split
    · exact Nat.two_pos
    · exact Nat.succ_pos _
  omega

/-- **Leaves that lead to `INVALID_PAGE_ID`** are chained to it. -/
theorem Chained.eq_invalid {ls : List (Leaf PageId K V)} (h : Chained pages ls next)
    (hne : ls ≠ []) (hfollows : Follows pages p (ls.map Leaf.id)) : next = invalidPageId := by
  induction ls generalizing p with
  | nil => exact absurd rfl hne
  | cons l ls ih =>
    obtain ⟨⟨page, hpage, -, -, hnext⟩, hrest⟩ := h
    obtain ⟨-, page', hpage', hafter⟩ := hfollows
    cases hpage.symm.trans hpage'
    cases ls with
    | nil => exact hnext.symm.trans hafter
    | cons l' ls => exact ih hrest (List.cons_ne_nil _ _) hafter

/-- **A tree with another page behind its last leaf** is not as documented. -/
theorem Stored.not_asDocumented {t : PageTree K V n} (h : Stored cfg s.pages t parent next)
    (hroot : t.id = s.rootPageId) (hvalid : t.id ≠ invalidPageId)
    (hnext : next ≠ invalidPageId) : ¬ AsDocumented cfg s := by
  rintro (hempty | ⟨m, u, after, hu⟩)
  · exact hvalid (hroot.trans hempty)
  · -- the tree in the pages is the only one
    have hid : u.id = t.id := hu.root.trans hroot.symm
    obtain rfl := hu.stored.height_eq h hu.branches hid
    obtain rfl := hu.stored.unique h hid
    exact hnext ((h.chained hu.branches).eq_invalid hu.branches.leaves_ne_nil hu.follows)

/-- A tree that has its shape leads on to page 0, and is not as documented. -/
theorem Shaped.not_asDocumented {t : PageTree K V n} (h : Shaped cfg [] s t 0) :
    s.rootPageId ≠ invalidPageId ∧ ¬ AsDocumented cfg s := by
  have hvalid : t.id ≠ invalidPageId := fun hc => h.valid (hc ▸ t.id_mem_ids)
  exact ⟨h.root ▸ hvalid, h.stored.not_asDocumented h.root hvalid (by decide)⟩

/-! ## Every run -/

variable [LinearOrder K] {key : K} {value : V}

/-- **The first insertion** makes a tree of one page. -/
theorem shaped_of_startNewTree (hleaf : 1 ≤ cfg.leafMaxSize) (halloc : 0 ∈ s.allocated)
    (hnone : s.pages 0 = none) (hrun : s.startNewTree cfg key value = some s') :
    ∃ t : PageTree K V 0, Shaped cfg [] s' t 0 := by
  obtain ⟨s₁, id, hstart, ht⟩ := exists_startNewTree s cfg key value hleaf
  obtain rfl : s₁ = s' := Option.some.inj (hstart.symm.trans hrun)
  obtain ⟨hid, hs⟩ : id = cfg.allocatePage s.allocated ∧ s₁ =
      ({ (s.newPage cfg).2 with rootPageId := cfg.allocatePage s.allocated }).write (.leaf
        ⟨cfg.allocatePage s.allocated, invalidPageId, 0, cfg.leafMaxSize, [(key, value)]⟩) := by
    have hroot := ht.root
    cases hrun
    exact ⟨hroot, rfl⟩
  have hne : (0 : PageId) ≠ id := fun hc => cfg.fresh s.allocated (hid ▸ hc ▸ halloc)
  refine ⟨_, ht.root, ht.stored, ht.nodup, ht.allocated, ht.valid,
    ⟨.inl List.mem_cons_self, hleaf⟩, .inr le_rfl, ?_, fun hc => hne (List.mem_singleton.mp hc), ?_⟩
  · rw [hs]
    exact List.mem_cons_of_mem _ halloc
  · rw [hs]
    exact (Function.update_of_ne (hid ▸ hne) ..).trans hnone

/-- **Insertion keeps the shape**, of a tree that may be empty before it. -/
theorem WellShaped.of_insert [Inhabited K] {success : Bool} (hleaf : 2 ≤ cfg.leafMaxSize)
    (hinternal : 3 ≤ cfg.internalMaxSize) (h : WellShaped cfg s 0)
    (hrun : s.insert cfg key value = some (s', success)) :
    ∃ (n : ℕ) (t : PageTree K V n), Shaped cfg [] s' t 0 := by
  rcases h with ⟨hempty, halloc, hnone⟩ | ⟨n, t, h⟩
  · have hempty : s.isEmpty = true := decide_eq_true hempty
    rw [insert, hempty, if_pos rfl] at hrun
    obtain ⟨s₁, hstart, hs⟩ := Option.map_eq_some_iff.mp hrun
    obtain rfl : s₁ = s' := congrArg Prod.fst hs
    exact ⟨0, shaped_of_startNewTree (Nat.le_of_succ_le hleaf) halloc hnone hstart⟩
  · obtain ⟨s₁, done, hinsert, hshaped⟩ := h.exists_insert hleaf hinternal key value
    obtain rfl : s₁ = s' := congrArg Prod.fst (Option.some.inj (hinsert.symm.trans hrun))
    exact hshaped

/-- **Removal keeps the shape**, of a tree that may be empty. -/
theorem WellShaped.of_remove (hleaf : 4 ≤ cfg.leafMaxSize) (hinternal : 3 ≤ cfg.internalMaxSize)
    (h : WellShaped cfg s next) (hrun : s.remove key = some s') : WellShaped cfg s' next := by
  rcases h with hempty | ⟨n, t, h⟩
  · have hisEmpty : s.isEmpty = true := decide_eq_true hempty.1
    rw [remove, hisEmpty, if_pos rfl] at hrun
    cases hrun
    exact .inl hempty
  · exact h.of_remove hleaf hinternal hrun

/-- **Every call keeps the shape.** -/
theorem WellShaped.of_step [Inhabited K] {call : TreeCall K V} {answer : TreeAnswer V}
    (hleaf : 4 ≤ cfg.leafMaxSize) (hinternal : 3 ≤ cfg.internalMaxSize) (h : WellShaped cfg s 0)
    (hrun : step cfg s call = some (s', answer)) : WellShaped cfg s' 0 := by
  cases call with
  | insert key value =>
    obtain ⟨⟨s₁, success⟩, hinsert, hs⟩ := Option.map_eq_some_iff.mp hrun
    obtain rfl : s₁ = s' := congrArg Prod.fst hs
    exact .inr (h.of_insert (Nat.le_of_add_left_le hleaf) hinternal hinsert)
  | remove key =>
    obtain ⟨s₁, hremove, hs⟩ := Option.map_eq_some_iff.mp hrun
    obtain rfl : s₁ = s' := congrArg Prod.fst hs
    exact h.of_remove hleaf hinternal hremove
  | getValue key =>
    obtain ⟨found, -, hs⟩ := Option.map_eq_some_iff.mp hrun
    obtain rfl : s = s' := congrArg Prod.fst hs
    exact h

/-- **Every run** leaves a tree without pages, or one that has its shape. -/
theorem wellShaped_of_run [Inhabited K] {calls : List (TreeCall K V)}
    {answers : List (TreeAnswer V)} (hleaf : 4 ≤ cfg.leafMaxSize)
    (hinternal : 3 ≤ cfg.internalMaxSize)
    (hrun : Machine.run (step cfg) empty calls = some (s, answers)) : WellShaped cfg s 0 := by
  have hreaches : Machine.Reaches (step cfg) (fun _ _ => True) empty s :=
    Machine.Reaches.init.run (Machine.meets_of_forall (fun _ _ => trivial) _ calls) hrun
  exact hreaches.invariant (I := fun s => WellShaped cfg s 0) (.inl ⟨rfl, List.mem_cons_self, rfl⟩)
    (fun _ _ _ _ h _ hstep => h.of_step hleaf hinternal hstep)

/-- A call that inserts. -/
def Inserts : TreeCall K V → Prop
  | .insert _ _ => True
  | _ => False

/-- Without an insertion the tree stays empty. -/
theorem rootPageId_of_no_insert [Inhabited K] {calls : List (TreeCall K V)}
    {answers : List (TreeAnswer V)} (hcalls : ∀ call ∈ calls, ¬ Inserts call)
    (hrun : Machine.run (step cfg) empty calls = some (s, answers)) :
    s.rootPageId = invalidPageId := by
  have hreaches := Machine.Reaches.init.run (Machine.meets_of_forall_mem hcalls empty) hrun
  refine hreaches.invariant (I := fun s => s.rootPageId = invalidPageId) rfl
    (fun s call s' answer hempty hcall hstep => ?_)
  cases call with
  | insert key value => exact absurd trivial hcall
  | remove key =>
    obtain ⟨s₁, hremove, hs⟩ := Option.map_eq_some_iff.mp hstep
    obtain rfl : s₁ = s' := congrArg Prod.fst hs
    rw [remove, isEmpty, if_pos (decide_eq_true hempty)] at hremove
    cases hremove
    exact hempty
  | getValue key =>
    obtain ⟨found, -, hs⟩ := Option.map_eq_some_iff.mp hstep
    exact congrArg (fun r => r.1.rootPageId) hs ▸ hempty

/-- **The shape of the tree**, after every run of `Insert`, `Remove` and `GetValue` calls from
an empty tree in which no call fails, whatever the keys are. It has no pages, or the shape that
is documented but for the end of the chain of its leaves. With the end of the chain it is as
documented only if it has no pages, and so after each call exactly if none of them inserts. -/
theorem documentedShape_iff [Inhabited K] {calls : List (TreeCall K V)}
    {answers : List (TreeAnswer V)} (hleaf : 4 ≤ cfg.leafMaxSize)
    (hinternal : 4 ≤ cfg.internalMaxSize)
    (hrun : Machine.run (step cfg) empty calls = some (s, answers)) :
    (s.rootPageId = invalidPageId ∨ ∃ (n : ℕ) (t : PageTree K V n), ListedShape cfg s t 0) ∧
    (AsDocumented cfg s ↔ s.rootPageId = invalidPageId) ∧
    ((∀ calls' s' answers', calls' <+: calls →
        Machine.run (step cfg) empty calls' = some (s', answers') → AsDocumented cfg s') ↔
      ∀ call ∈ calls, ¬ Inserts call) := by
  have hinternal : 3 ≤ cfg.internalMaxSize := Nat.le_of_succ_le hinternal
  have hshaped := wellShaped_of_run hleaf hinternal hrun
  refine ⟨hshaped.imp And.left (fun ⟨n, t, h⟩ => ⟨n, t, h.listedShape⟩), ⟨fun hdoc => ?_, .inl⟩,
    fun hall call hcall hinsert => ?_, fun hno calls' s' answers' hpre hrun' => ?_⟩
  · rcases hshaped with hempty | ⟨n, t, h⟩
    · exact hempty.1
    · exact absurd hdoc h.not_asDocumented.2
  · -- the calls up to an insertion leave a tree with pages
    obtain ⟨pre, post, rfl⟩ := List.append_of_mem hcall
    cases call with
    | insert key value =>
      rw [List.append_cons, Machine.run_append, Option.bind_eq_some_iff] at hrun
      obtain ⟨⟨s₂, answers₂⟩, hrun₂, -⟩ := hrun
      have hpre : pre ++ [TreeCall.insert key value] <+:
          pre ++ TreeCall.insert key value :: post := ⟨post, (List.append_cons _ _ _).symm⟩
      have hdoc := hall _ s₂ answers₂ hpre hrun₂
      rw [Machine.run_append, Option.bind_eq_some_iff] at hrun₂
      obtain ⟨⟨s₁, answers₁⟩, hrun₁, hlast⟩ := hrun₂
      obtain ⟨⟨s₃, answers₃⟩, hone, hlast⟩ := Option.map_eq_some_iff.mp hlast
      obtain rfl : s₃ = s₂ := congrArg Prod.fst hlast
      obtain ⟨s₄, answer, rest, hstep, hnil, -⟩ := Machine.run_cons_eq_some hone
      cases hnil
      obtain ⟨⟨s₅, success⟩, hinserted, hs⟩ := Option.map_eq_some_iff.mp hstep
      obtain rfl : s₅ = s₃ := congrArg Prod.fst hs
      obtain ⟨n, t, h⟩ := (wellShaped_of_run hleaf hinternal hrun₁).of_insert
        (Nat.le_of_add_left_le hleaf) hinternal hinserted
      exact h.not_asDocumented.2 hdoc
    | remove key => exact hinsert
    | getValue key => exact hinsert
  · exact .inl (rootPageId_of_no_insert (fun call hcall => hno call (hpre.subset hcall)) hrun')

/-- A page is split, and later it is put together with the other half: the tree has the shape
that is documented, but its last leaf leads on to page 0. -/
theorem documentedShape_iff_seven : ∃ (s : BPlusTree ℕ ℕ) (answers : List (TreeAnswer ℕ)),
    Machine.run (step (.above 4 4)) empty [.insert 1 10, .insert 2 20, .insert 3 30,
      .insert 4 40, .insert 5 50, .remove 1, .remove 2] = some (s, answers) ∧
    (∃ (n : ℕ) (t : PageTree ℕ ℕ n), ListedShape (.above 4 4) s t 0) ∧
      ¬ AsDocumented (.above 4 4) s := by
  have hrun : (Machine.run (step (.above 4 4)) (empty : BPlusTree ℕ ℕ) [.insert 1 10,
      .insert 2 20, .insert 3 30, .insert 4 40, .insert 5 50, .remove 1, .remove 2]).map
        (fun r => r.1.rootPageId) = some 2 := by
    decide
  obtain ⟨⟨s, answers⟩, hrun, hroot⟩ := Option.map_eq_some_iff.mp hrun
  have hne : s.rootPageId ≠ invalidPageId := hroot.trans_ne (by decide)
  obtain ⟨hshape, hiff, -⟩ := documentedShape_iff (by decide) (by decide) hrun
  exact ⟨s, answers, hrun, hshape.resolve_left hne, fun hdoc => hne (hiff.mp hdoc)⟩

/-- **One insertion** into an empty tree: the only leaf does not lead to `INVALID_PAGE_ID`. -/
theorem not_documentedShape : ¬ ∀ (cfg : TreeConfig) (calls : List (TreeCall ℕ ℕ))
    (s : BPlusTree ℕ ℕ) (answers : List (TreeAnswer ℕ)),
    4 ≤ cfg.leafMaxSize → 4 ≤ cfg.internalMaxSize →
    Machine.run (step cfg) empty calls = some (s, answers) → AsDocumented cfg s := by
  intro hall
  obtain ⟨s, id, hstart, ht⟩ :=
    exists_startNewTree (empty : BPlusTree ℕ ℕ) (.above 4 4) 1 10 (by decide)
  have hrun : Machine.run (step (.above 4 4)) (empty : BPlusTree ℕ ℕ) [.insert 1 10] =
      some (s, [.inserted true]) := by
    rw [Machine.run, step, insert, if_pos (by decide), hstart]
    rfl
  have hvalid : id ≠ invalidPageId := fun hc => ht.valid (hc ▸ List.mem_cons_self)
  exact ht.stored.not_asDocumented ht.root hvalid (by decide)
    (hall _ _ s _ (by decide) (by decide) hrun)

end BPlusTree

end MiniSql
