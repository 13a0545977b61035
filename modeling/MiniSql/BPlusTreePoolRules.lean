import MiniSql.BPlusTreePool
import MiniSql.Family
import MiniSql.Triples

/-!
# Rules for the code of the tree

An assertion about a tree and its buffer pool (`Holding`) says what is known
of the links between its pages and of the page of the index roots, how the
events start, and which pages may still be pinned. This module has the rule of
every call of which the code of the tree is made up.

The links between the pages (`family`) are those of a store of nodes: a page
that is written with other entries but the same parent and the same children
leaves them as they are.
-/

namespace MiniSql

open PoolCalls Program Family

variable {K V : Type}

/-- The children of a page. -/
def BPlusTreePage.children : BPlusTreePage K V → List PageId
  | .leaf _ => []
  | .internal p => p.array.map Prod.snd

namespace BPlusTree

/-- **The links** between the pages of a tree. -/
def family (t : BPlusTree K V) : Store PageId where
  root := t.rootPageId
  up q := (t.pages q).map BPlusTreePage.parentPageId
  kids q := ((t.pages q).map BPlusTreePage.children).getD []
  used := t.allocated

/-- Every page has its own id. -/
def SelfIds (t : BPlusTree K V) : Prop := ∀ q p, t.pages q = some p → p.pageId = q

variable {t t' : BPlusTree K V} {p : BPlusTreePage K V} {q : PageId}

theorem family_write : (t.write p).family = t.family.put p.pageId p.parentPageId p.children := by
  unfold family write Store.put
  congr 1
  · funext q
    by_cases hq : q = p.pageId <;> simp [Function.update, hq]
  · funext q
    by_cases hq : q = p.pageId <;> simp [Function.update, hq]

/-- A page with the links of the old one changes no links. -/
theorem family_rewrite (hup : t.family.up p.pageId = some p.parentPageId)
    (hkids : t.family.kids p.pageId = p.children) : (t.write p).family = t.family := by
  rw [family_write, Store.put_self hup hkids]

theorem family_deletePage : (t.deletePage q).family = t.family.drop q := by
  unfold family deletePage Store.drop
  congr 1
  · funext r
    by_cases hr : r = q <;> simp [Function.update, hr]
  · funext r
    by_cases hr : r = q <;> simp [Function.update, hr]

theorem SelfIds.write (h : t.SelfIds) : (t.write p).SelfIds := by
  intro q p' hq
  change Function.update t.pages p.pageId (some p) q = some p' at hq
  by_cases heq : q = p.pageId
  · rw [heq, Function.update_self] at hq
    rw [heq, Option.some.inj hq]
  · rw [Function.update_of_ne heq] at hq
    exact h q p' hq

theorem SelfIds.deletePage (h : t.SelfIds) : (t.deletePage q).SelfIds := by
  intro r p hr
  change Function.update t.pages q none r = some p at hr
  by_cases heq : r = q
  · rw [heq, Function.update_self] at hr
    exact absurd hr nofun
  · rw [Function.update_of_ne heq] at hr
    exact h r p hr

/-- `SetParentPageId` sets the one link. -/
theorem setParent_cases {parent : PageId} (h : t.SelfIds) (ht : t.setParent parent q = some t') :
    t'.SelfIds ∧ t'.family = t.family.adopt parent [q] := by
  obtain ⟨p, hp, rfl⟩ := Option.map_eq_some_iff.mp ht
  have hid : (p.setParentPageId parent).pageId = q := by
    rw [← h q p hp]
    cases p <;> rfl
  refine ⟨h.write, ?_⟩
  have hparent : (p.setParentPageId parent).parentPageId = parent := by cases p <;> rfl
  have hchildren : (p.setParentPageId parent).children = p.children := by cases p <;> rfl
  have hkids : t.family.kids q = p.children := by
    show ((t.pages q).map BPlusTreePage.children).getD [] = p.children
    rw [hp]
    rfl
  rw [family_write, hid, hparent, hchildren, ← hkids, Store.put_kids]

end BPlusTree

/-- What a page shows of the links. -/
def Shows (p : PageId) (page : BPlusTreePage K V) (σ : Store PageId) : Prop :=
  σ.up p = some page.parentPageId ∧ σ.kids p = page.children

/-- A leaf shows its parent alone. -/
theorem Shows.leaf {σ : Store PageId} {p : PageId} {page page' : LeafPage K V}
    (h : Shows p (.leaf page) σ) (hparent : page'.parentPageId = page.parentPageId) :
    Shows p (.leaf page') σ :=
  ⟨h.1.trans (congrArg some hparent.symm), h.2⟩

theorem Shows.ne_none {σ : Store PageId} {p : PageId} {page : BPlusTreePage K V}
    (h : Shows p page σ) : σ.up p ≠ none := by
  rw [h.1]
  exact nofun

namespace PooledTree

/-- **An assertion** about a tree and its buffer pool: what is known of the
links and of the page of the index roots, how the events start, and, if pins are
counted, how many there are at most. -/
structure Holding (counted : Prop) (A : Store PageId → IndexRootsPage → Prop)
    (log : List (Event PageId)) (held : PageId → ℕ) (s : PooledTree K V) : Prop where
  selfIds : s.tree.SelfIds
  links : A s.tree.family s.indexRoots
  log : log <+: s.log
  holds : counted → Holds held s.log

variable {counted : Prop} {A B : Store PageId → IndexRootsPage → Prop} {log : List (Event PageId)}
  {held held' : PageId → ℕ} {env : TreeEnv K V} {p : Pointer PageId} {q : PageId}

theorem Holding.imp {s : PooledTree K V} (h : Holding counted A log held s)
    (hAB : ∀ σ r, A σ r → B σ r) : Holding counted B log held s :=
  ⟨h.selfIds, hAB _ _ h.links, h.log, h.holds⟩

theorem Holding.mono {s : PooledTree K V} (h : Holding counted A log held s)
    (hle : ∀ q, held q ≤ held' q) : Holding counted A log held' s :=
  ⟨h.selfIds, h.links, h.log, fun hc => (h.holds hc).mono hle⟩

/-- The links from which the code starts. -/
theorem fix_links {α : Type} {m : TreeM K V α} {Q : α → PooledTree K V → Prop}
    (h : ∀ σ₀ r₀, A σ₀ r₀ → Triple (Holding counted (fun σ r => σ = σ₀ ∧ r = r₀) log held) m Q) :
    Triple (Holding counted A log held) m Q :=
  fun s a s' hs hrun => h _ _ hs.links s a s' ⟨hs.selfIds, ⟨rfl, rfl⟩, hs.log, hs.holds⟩ hrun

/-- Less may be known of the links. -/
theorem forget {α : Type} {m : TreeM K V α} {Q : α → PooledTree K V → Prop}
    (h : Triple (Holding counted B log held) m Q) (hAB : ∀ σ r, A σ r → B σ r) :
    Triple (Holding counted A log held) m Q :=
  h.pre (fun _ hs => hs.imp hAB)

/-- What the links tell. -/
theorem assume_links {α : Type} {m : TreeM K V α} {Q : α → PooledTree K V → Prop} {φ : Prop}
    (hφ : ∀ σ r, A σ r → φ) (h : φ → Triple (Holding counted A log held) m Q) :
    Triple (Holding counted A log held) m Q :=
  fun s a s' hs hrun => h (hφ _ _ hs.links) s a s' hs hrun

/-! ## Calls of the buffer pool -/

theorem emit_rule {e : Event PageId}
    (he : counted → ∀ l, Holds held l → Holds held' (l ++ [e])) :
    Triple (Holding (K := K) (V := V) counted A log held) (emit e)
      (fun _ => Holding counted A log held') :=
  Triple.update (fun _ h =>
    ⟨h.selfIds, h.links, h.log.trans (List.prefix_append _ _), fun hc => he hc _ (h.holds hc)⟩)

theorem use_rule : Keeps (Holding (K := K) (V := V) counted A log held) (emit (.use p)) :=
  emit_rule (fun _ _ h => h.use)

theorem fetchPage_rule : Triple (Holding (K := K) (V := V) counted A log held) (fetchPage q)
    (fun p s => p.page = q ∧ Holding counted A log (held + one p.page) s) := by
  refine Triple.bind (Q := fun _ => Holding counted A log (held + one q)) ?_ (fun _ => ?_)
  · exact Triple.ite (fun _ => emit_rule (fun _ _ h => h.fetch)) (fun _ => Triple.stuck)
  · exact Triple.bind (Triple.read (Q := fun _ => Holding counted A log (held + one q))
      (fun _ h => h))
      (fun _ => Triple.ret (fun _ h => ⟨rfl, h⟩))

/-- A page that is held is given up. -/
theorem unpinPage_counted (held' : PageId → ℕ) (hle : counted → ∀ r, held r ≤ (held' + one q) r) :
    Triple (Holding (K := K) (V := V) counted A log held) (unpinPage q)
      (fun _ => Holding counted A log held') :=
  emit_rule (fun hc _ h => (h.mono (hle hc)).unpin)

theorem unpinPage_rule (held' : PageId → ℕ) (hle : ∀ r, held r ≤ (held' + one q) r) :
    Triple (Holding (K := K) (V := V) counted A log held) (unpinPage q)
      (fun _ => Holding counted A log held') :=
  unpinPage_counted held' (fun _ => hle)

/-- An unpin too many does no harm. -/
theorem unpinPage_any : Keeps (Holding (K := K) (V := V) counted A log held) (unpinPage q) :=
  emit_rule (fun _ _ h => h.unpin_any)

/-! ## Pages -/

theorem update_rule {f : BPlusTree K V → BPlusTree K V} (hself : ∀ t, t.SelfIds → (f t).SelfIds)
    (hf : ∀ t r, A t.family r → B (f t).family r) :
    Triple (Holding counted A log held) (update f) (fun _ => Holding counted B log held) :=
  Triple.update (fun _ h => ⟨hself _ h.selfIds, hf _ _ h.links, h.log, h.holds⟩)

theorem write_rule {page : BPlusTreePage K V}
    (hf : ∀ σ r, A σ r → B (σ.put page.pageId page.parentPageId page.children) r) :
    Triple (Holding counted A log held) (update (·.write page))
      (fun _ => Holding counted B log held) := by
  refine update_rule (fun _ h => h.write) (fun t r h => ?_)
  rw [BPlusTree.family_write]
  exact hf _ _ h

/-- A page is written that has the links it had. -/
theorem rewrite_rule {page : BPlusTreePage K V} (hf : ∀ σ r, A σ r → Shows page.pageId page σ) :
    Keeps (Holding counted A log held) (update (·.write page)) := by
  refine update_rule (fun _ h => h.write) (fun t r h => ?_)
  rw [BPlusTree.family_rewrite (hf _ _ h).1 (hf _ _ h).2]
  exact h

/-- So are two pages. -/
theorem rewrite_two_rule {page page' : BPlusTreePage K V}
    (hf : ∀ σ r, A σ r → Shows page.pageId page σ)
    (hf' : ∀ σ r, A σ r → Shows page'.pageId page' σ) :
    Keeps (Holding counted A log held) (update (fun t => (t.write page).write page')) := by
  refine update_rule (fun _ h => h.write.write) (fun t r h => ?_)
  have heq : (t.write page).family = t.family := BPlusTree.family_rewrite (hf _ _ h).1 (hf _ _ h).2
  have hshow : Shows page'.pageId page' (t.write page).family := heq ▸ hf' _ _ h
  rw [BPlusTree.family_rewrite hshow.1 hshow.2, heq]
  exact h

theorem deref_rule : Triple (Holding counted A log held) (deref p)
    (fun page s => page.pageId = p.page ∧
    Holding (K := K) (V := V) counted (fun σ r => A σ r ∧ Shows p.page page σ) log held s) := by
  refine Triple.bind use_rule (fun _ => ?_)
  refine Triple.bind (Triple.read (Q := fun a s => a = s ∧ Holding counted A log held s)
    (fun _ h => ⟨rfl, h⟩)) (fun a => ?_)
  refine Triple.lift (fun page hpage s hs => ?_)
  obtain ⟨rfl, h⟩ := hs
  refine ⟨h.selfIds _ _ hpage, h.selfIds, ⟨h.links, ?_, ?_⟩, h.log, h.holds⟩
  · show (a.tree.pages p.page).map _ = _
    rw [hpage]
    rfl
  · show ((a.tree.pages p.page).map _).getD _ = _
    rw [hpage]
    rfl

theorem derefLeaf_rule : Triple (Holding counted A log held) (derefLeaf p) (fun page s =>
    page.pageId = p.page ∧
      Holding (K := K) (V := V) counted
        (fun σ r => A σ r ∧ Shows p.page (.leaf page) σ) log held s) := by
  refine Triple.andThen deref_rule (fun page hid => ?_)
  cases page with
  | leaf page => exact Triple.ret (fun _ h => ⟨hid, h⟩)
  | internal page => exact Triple.stuck

theorem derefInternal_rule : Triple (Holding counted A log held) (derefInternal p) (fun page s =>
    page.pageId = p.page ∧
      Holding (K := K) (V := V) counted
        (fun σ r => A σ r ∧ Shows (V := V) p.page (.internal page) σ)
        log held s) := by
  refine Triple.andThen deref_rule (fun page hid => ?_)
  cases page with
  | leaf page => exact Triple.stuck
  | internal page => exact Triple.ret (fun _ h => ⟨hid, h⟩)

theorem derefAsLeaf_rule : Keeps (Holding counted A log held) (derefAsLeaf env p) := by
  refine Triple.bind use_rule (fun _ => ?_)
  refine Triple.bind (Triple.read (Q := fun _ => Holding counted A log held) (fun _ h => h))
    (fun s => ?_)
  split
  · exact Triple.ret (fun _ h => h)
  · exact Triple.stuck
  · exact Triple.ret (fun _ h => h)

/-- A page shows its own id if it is one of the tree, or if its frame shows that
id all the same. -/
theorem getPageId_own (hp : counted → ∀ σ r, A σ r → σ.up p.page = none →
    ∀ l, (env.foreign l p.page).pageId = p.page) :
    Triple (Holding counted A log held) (getPageId env p)
      (fun id s => (counted → id = p.page) ∧
        Holding (K := K) (V := V) counted A log held s) := by
  refine Triple.bind use_rule (fun _ => ?_)
  refine Triple.bind (Triple.read (Q := fun a s => a = s ∧ Holding counted A log held s)
    (fun _ h => ⟨rfl, h⟩)) (fun a => ?_)
  split
  · rename_i page hpage
    refine Triple.ret (fun s h => ⟨fun _ => ?_, h.2⟩)
    obtain ⟨rfl, h⟩ := h
    exact h.selfIds _ _ hpage
  · rename_i hnone
    refine Triple.ret (fun s h => ⟨fun hc => ?_, h.2⟩)
    obtain ⟨rfl, h⟩ := h
    refine hp hc _ _ h.links ?_ _
    show (a.tree.pages p.page).map _ = none
    rw [hnone]
    rfl

/-- A page of the tree shows its own id. -/
theorem getPageId_rule (hp : ∀ σ r, A σ r → σ.up p.page ≠ none) :
    Triple (Holding counted A log held) (getPageId env p)
      (fun id s => id = p.page ∧ Holding (K := K) (V := V) counted A log held s) := by
  refine Triple.bind use_rule (fun _ => ?_)
  refine Triple.bind (Triple.read (Q := fun a s => a = s ∧ Holding counted A log held s)
    (fun _ h => ⟨rfl, h⟩)) (fun a => ?_)
  split
  · rename_i page hpage
    refine Triple.ret (fun s h => ⟨?_, h.2⟩)
    obtain ⟨rfl, h⟩ := h
    exact h.selfIds _ _ hpage
  · rename_i hnone
    refine Triple.ret (fun s h => ?_)
    obtain ⟨rfl, h⟩ := h
    refine absurd ?_ (hp _ _ h.links)
    show (a.tree.pages p.page).map _ = none
    rw [hnone]
    rfl

/-- What is no page of the tree shows some id. -/
theorem getPageId_any : Keeps (Holding counted A log held) (getPageId env p) := by
  refine Triple.bind use_rule (fun _ => ?_)
  refine Triple.bind (Triple.read (Q := fun _ => Holding counted A log held) (fun _ h => h))
    (fun s => ?_)
  split
  · exact Triple.ret (fun _ h => h)
  · exact Triple.ret (fun _ h => h)

theorem setParentPageId_rule {parent : PageId}
    (hf : ∀ σ r, A σ r → B (σ.adopt parent [p.page]) r) :
    Triple (Holding (K := K) (V := V) counted A log held) (setParentPageId p parent)
      (fun _ => Holding counted B log held) := by
  refine Triple.bind use_rule (fun _ => ?_)
  refine Triple.bind (Triple.read (Q := fun a s => a = s ∧ Holding counted A log held s)
    (fun _ h => ⟨rfl, h⟩)) (fun a => ?_)
  refine Triple.bind (Q := fun tree s => Holding counted A log held a ∧
    a.tree.setParent parent p.page = some tree ∧ s = a) ?_ (fun tree => ?_)
  · exact Triple.lift (fun tree htree s h => ⟨h.1 ▸ h.2, htree, h.1.symm⟩)
  · intro s u s' hs hrun
    cases hrun
    obtain ⟨h, htree, rfl⟩ := hs
    obtain ⟨hself, hfamily⟩ := BPlusTree.setParent_cases h.selfIds htree
    exact ⟨hself, hfamily ▸ hf _ _ h.links, h.log, h.holds⟩

/-- `NewPage` and `Init`: a page that was not in use, without children. -/
theorem newPage_rule {C : PageId → Store PageId → IndexRootsPage → Prop}
    {init : PageId → BPlusTreePage K V} (hid : ∀ q, (init q).pageId = q)
    (hchildren : ∀ q, (init q).children = [])
    (hf : ∀ σ r q, A σ r → q ∉ σ.used → 0 ≤ q →
      C q ((σ.alloc q).put q (init q).parentPageId []) r) :
    Triple (Holding counted A log held) (newPage env init)
      (fun p => Holding counted (C p.page) log (held + one p.page)) := by
  refine Triple.bind (Triple.read (Q := fun a s => a = s ∧ Holding counted A log held s)
    (fun _ h => ⟨rfl, h⟩)) (fun a => ?_)
  intro s p s' hs hrun
  obtain ⟨rfl, h⟩ := hs
  cases hrun
  have hlinks := hf _ _ (env.allocatePage a.tree.allocated) h.links (env.fresh _) (env.valid _)
  refine ⟨h.selfIds.write, ?_, h.log.trans ?_, fun hc => (h.holds hc).new.use⟩
  · rw [BPlusTree.family_write, hid, hchildren]
    exact hlinks
  · exact (List.prefix_append _ _).trans (List.prefix_append _ _)

/-- `DeletePage`. -/
theorem deletePage_rule (hf : ∀ σ r, A σ r → B (σ.drop q) r) :
    Triple (Holding (K := K) (V := V) counted A log held) (deletePage q)
      (fun _ => Holding counted B log held) := by
  refine Triple.bind (emit_rule (fun _ _ h => h.delete)) (fun _ => ?_)
  refine update_rule (fun _ h => h.deletePage) (fun t r h => ?_)
  rw [BPlusTree.family_deletePage]
  exact hf _ _ h

/-- `UpdateRootPageId`. -/
theorem updateRootPageId_rule {insertRecord : Bool}
    (hf : ∀ σ r r', A σ r →
      (if insertRecord then (r.insert env.indexId σ.root).map Prod.fst
        else some (r.update env.indexId σ.root).1) = some r' → B σ r') :
    Triple (Holding counted A log held) (updateRootPageId env insertRecord)
      (fun _ => Holding counted B log held) := by
  refine Triple.andThen fetchPage_rule (fun p hp => ?_)
  refine Triple.bind use_rule (fun _ => ?_)
  refine Triple.bind (Triple.read
    (Q := fun a s => a = s ∧ Holding counted A log (held + one p.page) s)
    (fun _ h => ⟨rfl, h⟩)) (fun a => ?_)
  refine Triple.bind (Q := fun r s => a = s ∧ Holding counted A log (held + one p.page) s ∧
    B a.tree.family r) ?_ (fun r => ?_)
  · cases insertRecord with
    | true => exact Triple.lift (fun r hr s h => ⟨h.1, h.2, h.1 ▸ hf _ _ _ h.2.links (h.1 ▸ hr)⟩)
    | false => exact Triple.lift (fun r hr s h => ⟨h.1, h.2, h.1 ▸ hf _ _ _ h.2.links (h.1 ▸ hr)⟩)
  refine Triple.bind (Q := fun _ => Holding counted B log (held + one p.page)) ?_ (fun _ => ?_)
  · intro s u s' hs hrun
    cases hrun
    obtain ⟨rfl, h, hB⟩ := hs
    exact ⟨h.selfIds, hB, h.log, h.holds⟩
  · exact unpinPage_rule _ (fun q => by rw [hp])

/-! ## The tree is only looked at -/

section Tree

variable {t : BPlusTree K V}

theorem emit_tree {e : Event PageId} :
    Keeps (fun s : PooledTree K V => s.tree = t) (emit e) :=
  Triple.update (fun _ h => h)

theorem fetchPage_tree : Triple (fun s : PooledTree K V => s.tree = t) (fetchPage q)
    (fun p s => p.page = q ∧ s.tree = t) := by
  refine Triple.bind (Q := fun _ s => s.tree = t) ?_ (fun _ => ?_)
  · exact Triple.ite (fun _ => emit_tree) (fun _ => Triple.stuck)
  · exact Triple.bind (Triple.read (Q := fun _ s => s.tree = t) (fun _ h => h))
      (fun _ => Triple.ret (fun _ h => ⟨rfl, h⟩))

theorem deref_tree : Triple (fun s : PooledTree K V => s.tree = t) (deref p)
    (fun page s => t.pages p.page = some page ∧ s.tree = t) := by
  refine Triple.bind emit_tree (fun _ => ?_)
  refine Triple.bind (Triple.read (Q := fun a s => a.tree = t ∧ s.tree = t) (fun _ h => ⟨h, h⟩))
    (fun a => ?_)
  refine Triple.assume (fun ha => ?_)
  rw [ha]
  exact Triple.known

theorem derefLeaf_tree : Triple (fun s : PooledTree K V => s.tree = t) (derefLeaf p)
    (fun page s => t.pages p.page = some (.leaf page) ∧ s.tree = t) := by
  refine Triple.andThen deref_tree (fun page hpage => ?_)
  cases page with
  | leaf page => exact Triple.ret (fun _ h => ⟨hpage, h⟩)
  | internal page => exact Triple.stuck

theorem derefInternal_tree : Triple (fun s : PooledTree K V => s.tree = t) (derefInternal p)
    (fun page s => t.pages p.page = some (.internal page) ∧ s.tree = t) := by
  refine Triple.andThen deref_tree (fun page hpage => ?_)
  cases page with
  | leaf page => exact Triple.stuck
  | internal page => exact Triple.ret (fun _ h => ⟨hpage, h⟩)

/-- The page after a leaf of the tree, or after what a frame shows. -/
def Next (env : TreeEnv K V) (t : BPlusTree K V) (q next : PageId) : Prop :=
  match t.pages q with
  | some (.leaf page) => next = page.nextPageId
  | some (.internal _) => False
  | none => ∃ l, next = (env.foreign l q).nextPageId

theorem derefAsLeaf_tree : Triple (fun s : PooledTree K V => s.tree = t) (derefAsLeaf env p)
    (fun page s => Next env t p.page page.nextPageId ∧ s.tree = t) := by
  refine Triple.bind emit_tree (fun _ => ?_)
  refine Triple.bind (Triple.read (Q := fun a s => a.tree = t ∧ s.tree = t) (fun _ h => ⟨h, h⟩))
    (fun a => ?_)
  refine Triple.assume (fun ha => ?_)
  rw [ha]
  unfold Next
  cases t.pages p.page with
  | none => exact Triple.ret (fun _ h => ⟨⟨_, rfl⟩, h⟩)
  | some page =>
    cases page with
    | leaf page => exact Triple.ret (fun _ h => ⟨rfl, h⟩)
    | internal page => exact Triple.stuck

variable [LinearOrder K] {key : K} {leftMost : Bool}

/-- **The loop of the search** ends at the leaf that the loop without a buffer
pool ends at. -/
theorem findLeafLoop_tree {rounds : ℕ} : Triple (fun s : PooledTree K V => s.tree = t)
    (findLeafLoop key leftMost rounds p) (fun leaf s => (∃ page,
      t.pages leaf.page = some (.leaf page) ∧
        t.findLeafFrom key leftMost rounds p.page = some page) ∧ s.tree = t) := by
  induction rounds generalizing p with
  | zero => exact Triple.stuck
  | succ rounds ih =>
    refine Triple.andThen deref_tree (fun page hpage => ?_)
    cases page with
    | leaf page =>
      refine Triple.bind emit_tree (fun _ => ?_)
      refine Triple.ret (fun _ h => ⟨⟨page, hpage, ?_⟩, h⟩)
      rw [BPlusTree.findLeafFrom, hpage]
    | internal page =>
      refine Triple.andThen (Q := fun _ s => s.tree = t) (φ := fun next =>
        (if leftMost then page.valueAt 0 else page.lookup key) = some next) ?_
        (fun next hnext => ?_)
      · refine Triple.ite (fun hl => ?_) (fun hl => ?_)
        · rw [if_pos hl]
          exact Triple.known
        · rw [if_neg hl]
          exact Triple.known
      refine Triple.bind emit_tree (fun _ => ?_)
      refine Triple.andThen fetchPage_tree (fun p' hp' => ?_)
      refine Triple.post ih (fun leaf s h => ?_)
      obtain ⟨⟨page', hpage', hfind⟩, hs⟩ := h
      refine ⟨⟨page', hpage', ?_⟩, hs⟩
      rw [BPlusTree.findLeafFrom, hpage]
      show (if leftMost then page.valueAt 0 else page.lookup key).bind _ = some page'
      rw [hnext, ← hp']
      exact hfind

/-- **The search** finds the leaf that the search without a buffer pool
finds. -/
theorem findLeafPage_tree : Triple (fun s : PooledTree K V => s.tree = t)
    (findLeafPage key leftMost) (fun found s => (match found with
      | none => t.isEmpty
      | some leaf => ∃ page, t.pages leaf.page = some (.leaf page) ∧
          t.findLeafPage key leftMost = some page) ∧ s.tree = t) := by
  refine Triple.bind (Triple.read (Q := fun a s => a.tree = t ∧ s.tree = t) (fun _ h => ⟨h, h⟩))
    (fun a => Triple.assume (fun ha => ?_))
  rw [ha]
  refine Triple.ite (fun hempty => ?_) (fun _ => ?_)
  · exact Triple.ret (fun _ h => ⟨hempty, h⟩)
  · refine Triple.andThen fetchPage_tree (fun p hp => ?_)
    refine Triple.andThen findLeafLoop_tree (fun leaf hleaf => ?_)
    refine Triple.ret (fun _ h => ⟨?_, h⟩)
    rw [hp] at hleaf
    exact hleaf

end Tree

end PooledTree

end MiniSql
