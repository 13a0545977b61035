import MiniSql.BPlusTree
import MiniSql.KeyTree

/-!
# Trees in the page store

`Stored` says that the pages of a store hold a tree: every node is the page
with its id, every page has the parent that lists it, and the leaves are
chained from left to right, the last one to whatever comes after the tree.

A step of the algorithm works on a part of the tree. `Changes` says what it
does to the store: which pages it replaces by which, the new ones fresh, and
nothing else. `Replaces` adds that the children which a page had are replaced
by other ones, and `Replaces.inNode` puts them into their page.
-/

namespace MiniSql

/-- The sizes of the pages: `GetMinSize`, of pages that are not the root, and
`GetMaxSize`. -/
def TreeConfig.bounds (cfg : TreeConfig) : KeyTree.Bounds where
  min
    | 0 => cfg.leafMaxSize / 2
    | _ + 1 => (cfg.internalMaxSize - 1) / 2 + 1
  max
    | 0 => cfg.leafMaxSize
    | _ + 1 => cfg.internalMaxSize

/-- A tree whose nodes are pages. -/
abbrev PageTree (K V : Type) (n : ℕ) := KeyTree PageId K V n

namespace BPlusTree

variable {K V : Type} {n : ℕ} {cfg : TreeConfig} {s s' s'' : BPlusTree K V}

/-- The first leaf of some trees, or what comes after them. -/
def firstOf : List (K × PageTree K V n) → PageId → PageId
  | [], next => next
  | c :: _, _ => c.2.first

/-- The page of the root of a tree. -/
def rootPage (cfg : TreeConfig) : {n : ℕ} → PageTree K V n → PageId → PageId → BPlusTreePage K V
  | 0, t, parent, next => .leaf ⟨t.id, parent, next, cfg.leafMaxSize, t.entries⟩
  | _ + 1, t, parent, _ =>
    .internal ⟨t.id, parent, cfg.internalMaxSize,
      (KeyTree.Node.children t).map (fun c => (c.1, c.2.id))⟩

/-- Trees that are stored one after the other. -/
def StoredIn (S : PageTree K V n → PageId → Prop) : List (K × PageTree K V n) → PageId → Prop
  | [], _ => True
  | c :: cs, next => S c.2 (firstOf cs next) ∧ StoredIn S cs next

/-- The pages hold the tree, its root having the given parent and its last leaf
the given next page. -/
def Stored (cfg : TreeConfig) (pages : PageId → Option (BPlusTreePage K V)) :
    {n : ℕ} → PageTree K V n → PageId → PageId → Prop
  | 0, t, parent, next => pages t.id = some (rootPage cfg t parent next)
  | _ + 1, t, parent, next => pages t.id = some (rootPage cfg t parent next) ∧
      StoredIn (fun c next => Stored cfg pages c t.id next) (KeyTree.Node.children t) next

/-- The children of a page, stored one after the other. -/
abbrev StoredUnder (cfg : TreeConfig) (pages : PageId → Option (BPlusTreePage K V)) (id : PageId)
    (cs : List (K × PageTree K V n)) (next : PageId) : Prop :=
  StoredIn (fun c next => Stored cfg pages c id next) cs next

variable {pages pages' : PageId → Option (BPlusTreePage K V)} {t : PageTree K V n}
  {id parent parent' next : PageId} {cs A B C D : List (K × PageTree K V n)}

theorem stored_node : Stored cfg pages (KeyTree.node id cs) parent next ↔
    pages id = some (rootPage cfg (KeyTree.node id cs) parent next) ∧
      StoredUnder cfg pages id cs next := Iff.rfl

theorem Stored.root : {n : ℕ} → {t : PageTree K V n} → Stored cfg pages t parent next →
    pages t.id = some (rootPage cfg t parent next)
  | 0, _, h => h
  | _ + 1, _, h => h.1

theorem pageId_rootPage : {n : ℕ} → (t : PageTree K V n) →
    (rootPage cfg t parent next).pageId = t.id
  | 0, _ => rfl
  | _ + 1, _ => rfl

theorem parentPageId_rootPage : {n : ℕ} → (t : PageTree K V n) →
    (rootPage cfg t parent next).parentPageId = parent
  | 0, _ => rfl
  | _ + 1, _ => rfl

theorem setParentPageId_rootPage : {n : ℕ} → (t : PageTree K V n) →
    (rootPage cfg t parent next).setParentPageId parent' = rootPage cfg t parent' next
  | 0, _ => rfl
  | _ + 1, _ => rfl

theorem size_rootPage : {n : ℕ} → (t : PageTree K V n) →
    (rootPage cfg t parent next).size = t.size
  | 0, _ => rfl
  | _ + 1, _ => List.length_map _

theorem maxSize_rootPage : {n : ℕ} → (t : PageTree K V n) →
    (rootPage cfg t parent next).maxSize = cfg.bounds.max n
  | 0, _ => rfl
  | _ + 1, _ => rfl

theorem firstOf_append : firstOf (A ++ B) next = firstOf A (firstOf B next) := by
  cases A <;> rfl

theorem storedIn_append {S : PageTree K V n → PageId → Prop} :
    StoredIn S (A ++ B) next ↔ StoredIn S A (firstOf B next) ∧ StoredIn S B next := by
  induction A with
  | nil => exact (and_iff_right trivial).symm
  | cons a A ih =>
    show S a.2 (firstOf (A ++ B) next) ∧ StoredIn S (A ++ B) next ↔ _
    rw [ih, firstOf_append, ← and_assoc]
    rfl

theorem StoredIn.imp {S S' : PageTree K V n → PageId → Prop}
    (himp : ∀ c ∈ cs, ∀ next, S c.2 next → S' c.2 next) (h : StoredIn S cs next) :
    StoredIn S' cs next := by
  induction cs with
  | nil => trivial
  | cons c cs ih =>
    exact ⟨himp c List.mem_cons_self _ h.1,
      ih (fun d hd => himp d (List.mem_cons_of_mem _ hd)) h.2⟩

/-- Each of the trees is stored. -/
theorem StoredIn.of_mem {S : PageTree K V n → PageId → Prop} (h : StoredIn S cs next)
    {c : K × PageTree K V n} (hc : c ∈ cs) : ∃ next, S c.2 next := by
  induction cs with
  | nil => cases hc
  | cons d cs ih =>
    rcases List.mem_cons.mp hc with rfl | hc
    · exact ⟨_, h.1⟩
    · exact ih h.2 hc

/-- **A tree depends on its own pages only.** -/
theorem Stored.congr : {n : ℕ} → {t : PageTree K V n} → {parent next : PageId} →
    Stored cfg pages t parent next → (∀ p ∈ t.ids, pages' p = pages p) →
    Stored cfg pages' t parent next
  | 0, t, _, _, h, hsame => (hsame _ t.id_mem_ids).trans h
  | n + 1, t, _, _, h, hsame => by
    refine ⟨(hsame _ t.id_mem_ids).trans h.1, h.2.imp (fun c hc next hstored => ?_)⟩
    refine hstored.congr (fun p hp => hsame p ?_)
    rw [KeyTree.ids_eq]
    exact List.mem_cons_of_mem _ (List.mem_flatMap.mpr ⟨c, hc, hp⟩)

theorem StoredUnder.congr (h : StoredUnder cfg pages id cs next)
    (hsame : ∀ p ∈ KeyTree.idsIn cs, pages' p = pages p) : StoredUnder cfg pages' id cs next :=
  StoredIn.imp (fun c hc _ hstored =>
    hstored.congr (fun p hp => hsame p (List.mem_flatMap.mpr ⟨c, hc, hp⟩))) h

/-- Another page in the place of the root, with another parent. -/
theorem Stored.reparent (h : Stored cfg pages t parent next)
    (hroot : pages' t.id = some (rootPage cfg t parent' next))
    (hsame : ∀ p ∈ t.below, pages' p = pages p) : Stored cfg pages' t parent' next := by
  cases n with
  | zero => exact hroot
  | succ n => exact ⟨hroot, StoredUnder.congr h.2 hsame⟩

/-! ## Changes -/

/-- What a step does to the store: the old pages are replaced by the new ones,
and the others stay. A new page that is not an old one has a fresh id. -/
structure Changes (s s' : BPlusTree K V) (old new : List PageId) : Prop where
  root : s'.rootPageId = s.rootPageId
  same : ∀ p ∈ s.allocated, p ∉ old → s'.pages p = s.pages p
  none : ∀ p, p ∉ new → p ∈ old ∨ s.pages p = none → s'.pages p = none
  fresh : ∀ p ∈ new, p ∈ old ∨ (p ∉ s.allocated ∧ 0 ≤ p)
  allocated : ∀ p, p ∈ s'.allocated ↔ (p ∈ s.allocated ∧ p ∉ old) ∨ p ∈ new

variable {old mid new : List PageId}

theorem Changes.refl (hold : ∀ p ∈ old, p ∈ s.allocated) : Changes s s old old where
  root := rfl
  same _ _ _ := rfl
  none p hp h := h.resolve_left hp
  fresh _ hp := .inl hp
  allocated p := by
    by_cases hp : p ∈ old
    · exact iff_of_true (hold p hp) (.inr hp)
    · exact ⟨fun h => .inl ⟨h, hp⟩, fun h => h.elim And.left (fun h => absurd h hp)⟩

theorem Changes.trans (h : Changes s s' old mid) (h' : Changes s' s'' mid new) :
    Changes s s'' old new where
  root := h'.root.trans h.root
  same p hp hpo := by
    have hmid : p ∉ mid := fun hm => (h.fresh p hm).elim hpo (fun hf => hf.1 hp)
    rw [h'.same p ((h.allocated p).mpr (.inl ⟨hp, hpo⟩)) hmid, h.same p hp hpo]
  none p hp hor := by
    by_cases hm : p ∈ mid
    · exact h'.none p hp (.inl hm)
    · exact h'.none p hp (.inr (h.none p hm hor))
  fresh p hp := by
    rcases h'.fresh p hp with hm | ⟨hna, hpos⟩
    · exact h.fresh p hm
    · by_cases hpo : p ∈ old
      · exact .inl hpo
      · exact .inr ⟨fun hpa => hna ((h.allocated p).mpr (.inl ⟨hpa, hpo⟩)), hpos⟩
  allocated p := by
    rw [h'.allocated, h.allocated]
    constructor
    · rintro (⟨(hl | hm), hnm⟩ | hn)
      · exact .inl hl
      · exact absurd hm hnm
      · exact .inr hn
    · rintro (hl | hn)
      · have hmid : p ∉ mid := fun hm => (h.fresh p hm).elim hl.2 (fun hf => hf.1 hl.1)
        exact .inl ⟨.inl hl, hmid⟩
      · exact .inr hn

/-- Pages that a step does not touch can be counted as old and new. -/
theorem Changes.frame (h : Changes s s' old new) (rest : List PageId) {old' new' : List PageId}
    (hold : ∀ p, p ∈ old' ↔ p ∈ rest ∨ p ∈ old) (hnew : ∀ p, p ∈ new' ↔ p ∈ rest ∨ p ∈ new)
    (hrest : ∀ p ∈ rest, p ∈ s.allocated ∧ p ∉ old) : Changes s s' old' new' where
  root := h.root
  same p hp hpo := h.same p hp (fun hc => hpo ((hold p).mpr (.inr hc)))
  none p hp hor := by
    have hpr : p ∉ rest := fun hc => hp ((hnew p).mpr (.inl hc))
    have hpn : p ∉ new := fun hc => hp ((hnew p).mpr (.inr hc))
    exact h.none p hpn (hor.imp_left (fun hc => ((hold p).mp hc).resolve_left hpr))
  fresh p hp := by
    rcases (hnew p).mp hp with hr | hn
    · exact .inl ((hold p).mpr (.inl hr))
    · exact (h.fresh p hn).imp_left (fun ho => (hold p).mpr (.inr ho))
  allocated p := by
    rw [h.allocated, hold, hnew]
    by_cases hr : p ∈ rest
    · exact iff_of_true (.inl (hrest p hr)) (.inr (.inl hr))
    · simp only [hr, false_or]

/-- The new pages are in use. -/
theorem Changes.mem_allocated (h : Changes s s' old new) {p : PageId} (hp : p ∈ new) :
    p ∈ s'.allocated := (h.allocated p).mpr (.inr hp)

/-- Untouched pages stay in use. -/
theorem Changes.mem_allocated_of_notMem (h : Changes s s' old new) {p : PageId}
    (hp : p ∈ s.allocated) (hpo : p ∉ old) : p ∈ s'.allocated :=
  (h.allocated p).mpr (.inl ⟨hp, hpo⟩)

/-- A page in use that is not an old one is not a new one. -/
theorem Changes.notMem_new (h : Changes s s' old new) {p : PageId} (hp : p ∈ s.allocated)
    (hpo : p ∉ old) : p ∉ new :=
  fun hn => (h.fresh p hn).elim hpo (fun hf => hf.1 hp)

/-- Writing a page that is there. -/
theorem changes_write {p : BPlusTreePage K V} (hp : p.pageId ∈ s.allocated) :
    Changes s (s.write p) [p.pageId] [p.pageId] where
  root := rfl
  same q _ hq := Function.update_of_ne (fun e => hq (List.mem_singleton.mpr e)) ..
  none q hq hor := by
    rw [List.mem_singleton] at hq hor
    exact (Function.update_of_ne hq ..).trans (hor.resolve_left hq)
  fresh _ hq := .inl hq
  allocated q := by
    by_cases hq : q = p.pageId
    · exact iff_of_true (hq ▸ hp) (.inr (List.mem_singleton.mpr hq))
    · simp only [List.mem_singleton, hq, not_false_eq_true, and_true, or_false]
      exact Iff.rfl

/-! ## Replacing children -/

/-- The children of a page are replaced by others. -/
structure Replaces (cfg : TreeConfig) (s s' : BPlusTree K V) (id next : PageId)
    (C D : List (K × PageTree K V n)) : Prop where
  stored : StoredUnder cfg s'.pages id D next
  nodup : (KeyTree.idsIn D).Nodup
  first : ∀ next, firstOf D next = firstOf C next
  changes : Changes s s' (KeyTree.idsIn C) (KeyTree.idsIn D)

/-- Some ids among others are replaced by ids that are fresh. -/
theorem nodup_replace {X Y Y' Z : List PageId} (h : (X ++ (Y ++ Z)).Nodup) (hY : Y'.Nodup)
    (hfresh : ∀ p ∈ Y', p ∉ Y → p ∉ X ∧ p ∉ Z) : (X ++ (Y' ++ Z)).Nodup := by
  simp only [List.nodup_append, List.mem_append] at h ⊢
  obtain ⟨hX, ⟨-, hZ, hYZ⟩, hXYZ⟩ := h
  refine ⟨hX, ⟨hY, hZ, ?_⟩, ?_⟩
  · rintro p hp q hq rfl
    by_cases hpY : p ∈ Y
    · exact hYZ p hpY p hq rfl
    · exact (hfresh p hp hpY).2 hq
  · rintro p hp q (hq | hq) rfl
    · by_cases hpY : p ∈ Y
      · exact hXYZ p hp p (.inl hpY) rfl
      · exact (hfresh p hq hpY).1 hp
    · exact hXYZ p hp p (.inr hq) rfl

/-- **The change inside the page**: the other children stay where they are. -/
theorem Replaces.inNode (h : Replaces cfg s s' id (firstOf B next) C D)
    (hstored : StoredUnder cfg s.pages id (A ++ (C ++ B)) next)
    (hnodup : (KeyTree.idsIn (A ++ (C ++ B))).Nodup)
    (halloc : ∀ p ∈ KeyTree.idsIn (A ++ (C ++ B)), p ∈ s.allocated) :
    Replaces cfg s s' id next (A ++ (C ++ B)) (A ++ (D ++ B)) := by
  obtain ⟨hA, hCB⟩ := storedIn_append.mp hstored
  obtain ⟨-, hB⟩ := storedIn_append.mp hCB
  simp only [KeyTree.idsIn_append] at hnodup halloc
  have hdisj : ∀ p, p ∈ KeyTree.idsIn A ∨ p ∈ KeyTree.idsIn B →
      p ∈ s.allocated ∧ p ∉ KeyTree.idsIn C := by
    simp only [List.nodup_append, List.mem_append] at hnodup halloc
    rintro p (hp | hp)
    · exact ⟨halloc p (.inl hp), fun hc => hnodup.2.2 p hp p (.inl hc) rfl⟩
    · exact ⟨halloc p (.inr (.inr hp)), fun hc => hnodup.2.1.2.2 p hc p hp rfl⟩
  have hfirst : ∀ next, firstOf (D ++ B) next = firstOf (C ++ B) next := fun next => by
    rw [firstOf_append, firstOf_append, h.first]
  refine ⟨storedIn_append.mpr ⟨?_, storedIn_append.mpr ⟨h.stored, ?_⟩⟩, ?_, fun next => ?_, ?_⟩
  · rw [hfirst]
    exact StoredUnder.congr hA (fun p hp =>
      h.changes.same p (hdisj p (.inl hp)).1 (hdisj p (.inl hp)).2)
  · exact StoredUnder.congr hB (fun p hp =>
      h.changes.same p (hdisj p (.inr hp)).1 (hdisj p (.inr hp)).2)
  · simp only [KeyTree.idsIn_append]
    refine nodup_replace hnodup h.nodup (fun p hp hpC => ?_)
    have hnew := ((h.changes.fresh p hp).resolve_left hpC).1
    exact ⟨fun hA => hnew (hdisj p (.inl hA)).1, fun hB => hnew (hdisj p (.inr hB)).1⟩
  · simp only [firstOf_append, h.first]
  · refine h.changes.frame (KeyTree.idsIn A ++ KeyTree.idsIn B) (fun p => ?_) (fun p => ?_)
      (fun p hp => hdisj p (List.mem_append.mp hp))
    · simp only [KeyTree.idsIn_append, List.mem_append]
      tauto
    · simp only [KeyTree.idsIn_append, List.mem_append]
      tauto

/-- Writing what is there changes nothing. -/
theorem write_self {p : BPlusTreePage K V} (hp : s.pages p.pageId = some p) : s.write p = s := by
  rw [write, ← hp, Function.update_eq_self]

/-- **A page with its new children** is written. -/
theorem Replaces.writeNode (h : Replaces cfg s s' id next C D) (hid : id ∈ s.allocated)
    (hnot : id ∉ KeyTree.idsIn C) (parent : PageId) :
    let s'' := s'.write (rootPage cfg (KeyTree.node id D) parent next)
    Stored cfg s''.pages (KeyTree.node id D) parent next ∧ (KeyTree.node id D).ids.Nodup ∧
      Changes s s'' (KeyTree.node id C).ids (KeyTree.node id D).ids := by
  have hnot' : id ∉ KeyTree.idsIn D := h.changes.notMem_new hid hnot
  refine ⟨⟨Function.update_self .., StoredUnder.congr h.stored (fun p hp => ?_)⟩,
    List.nodup_cons.mpr ⟨hnot', h.nodup⟩, ?_⟩
  · exact Function.update_of_ne (fun e : p = id => hnot' (e ▸ hp)) ..
  · have hchanges : Changes s s' (KeyTree.node id C).ids (KeyTree.node id D).ids := by
      refine h.changes.frame [id] (fun p => ?_) (fun p => ?_) (fun p hp => ?_)
      · exact List.mem_cons.trans (or_congr_left List.mem_singleton.symm)
      · exact List.mem_cons.trans (or_congr_left List.mem_singleton.symm)
      · rw [List.mem_singleton.mp hp]
        exact ⟨hid, hnot⟩
    have hid' : id ∈ s'.allocated := h.changes.mem_allocated_of_notMem hid hnot
    refine hchanges.trans ((changes_write (p := rootPage cfg (KeyTree.node id D) parent next)
      hid').frame (KeyTree.idsIn D) (fun p => ?_) (fun p => ?_) (fun p hp => ?_))
    · exact List.mem_cons.trans (or_comm.trans (or_congr_right List.mem_singleton.symm))
    · exact List.mem_cons.trans (or_comm.trans (or_congr_right List.mem_singleton.symm))
    · have hne : p ≠ id := fun e => hnot' (e ▸ hp)
      exact ⟨h.changes.mem_allocated hp, fun e => hne (List.mem_singleton.mp e)⟩

/-- `SetParentPageId` of the root of a stored tree. -/
theorem Stored.setParent (h : Stored cfg s.pages t parent next) (parent' : PageId) :
    s.setParent parent' t.id = some (s.write (rootPage cfg t parent' next)) := by
  rw [BPlusTree.setParent, h.root, Option.map_some, setParentPageId_rootPage]

/-- **Adopted children** are stored under their new parent. -/
theorem StoredUnder.adopt (h : StoredUnder cfg s.pages id cs next)
    (hnodup : (KeyTree.idsIn cs).Nodup) (id' : PageId) :
    ∃ s', s.adopt id' (cs.map (fun c => c.2.id)) = some s' ∧
      StoredUnder cfg s'.pages id' cs next ∧ (∀ p ∉ KeyTree.idsIn cs, s'.pages p = s.pages p) ∧
      s'.allocated = s.allocated ∧ s'.rootPageId = s.rootPageId := by
  induction cs generalizing s with
  | nil => exact ⟨s, rfl, trivial, fun _ _ => rfl, rfl, rfl⟩
  | cons c cs ih =>
    obtain ⟨hc, hcs⟩ := h
    rw [KeyTree.idsIn_cons, List.nodup_append] at hnodup
    obtain ⟨hcn, hcsn, hdisj⟩ := hnodup
    obtain ⟨s₁, hs₁⟩ : ∃ s₁, s₁ = s.write (rootPage cfg c.2 id' (firstOf cs next)) := ⟨_, rfl⟩
    have hsame : ∀ p, p ≠ c.2.id → s₁.pages p = s.pages p := by
      intro p hp
      rw [hs₁]
      refine Function.update_of_ne ?_ ..
      rwa [pageId_rootPage]
    have hroot : s₁.pages c.2.id = some (rootPage cfg c.2 id' (firstOf cs next)) := by
      rw [hs₁]
      show Function.update _ (rootPage cfg c.2 id' _).pageId _ _ = _
      rw [pageId_rootPage, Function.update_self]
    have hstored : Stored cfg s₁.pages c.2 id' (firstOf cs next) := by
      refine hc.reparent hroot (fun p hp => hsame p (fun e => ?_))
      rw [KeyTree.ids_eq] at hcn
      exact (List.nodup_cons.mp hcn).1 (e ▸ hp)
    have hne : ∀ p ∈ KeyTree.idsIn cs, p ≠ c.2.id := fun p hp e =>
      hdisj _ c.2.id_mem_ids _ (e ▸ hp) rfl
    obtain ⟨s', hadopt, hs', hframe, halloc, hrt⟩ :=
      ih (StoredUnder.congr hcs (fun p hp => hsame p (hne p hp))) hcsn
    refine ⟨s', ?_, ⟨hstored.congr (fun p hp => hframe p (fun hc => hdisj p hp p hc rfl)), hs'⟩,
      fun p hp => ?_, ?_, ?_⟩
    · rw [List.map_cons]
      show (s.setParent id' c.2.id).bind _ = _
      rw [hc.setParent, ← hs₁]
      exact hadopt
    · rw [KeyTree.idsIn_cons, List.mem_append, not_or] at hp
      rw [hframe p hp.2, hsame p (fun e => hp.1 (e ▸ c.2.id_mem_ids))]
    · rw [halloc, hs₁]
      rfl
    · rw [hrt, hs₁]
      rfl

/-! ## One tree in the pages -/

section Unique

/-- **The height of a stored tree** that branches is found in its pages. -/
theorem Stored.height_eq : {n n' : ℕ} → {t : PageTree K V n} → {t' : PageTree K V n'} →
    {parent parent' next next' : PageId} → Stored cfg pages t parent next →
    Stored cfg pages t' parent' next' → KeyTree.Branches t → t.id = t'.id → n = n'
  | 0, 0, _, _, _, _, _, _, _, _, _, _ => rfl
  | 0, n' + 1, t, t', _, _, _, _, h, h', _, hid => by
    have hpage := h'.root
    rw [← hid, h.root] at hpage
    cases hpage
  | n + 1, 0, t, t', _, _, _, _, h, h', _, hid => by
    have hpage := h'.root
    rw [← hid, h.root] at hpage
    cases hpage
  | n + 1, n' + 1, t, t', _, _, _, _, h, h', hb, hid => by
    obtain ⟨i, cs, rfl⟩ := KeyTree.exists_node t
    obtain ⟨j, ds, rfl⟩ := KeyTree.exists_node t'
    obtain rfl : i = j := hid
    have hpage := (stored_node.mp h).1.symm.trans (stored_node.mp h').1
    have harray : cs.map (fun c => (c.1, c.2.id)) = ds.map (fun c => (c.1, c.2.id)) :=
      congrArg InternalPage.array (BPlusTreePage.internal.inj (Option.some.inj hpage))
    obtain ⟨c, cs, rfl⟩ := List.exists_cons_of_ne_nil hb.1
    cases ds with
    | nil => cases harray
    | cons d ds =>
      have hhead : (c.1, c.2.id) = (d.1, d.2.id) := (List.cons.inj harray).1
      exact congrArg (· + 1) (Stored.height_eq h.2.1 h'.2.1 (hb.2 c List.mem_cons_self)
        (congrArg Prod.snd hhead))

/-- **One tree only** of a height is stored at a page. -/
theorem Stored.unique : {n : ℕ} → {t t' : PageTree K V n} → {parent parent' next next' : PageId} →
    Stored cfg pages t parent next → Stored cfg pages t' parent' next' → t.id = t'.id → t = t'
  | 0, t, t', _, _, _, _, h, h', hid => by
    have hpage := h'.root
    rw [← hid, h.root] at hpage
    obtain ⟨i, es⟩ := t
    obtain ⟨j, fs⟩ := t'
    cases hpage
    rfl
  | n + 1, t, t', _, _, _, _, h, h', hid => by
    obtain ⟨i, cs, rfl⟩ := KeyTree.exists_node t
    obtain ⟨j, ds, rfl⟩ := KeyTree.exists_node t'
    obtain rfl : i = j := hid
    have hpage := (stored_node.mp h).1.symm.trans (stored_node.mp h').1
    have harray : cs.map (fun c => (c.1, c.2.id)) = ds.map (fun c => (c.1, c.2.id)) :=
      congrArg InternalPage.array (BPlusTreePage.internal.inj (Option.some.inj hpage))
    refine congrArg (KeyTree.node i) ?_
    have hcs := (stored_node.mp h).2
    have hds := (stored_node.mp h').2
    clear h h' hpage
    induction cs generalizing ds with
    | nil => exact (List.map_eq_nil_iff.mp harray.symm).symm
    | cons c cs ih =>
      cases ds with
      | nil => cases harray
      | cons d ds =>
        obtain ⟨hhead, htail⟩ := List.cons.inj harray
        obtain ⟨hkey, hid⟩ : c.1 = d.1 ∧ c.2.id = d.2.id := Prod.ext_iff.mp hhead
        have hchild : c.2 = d.2 := Stored.unique hcs.1 hds.1 hid
        rw [ih ds htail hcs.2 hds.2, Prod.ext hkey hchild]

end Unique

end BPlusTree

end MiniSql
