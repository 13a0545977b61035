import MiniSql.BPlusTreeFind
import MiniSql.RangeScan

/-!
# Insertion keeps the search tree

`IsSearchTree` is the invariant that the comments of the pages give: keys in
order and between the bounds that the parents give them, all leaves at the same
depth and chained from left to right, no page above its maximum, every inner
page with two children, and the right parents.

An insertion changes the leaf that the search ends at and goes up from there as
long as pages have to be split. `Grown` says what stands in the place of a
subtree when the insertion is about to leave it: the subtree with one more
entry, or two trees whose parent has to take the second one in. It holds of the
leaf, and of a page if it holds of the child in which the entry has been put
(`exists_grown`); at the root it gives the new tree.
-/

namespace MiniSql

variable {K V : Type}

/-- What a page may hold: not more than its maximum, and an inner page two
children at least. -/
def TreeConfig.capacity (cfg : TreeConfig) : KeyTree.Bounds where
  min
    | 0 => 0
    | _ + 1 => 2
  max
    | 0 => cfg.leafMaxSize
    | _ + 1 => cfg.internalMaxSize

/-- **`Insert`** puts the entry between the smaller keys and the others. -/
theorem LeafPage.insert_eq [LinearOrder K] {p : LeafPage K V} (hsize : p.size ≤ p.maxSize)
    (h : p.array.Pairwise (fun e f => e.1 < f.1)) {key : K} (habsent : p.lookup key = none)
    (value : V) : ∃ A B, p.array = A ++ B ∧
      p.insert key value = some { p with array := A ++ (key, value) :: B } ∧
      (∀ e ∈ A, e.1 < key) ∧ ∀ e ∈ B, key < e.1 := by
  obtain ⟨A, B, harray, hA, hlt, hle⟩ := p.keyIndex_spec h key
  refine ⟨A, B, harray, ?_, hlt, fun e he => lt_of_le_of_ne (hle e he) (fun hkey => ?_)⟩
  · rw [insert, if_pos (Nat.lt_succ_of_le hsize)]
    show some { p with array := p.array.take (p.keyIndex key) ++
      (key, value) :: p.array.drop (p.keyIndex key) } = _
    rw [← hA, harray, List.take_left, List.drop_left]
  · have hfound : p.lookup key = some e.2 := by
      rw [lookup_eq_some h, harray, hkey]
      exact List.mem_append_right A he
    rw [habsent] at hfound
    cases hfound

namespace BPlusTree

open KeyTree

variable {n : ℕ} {cfg : TreeConfig} {s s' : BPlusTree K V} {t : PageTree K V n}
  {parent next : PageId} {cs D : List (K × PageTree K V n)}

/-! ## Pages that come, and pages that are written -/

/-- Pages in use are written. -/
theorem changes_within {l : List PageId} (hl : ∀ p ∈ l, p ∈ s.allocated)
    (hsame : ∀ p ∉ l, s'.pages p = s.pages p) (halloc : s'.allocated = s.allocated)
    (hroot : s'.rootPageId = s.rootPageId) : Changes s s' l l where
  root := hroot
  same _ _ hp := hsame _ hp
  none _ hp hor := (hsame _ hp).trans (hor.resolve_left hp)
  fresh _ hp := .inl hp
  allocated p := by
    rw [halloc]
    by_cases hp : p ∈ l
    · exact iff_of_true (hl p hp) (.inr hp)
    · exact ⟨fun h => .inl ⟨h, hp⟩, fun h => h.elim And.left (fun h => absurd h hp)⟩

/-- One of them is written. -/
theorem changes_write_mem {p : BPlusTreePage K V} {l : List PageId} (hp : p.pageId ∈ l)
    (hl : ∀ q ∈ l, q ∈ s.allocated) : Changes s (s.write p) l l :=
  changes_within hl (fun q hq => Function.update_of_ne (fun e : q = p.pageId => hq (e ▸ hp)) ..)
    rfl rfl

/-- `NewPage`. -/
theorem changes_newPage (cfg : TreeConfig) {l : List PageId} (hl : ∀ p ∈ l, p ∈ s.allocated) :
    Changes s (s.newPage cfg).2 l (cfg.allocatePage s.allocated :: l) where
  root := rfl
  same _ _ _ := rfl
  none _ hp hor := hor.resolve_left (fun hc => hp (List.mem_cons_of_mem _ hc))
  fresh p hp := by
    rcases List.mem_cons.mp hp with rfl | hp
    · exact .inr ⟨cfg.fresh _, cfg.valid _⟩
    · exact .inl hp
  allocated p := by
    show p ∈ cfg.allocatePage s.allocated :: s.allocated ↔ _
    rw [List.mem_cons, List.mem_cons]
    by_cases hp : p ∈ l
    · exact iff_of_true (.inr (hl p hp)) (.inr (.inr hp))
    · simp only [hp, not_false_eq_true, and_true, or_false]
      exact or_comm

/-- The changed pages may be listed in another order. -/
theorem Changes.congr {old old' new new' : List PageId} (h : Changes s s' old new)
    (hold : ∀ p, p ∈ old' ↔ p ∈ old) (hnew : ∀ p, p ∈ new' ↔ p ∈ new) : Changes s s' old' new' :=
  h.frame [] (fun p => (hold p).trans (or_iff_right List.not_mem_nil).symm)
    (fun p => (hnew p).trans (or_iff_right List.not_mem_nil).symm)
    (fun _ hp => absurd hp List.not_mem_nil)

/-! ## The trees in the place of a tree -/

variable [LinearOrder K] {lo : WithBot K} {hi : WithTop K} {k₀ key : K} {value : V} {e : K × V}

/-- **A tree with one more entry**, or two trees, stand in the place of a
tree. -/
structure Grown (cfg : TreeConfig) (s s' : BPlusTree K V) (parent next : PageId) (k₀ : K)
    (t : PageTree K V n) (lo : WithBot K) (hi : WithTop K) (e : K × V)
    (D : List (K × PageTree K V n)) : Prop where
  replaces : Replaces cfg s s' parent next [(k₀, t)] D
  separated : SeparatedIn Separated D lo hi
  above : ∀ d ∈ D.tail, lo < (d.1 : WithBot K)
  sized : ∀ d ∈ D, Sized cfg.capacity d.2
  entries : (D.flatMap (fun d => d.2.entries)).Perm (e :: t.entries)

/-- **What the insertion still has to do** when one tree or two stand in the
place of a tree: nothing, or the second one has to go into the parent. -/
def Pending [Inhabited K] (cfg : TreeConfig) (rounds : ℕ) (s : BPlusTree K V) (k₀ : K)
    (t : PageTree K V n) (D : List (K × PageTree K V n)) (run : Option (BPlusTree K V)) : Prop :=
  (∃ t', D = [(k₀, t')] ∧ t'.id = t.id ∧ run = some s) ∨
    ∃ l k r, D = [(k₀, l), (k, r)] ∧ l.id = t.id ∧
      run = insertIntoParent cfg rounds s l.id k r.id

/-- What `InsertIntoLeaf` does with the leaf that has been found. -/
def insertAt [Inhabited K] (s : BPlusTree K V) (cfg : TreeConfig) (rounds : ℕ) (leaf : LeafPage K V)
    (key : K) (value : V) : Option (BPlusTree K V) := do
  let leaf ← leaf.insert key value
  let s := s.write (.leaf leaf)
  if leaf.maxSize < leaf.size then
    let (s', new) ← s.splitLeaf cfg leaf
    let first ← new.keyAt 0
    insertIntoParent cfg rounds s' leaf.pageId first new.pageId
  else some s

theorem insertIntoLeaf_eq [Inhabited K] (s : BPlusTree K V) (cfg : TreeConfig) (key : K)
    (value : V) : s.insertIntoLeaf cfg key value = (s.findLeafPage key false).bind (fun leaf =>
      if (leaf.lookup key).isSome then some (s, false)
      else (s.insertAt cfg s.allocated.length leaf key value).map (·, true)) := by
  unfold insertIntoLeaf insertAt
  refine congrArg (Option.bind (s.findLeafPage key false)) (funext fun leaf => ?_)
  split
  · rfl
  · cases leaf.insert key value with
    | none => rfl
    | some leaf =>
      simp only [Option.bind_eq_bind, Option.bind_some]
      split
      · rw [Option.map_bind]
        refine congrArg (Option.bind _) (funext fun r => ?_)
        rw [Function.comp_apply, Option.map_bind]
        refine congrArg (Option.bind _) (funext fun first => ?_)
        exact (Option.map_eq_bind ..).symm
      · rfl

theorem insertAt_eq [Inhabited K] {leaf leaf' : LeafPage K V} {rounds : ℕ}
    (h : leaf.insert key value = some leaf') : s.insertAt cfg rounds leaf key value =
      if leaf'.maxSize < leaf'.size then
        ((s.write (.leaf leaf')).splitLeaf cfg leaf').bind (fun r =>
          (r.2.keyAt 0).bind (fun first =>
            insertIntoParent cfg rounds r.1 leaf'.pageId first r.2.pageId))
      else some (s.write (.leaf leaf')) := by
  unfold insertAt
  rw [h]
  rfl

/-- A list is cut in the middle. -/
theorem exists_halves {α : Type} {l : List α} (h : l ≠ []) : ∃ P q Q, l = P ++ q :: Q ∧
    P.length = l.length / 2 ∧ (q :: Q).length = l.length - l.length / 2 := by
  have hlt : l.length / 2 < l.length :=
    Nat.div_lt_self (List.length_pos_of_ne_nil h) Nat.one_lt_two
  refine ⟨l.take (l.length / 2), l[l.length / 2], l.drop (l.length / 2 + 1), ?_, ?_, ?_⟩
  · rw [← List.drop_eq_getElem_cons hlt, List.take_append_drop]
  · exact List.length_take_of_le hlt.le
  · rw [← List.drop_eq_getElem_cons hlt, List.length_drop]

section Leaf

omit [LinearOrder K] in
/-- `Split` of a leaf that is too large by one. -/
theorem splitLeaf_eq {p : LeafPage K V} (hsize : p.size = p.maxSize + 1) :
    s.splitLeaf cfg p =
      let id := cfg.allocatePage s.allocated
      let node := { p with array := p.array.take (p.size / 2), nextPageId := id }
      let new : LeafPage K V :=
        ⟨id, p.parentPageId, p.nextPageId, cfg.leafMaxSize, p.array.drop (p.size / 2)⟩
      some (((s.newPage cfg).2.write (.leaf node)).write (.leaf new), new) := by
  have hmove :
      p.moveHalfTo ⟨cfg.allocatePage s.allocated, p.parentPageId, 0, cfg.leafMaxSize, []⟩ = some
        ({ p with
          array := p.array.take (p.size / 2), nextPageId := cfg.allocatePage s.allocated },
        ⟨cfg.allocatePage s.allocated, p.parentPageId, p.nextPageId, cfg.leafMaxSize,
          p.array.drop (p.size / 2)⟩) := by
    rw [LeafPage.moveHalfTo, if_pos hsize, hsize]
  unfold splitLeaf
  show Option.bind (p.moveHalfTo ⟨cfg.allocatePage s.allocated, p.parentPageId, 0, _, []⟩) _ = _
  rw [hmove]
  rfl

omit [LinearOrder K] in
/-- **`Split` of a leaf**: two leaves stand in its place. -/
theorem exists_splitLeaf (k₀ : K) {id : PageId} {L R : List (K × V)} {f : K × V}
    (halloc : id ∈ s.allocated) (hhalf : L.length = (L ++ f :: R).length / 2)
    (hsize : (L ++ f :: R).length = cfg.leafMaxSize + 1) :
    ∃ s' new, s.splitLeaf cfg ⟨id, parent, next, cfg.leafMaxSize, L ++ f :: R⟩ = some (s', new) ∧
      new.keyAt 0 = some f.1 ∧
      Replaces cfg s s' parent next [(k₀, KeyTree.leaf id (L ++ f :: R))]
        [(k₀, KeyTree.leaf id L), (f.1, KeyTree.leaf new.pageId (f :: R))] := by
  obtain ⟨id', hid'⟩ : ∃ id', id' = cfg.allocatePage s.allocated := ⟨_, rfl⟩
  have hne : id ≠ id' := fun hc => cfg.fresh s.allocated (hid' ▸ hc ▸ halloc)
  obtain ⟨p, hp⟩ : ∃ p : LeafPage K V, p = ⟨id, parent, id', cfg.leafMaxSize, L⟩ := ⟨_, rfl⟩
  obtain ⟨new, hnew⟩ : ∃ p : LeafPage K V, p = ⟨id', parent, next, cfg.leafMaxSize, f :: R⟩ :=
    ⟨_, rfl⟩
  have hsplit : s.splitLeaf cfg ⟨id, parent, next, cfg.leafMaxSize, L ++ f :: R⟩ =
      some (((s.newPage cfg).2.write (.leaf p)).write (.leaf new), new) := by
    rw [splitLeaf_eq (p := ⟨id, parent, next, cfg.leafMaxSize, L ++ f :: R⟩) hsize, hp, hnew, hid']
    rw [LeafPage.size, ← hhalf, List.take_left, List.drop_left]
  have hchanges : Changes s (((s.newPage cfg).2.write (.leaf p)).write (.leaf new)) [id]
      [id, id'] := by
    have hnewPage := changes_newPage cfg
      (fun q (hq : q ∈ [id]) => List.mem_singleton.mp hq ▸ halloc)
    rw [← hid'] at hnewPage
    have hp' := changes_write_mem (p := .leaf p) (hp ▸ List.mem_cons_of_mem id' List.mem_cons_self)
      (fun q hq => hnewPage.mem_allocated hq)
    have hnew' := changes_write_mem (p := .leaf new) (hnew ▸ List.mem_cons_self)
      (fun q hq => hp'.mem_allocated hq)
    exact (hnewPage.trans (hp'.trans hnew')).congr (fun _ => Iff.rfl)
      (fun q => List.mem_pair.trans (or_comm.trans List.mem_pair.symm))
  subst hnew hp
  refine ⟨_, _, hsplit, rfl, ⟨?_, ?_, trivial⟩, ?_, fun _ => rfl, hchanges⟩
  · exact (Function.update_of_ne hne ..).trans (Function.update_self ..)
  · exact Function.update_self ..
  · show [id, id'].Nodup
    exact List.nodup_cons.mpr ⟨fun h => hne (List.mem_singleton.mp h), List.nodup_singleton id'⟩

variable [Inhabited K] {leaf : LeafPage K V} {rounds : ℕ}

/-- **The leaf**, with the entry and cut in two if it has to be. -/
theorem exists_grown_leaf {t : PageTree K V 0} (hmax : 1 ≤ cfg.leafMaxSize)
    (hstored : Stored cfg s.pages t parent next) (halloc : t.id ∈ s.allocated)
    (hsep : Separated t lo hi) (hsized : Sized cfg.capacity t) (hkey : Within lo hi key)
    (hpage : s.pages t.id = some (.leaf leaf)) (habsent : leaf.lookup key = none) :
    ∃ s' D, Grown cfg s s' parent next k₀ t lo hi (key, value) D ∧
      Pending cfg rounds s' k₀ t D (s.insertAt cfg rounds leaf key value) := by
  obtain ⟨id, es, rfl⟩ : ∃ id es, t = KeyTree.leaf id es := ⟨Leaf.id t, Leaf.entries t, rfl⟩
  have hleaf : leaf = ⟨id, parent, next, cfg.leafMaxSize, es⟩ := by
    have hroot := hpage.symm.trans hstored
    exact BPlusTreePage.leaf.inj (Option.some.inj hroot)
  subst hleaf
  obtain ⟨A, B, rfl, hinsert, hA, hB⟩ :=
    LeafPage.insert_eq (p := ⟨id, parent, next, cfg.leafMaxSize, es⟩) hsized.2 hsep.1 habsent value
  have hinsert : LeafPage.insert ⟨id, parent, next, cfg.leafMaxSize, A ++ B⟩ key value =
      some ⟨id, parent, next, cfg.leafMaxSize, A ++ (key, value) :: B⟩ := hinsert
  have hsep' := separated_insert (e := (key, value)) hsep hkey hA hB
  have hperm : (A ++ (key, value) :: B).Perm ((key, value) :: (A ++ B)) := List.perm_middle
  have hlength : (A ++ (key, value) :: B).length ≤ cfg.leafMaxSize + 1 := by
    rw [hperm.length_eq]
    exact Nat.succ_le_succ hsized.2
  obtain ⟨es, hes⟩ : ∃ es, es = A ++ (key, value) :: B := ⟨_, rfl⟩
  obtain ⟨s₁, hs₁⟩ : ∃ s₁, s₁ = s.write (.leaf ⟨id, parent, next, cfg.leafMaxSize, es⟩) :=
    ⟨_, rfl⟩
  have hwrite : Changes s s₁ [id] [id] := hs₁ ▸ changes_write halloc
  rw [← hes] at hsep' hperm hinsert hlength
  rw [insertAt_eq hinsert, ← hs₁]
  by_cases hfit : cfg.leafMaxSize < es.length
  · have hpos : 0 < es.length := Nat.zero_lt_of_lt hfit
    obtain ⟨L, f, R, rfl, hL, hR⟩ := exists_halves (List.ne_nil_of_length_pos hpos)
    have hsize : (L ++ f :: R).length = cfg.leafMaxSize + 1 :=
      Nat.le_antisymm hlength (Nat.succ_le_of_lt hfit)
    obtain ⟨s', new, hsplit, hfirst, hreplaces⟩ : ∃ s' new,
        s₁.splitLeaf cfg ⟨id, parent, next, cfg.leafMaxSize, L ++ f :: R⟩ = some (s', new) ∧
        new.keyAt 0 = some f.1 ∧ Replaces cfg s₁ s' parent next
          [(k₀, KeyTree.leaf id (L ++ f :: R))]
          [(k₀, KeyTree.leaf id L), (f.1, KeyTree.leaf new.pageId (f :: R))] :=
      exists_splitLeaf k₀ (hwrite.mem_allocated List.mem_cons_self) hL hsize
    obtain ⟨hsepL, hsepR, hf, hlof⟩ := separated_cut new.pageId hsep'
      (List.ne_nil_of_length_pos (by omega))
    refine ⟨s', [(k₀, KeyTree.leaf id L), (f.1, KeyTree.leaf new.pageId (f :: R))],
      ⟨⟨hreplaces.stored, hreplaces.nodup, fun _ => rfl, hwrite.trans hreplaces.changes⟩,
        ⟨⟨hsepL, hsepR⟩, List.pairwise_singleton _ _, fun d hd => ?_⟩, fun d hd => ?_,
        fun d hd => ?_, ?_⟩, .inr ⟨_, _, _, rfl, rfl, ?_⟩⟩
    · rw [List.mem_singleton.mp hd]
      exact hf
    · rw [List.mem_singleton.mp hd]
      exact hlof
    · rcases List.mem_pair.mp hd with rfl | rfl
      · exact ⟨Nat.zero_le _, show L.length ≤ cfg.leafMaxSize by omega⟩
      · exact ⟨Nat.zero_le _, show (f :: R).length ≤ cfg.leafMaxSize by omega⟩
    · rw [List.flatMap_cons, List.flatMap_singleton]
      exact hperm
    · refine (if_pos hfit).trans ?_
      rw [hsplit, Option.bind_some, hfirst]
      rfl
  · refine ⟨s₁, [(k₀, KeyTree.leaf id es)], ⟨⟨⟨?_, trivial⟩, List.nodup_singleton id,
      fun _ => rfl, hwrite⟩, ⟨hsep', List.Pairwise.nil, nofun⟩, nofun, fun d hd => ?_, ?_⟩,
        .inl ⟨_, rfl, rfl, if_neg hfit⟩⟩
    · rw [hs₁]
      exact Function.update_self ..
    · rw [List.mem_singleton.mp hd]
      exact ⟨Nat.zero_le _, not_lt.mp hfit⟩
    · rw [List.flatMap_singleton]
      exact hperm

end Leaf

/-! ## A page above -/

section Inner

omit [LinearOrder K]

/-- A tree is replaced by one tree. -/
theorem replaces_single {t' : PageTree K V n} (hstored : Stored cfg s'.pages t' parent next)
    (hnodup : t'.ids.Nodup) (hfirst : t'.first = t.first) (h : Changes s s' t.ids t'.ids) :
    Replaces cfg s s' parent next [(k₀, t)] [(k₀, t')] where
  stored := ⟨hstored, trivial⟩
  nodup := by
    rw [idsIn_cons, idsIn_nil, List.append_nil]
    exact hnodup
  first _ := hfirst
  changes := by
    rw [idsIn_cons, idsIn_cons, idsIn_nil, List.append_nil, List.append_nil]
    exact h

/-- `ValueIndex` of a child. -/
theorem valueIndex_child {A B : List (K × PageTree K V n)} {c : K × PageTree K V n}
    {p : InternalPage K} (harray : p.array = (A ++ c :: B).map (fun c => (c.1, c.2.id)))
    (hnodup : (idsIn (A ++ c :: B)).Nodup) : p.valueIndex c.2.id = some A.length := by
  have hA : (A.map (fun c => (c.1, c.2.id))).findIdx? (fun e => e.2 = c.2.id) = none := by
    rw [List.findIdx?_eq_none_iff]
    intro e he
    obtain ⟨a, ha, rfl⟩ := List.mem_map.mp he
    refine decide_eq_false (fun hid => ?_)
    rw [idsIn_append, List.nodup_append] at hnodup
    refine hnodup.2.2 a.2.id (List.mem_flatMap.mpr ⟨a, ha, a.2.id_mem_ids⟩) c.2.id ?_ hid
    exact List.mem_flatMap.mpr ⟨c, List.mem_cons_self, c.2.id_mem_ids⟩
  rw [InternalPage.valueIndex, harray, List.map_append, List.findIdx?_append, hA, Option.none_or,
    List.map_cons, List.findIdx?_cons]
  simp only [decide_true, if_true, Option.map_some, List.length_map, Nat.zero_add]

/-- `Split` of an inner page that is too large by one. -/
theorem splitInternal_eq {p : InternalPage K} (hsize : p.size = p.maxSize + 1) :
    s.splitInternal cfg p =
      let id := cfg.allocatePage s.allocated
      let node := { p with array := p.array.take (p.size / 2) }
      let new : InternalPage K :=
        ⟨id, p.parentPageId, cfg.internalMaxSize, p.array.drop (p.size / 2)⟩
      (((((s.newPage cfg).2.write (.internal node)).write (.internal new)).adopt id
        (new.array.map Prod.snd))).map (·, new) := by
  have hmove :
      p.moveHalfTo ⟨cfg.allocatePage s.allocated, p.parentPageId, cfg.internalMaxSize, []⟩ =
      some ({ p with array := p.array.take (p.size / 2) },
        ⟨cfg.allocatePage s.allocated, p.parentPageId, cfg.internalMaxSize,
          p.array.drop (p.size / 2)⟩) := by
    rw [InternalPage.moveHalfTo, if_pos hsize, hsize]
  unfold splitInternal
  show Option.bind (p.moveHalfTo ⟨cfg.allocatePage s.allocated, p.parentPageId, _, []⟩) _ = _
  rw [hmove]
  exact (Option.map_eq_bind ..).symm

/-- **`Split` of an inner page**: two pages stand in its place, and each has the
right parent for its children. -/
theorem exists_splitInternal (k₀ : K) {id : PageId} {P Q : List (K × PageTree K V n)}
    {q : K × PageTree K V n} (hstored : Stored cfg s.pages (node id (P ++ q :: Q)) parent next)
    (hnodup : (node id (P ++ q :: Q)).ids.Nodup)
    (halloc : ∀ p ∈ (node id (P ++ q :: Q)).ids, p ∈ s.allocated) (hP : P ≠ [])
    (hhalf : P.length = (P ++ q :: Q).length / 2)
    (hsize : (P ++ q :: Q).length = cfg.internalMaxSize + 1) :
    ∃ s' new, s.splitInternal cfg ⟨id, parent, cfg.internalMaxSize,
        (P ++ q :: Q).map (fun c => (c.1, c.2.id))⟩ = some (s', new) ∧
      new.keyAt 0 = some q.1 ∧
      Replaces cfg s s' parent next [(k₀, node id (P ++ q :: Q))]
        [(k₀, node id P), (q.1, node new.pageId (q :: Q))] := by
  obtain ⟨id', hid'⟩ : ∃ id', id' = cfg.allocatePage s.allocated := ⟨_, rfl⟩
  have hfresh : id' ∉ s.allocated := hid' ▸ cfg.fresh s.allocated
  have hlist : (node id (P ++ q :: Q)).ids = id :: (idsIn P ++ idsIn (q :: Q)) := by
    rw [ids_node, idsIn_append]
  rw [hlist] at hnodup halloc
  obtain ⟨hnot, hin⟩ := List.nodup_cons.mp hnodup
  obtain ⟨hPn, hQn, hPQ⟩ := List.nodup_append.mp hin
  have hne : id ≠ id' := fun hc => hfresh (hc ▸ halloc id List.mem_cons_self)
  have hne' : ∀ p ∈ idsIn P ++ idsIn (q :: Q), p ≠ id ∧ p ≠ id' := fun p hp =>
    ⟨fun hc => hnot (hc ▸ hp), fun hc => hfresh (hc ▸ halloc p (List.mem_cons_of_mem id hp))⟩
  obtain ⟨p, hp⟩ : ∃ p : InternalPage K, p = ⟨id, parent, cfg.internalMaxSize,
    P.map (fun c => (c.1, c.2.id))⟩ := ⟨_, rfl⟩
  obtain ⟨new, hnew⟩ : ∃ p : InternalPage K, p = ⟨id', parent, cfg.internalMaxSize,
    (q :: Q).map (fun c => (c.1, c.2.id))⟩ := ⟨_, rfl⟩
  obtain ⟨s₁, hs₁⟩ : ∃ s₁, s₁ = ((s.newPage cfg).2.write (.internal p)).write (.internal new) :=
    ⟨_, rfl⟩
  have hsame : ∀ i, i ≠ id → i ≠ id' → s₁.pages i = s.pages i := fun i hi hi' => by
    rw [hs₁, hnew, hp]
    exact (Function.update_of_ne hi' ..).trans (Function.update_of_ne hi ..)
  have hunder : StoredUnder cfg s₁.pages id (P ++ q :: Q) next :=
    StoredUnder.congr hstored.2 (fun i hi => by
      rw [idsIn_append] at hi
      exact hsame i (hne' i hi).1 (hne' i hi).2)
  obtain ⟨hunderP, hunderQ⟩ := storedIn_append.mp hunder
  obtain ⟨s', hadopt, hstoredQ, hframe, halloc', hroot'⟩ := StoredUnder.adopt hunderQ hQn id'
  have hother : ∀ i, i = id ∨ i = id' → i ∉ idsIn (q :: Q) := fun i hi hc =>
    hi.elim (hne' i (List.mem_append_right _ hc)).1 (hne' i (List.mem_append_right _ hc)).2
  have hpageP : s'.pages id = some (.internal p) := by
    rw [hframe _ (hother id (.inl rfl)), hs₁, hnew, hp]
    exact (Function.update_of_ne hne ..).trans (Function.update_self ..)
  have hpageQ : s'.pages id' = some (.internal new) := by
    rw [hframe _ (hother id' (.inr rfl)), hs₁, hnew]
    exact Function.update_self ..
  have hsplit : s.splitInternal cfg ⟨id, parent, cfg.internalMaxSize,
      (P ++ q :: Q).map (fun c => (c.1, c.2.id))⟩ = some (s', new) := by
    rw [splitInternal_eq (by rw [InternalPage.size, List.length_map, hsize])]
    show Option.map _ (adopt _ _ _) = _
    rw [InternalPage.size, List.length_map, ← hhalf, ← List.map_take, ← List.map_drop,
      List.take_left, List.drop_left, List.map_map, ← hid', ← hp, ← hnew, ← hs₁]
    rw [show (Prod.snd ∘ fun c : K × PageTree K V n => (c.1, c.2.id)) = fun c => c.2.id from rfl,
      hadopt]
    rfl
  have hnodup' : (id :: idsIn P ++ (id' :: idsIn (q :: Q))).Nodup := by
    refine List.nodup_append.mpr ⟨List.nodup_cons.mpr ⟨?_, hPn⟩, List.nodup_cons.mpr ⟨?_, hQn⟩, ?_⟩
    · exact fun hc => hnot (List.mem_append_left _ hc)
    · exact hother id' (.inr rfl)
    · rintro i hi j hj rfl
      rcases List.mem_cons.mp hi with rfl | hi
      · exact (List.mem_cons.mp hj).elim hne (hother i (.inl rfl))
      · rcases List.mem_cons.mp hj with rfl | hj
        · exact (hne' i (List.mem_append_left _ hi)).2 rfl
        · exact hPQ i hi i hj rfl
  have hchanges : Changes s s' (id :: (idsIn P ++ idsIn (q :: Q)))
      (id :: idsIn P ++ (id' :: idsIn (q :: Q))) := by
    have hnewPage := changes_newPage cfg halloc
    rw [← hid'] at hnewPage
    have hp' := changes_write_mem (p := .internal p)
      (hp ▸ List.mem_cons_of_mem id' List.mem_cons_self) (fun i hi => hnewPage.mem_allocated hi)
    have hnew' := changes_write_mem (p := .internal new) (hnew ▸ List.mem_cons_self)
      (fun i hi => hp'.mem_allocated hi)
    rw [← hs₁] at hnew'
    have hadopted := changes_within (fun i hi => hnew'.mem_allocated hi)
      (fun i hi => hframe i (fun hc => hi ?_)) halloc' hroot'
    · refine (hnewPage.trans (hp'.trans (hnew'.trans hadopted))).congr (fun _ => Iff.rfl)
        (fun i => ?_)
      simp only [List.cons_append, List.mem_cons, List.mem_append]
      tauto
    · exact List.mem_cons_of_mem _ (List.mem_cons_of_mem _ (List.mem_append_right _ hc))
  subst hnew hp
  refine ⟨s', _, hsplit, rfl, ⟨⟨⟨hpageP, ?_⟩, ⟨hpageQ, hstoredQ⟩, trivial⟩, ?_, fun m => ?_, ?_⟩⟩
  · exact StoredUnder.congr hunderP (fun i hi => hframe i (fun hc => hPQ i hi i hc rfl))
  · rw [idsIn_cons, idsIn_cons, idsIn_nil, List.append_nil]
    exact hnodup'
  · obtain ⟨a, P, rfl⟩ := List.exists_cons_of_ne_nil hP
    rfl
  · rw [idsIn_cons, idsIn_cons, idsIn_cons, idsIn_nil, List.append_nil, List.append_nil, hlist]
    exact hchanges

variable [Inhabited K]

/-- One round of `InsertIntoParent` below the root. -/
theorem insertIntoParent_eq (cfg : TreeConfig) (rounds : ℕ) {oldNode newNode : PageId}
    {old : BPlusTreePage K V} {p p' : InternalPage K} (hold : s.pages oldNode = some old)
    (hroot : old.parentPageId ≠ invalidPageId)
    (hparent : s.fetchInternal old.parentPageId = some p)
    (hset : s.setParent old.parentPageId newNode = some s')
    (hinsert : p.insertNodeAfter oldNode key newNode = some p') :
    insertIntoParent cfg (rounds + 1) s oldNode key newNode =
      if p'.maxSize < p'.size then
        ((s'.write (.internal p')).splitInternal cfg p').bind (fun r =>
          (r.2.keyAt 0).bind (fun key =>
            insertIntoParent cfg rounds r.1 p'.pageId key r.2.pageId))
      else some (s'.write (.internal p')) := by
  have hnot : old.isRootPage = false := decide_eq_false hroot
  rw [insertIntoParent, hold, Option.bind_eq_bind, Option.bind_some, hnot,
    if_neg Bool.false_ne_true, hparent, Option.bind_eq_bind, Option.bind_some, hset,
    Option.bind_eq_bind, Option.bind_some, hinsert]
  rfl

end Inner

variable [Inhabited K]

/-- **A page that has been written** with its new children, cut in two if there
are too many of them. -/
theorem exists_grown_of_written (k₀ : K) (rounds : ℕ) {s₀ : BPlusTree K V} {id : PageId}
    {t : PageTree K V (n + 1)} (hmax : 3 ≤ cfg.internalMaxSize)
    (hstored : Stored cfg s.pages (node id cs) parent next) (hnodup : (node id cs).ids.Nodup)
    (hchanges : Changes s₀ s t.ids (node id cs).ids) (hid : id = t.id)
    (hfirst : (node id cs).first = t.first) (hsep : SeparatedIn Separated cs lo hi)
    (hsized : ∀ c ∈ cs, Sized cfg.capacity c.2)
    (hentries : (node id cs).entries.Perm (e :: t.entries)) (htwo : 2 ≤ cs.length)
    (hlength : cs.length ≤ cfg.internalMaxSize + 1) :
    ∃ s' D, Grown cfg s₀ s' parent next k₀ t lo hi e D ∧
      Pending cfg rounds s' k₀ t D (if cfg.internalMaxSize < cs.length then
        (s.splitInternal cfg ⟨id, parent, cfg.internalMaxSize,
          cs.map (fun c => (c.1, c.2.id))⟩).bind (fun r => (r.2.keyAt 0).bind (fun key =>
            insertIntoParent cfg rounds r.1 id key r.2.pageId))
        else some s) := by
  by_cases hfit : cfg.internalMaxSize < cs.length
  · obtain ⟨P, q, Q, rfl, hP, hQ⟩ :=
      exists_halves (List.ne_nil_of_length_pos (Nat.lt_of_lt_of_le Nat.two_pos htwo))
    have hcut : P.tail ≠ [] := List.ne_nil_of_length_pos (by rw [List.length_tail]; omega)
    have hne : P ≠ [] := by
      rintro rfl
      exact hcut rfl
    obtain ⟨s', new, hsplit, hkey, hreplaces⟩ := exists_splitInternal k₀ hstored hnodup
      (fun p hp => hchanges.mem_allocated hp) hne hP (by omega)
    obtain ⟨hsepP, hsepQ, hq, hloq⟩ := hsep.cut hcut
    rw [if_pos hfit, hsplit, Option.bind_some, hkey, Option.bind_some]
    refine ⟨s', [(k₀, node id P), (q.1, node new.pageId (q :: Q))], ⟨⟨hreplaces.stored,
      hreplaces.nodup, fun m => ?_, ?_⟩, ⟨⟨hsepP, hsepQ⟩, List.pairwise_singleton _ _, ?_⟩, ?_, ?_,
        ?_⟩, .inr ⟨_, _, _, rfl, hid, rfl⟩⟩
    · exact (hreplaces.first m).trans hfirst
    · have hsingle : Changes s₀ s (idsIn [(k₀, t)]) (idsIn [(k₀, node id (P ++ q :: Q))]) := by
        rw [idsIn_cons, idsIn_cons, idsIn_nil, List.append_nil, List.append_nil]
        exact hchanges
      exact hsingle.trans hreplaces.changes
    · intro d hd
      rw [List.mem_singleton.mp hd]
      exact hq
    · intro d hd
      rw [List.mem_singleton.mp hd]
      exact hloq
    · intro d hd
      rcases List.mem_pair.mp hd with rfl | rfl
      · exact ⟨⟨show 2 ≤ P.length by omega, show P.length ≤ cfg.internalMaxSize by omega⟩,
          fun c hc => hsized c (List.mem_append_left _ hc)⟩
      · exact ⟨⟨show 2 ≤ (q :: Q).length by omega,
          show (q :: Q).length ≤ cfg.internalMaxSize by omega⟩,
          fun c hc => hsized c (List.mem_append_right P hc)⟩
    · rw [List.flatMap_cons, List.flatMap_singleton, entries_node, entries_node,
        ← List.flatMap_append]
      exact hentries
  · rw [if_neg hfit]
    refine ⟨s, [(k₀, node id cs)], ⟨replaces_single hstored hnodup hfirst hchanges,
      ⟨hsep, List.Pairwise.nil, nofun⟩, nofun, fun d hd => ?_, ?_⟩, .inl ⟨_, rfl, hid, rfl⟩⟩
    · rw [List.mem_singleton.mp hd]
      exact ⟨⟨htwo, not_lt.mp hfit⟩, hsized⟩
    · rw [List.flatMap_singleton]
      exact hentries

omit [LinearOrder K] in
/-- **The page above** a child in whose place other trees stand: the page is written with
them, and is cut in two if there are too many of them. -/
theorem Pending.written {id : PageId} {A B : List (K × PageTree K V n)} {c : K × PageTree K V n}
    {rounds : ℕ} {run : Option (BPlusTree K V)}
    (hstored : Stored cfg s.pages (node id (A ++ c :: B)) parent next)
    (hnodup : (node id (A ++ c :: B)).ids.Nodup)
    (halloc : ∀ p ∈ (node id (A ++ c :: B)).ids, p ∈ s.allocated) (hvalid : id ≠ invalidPageId)
    (hle : (A ++ c :: B).length ≤ cfg.internalMaxSize)
    (h : Replaces cfg s s' id (firstOf B next) [(c.1, c.2)] D)
    (hrun : Pending cfg (rounds + 1) s' c.1 c.2 D run) :
    ∃ d D', D = d :: D' ∧ d.1 = c.1 ∧ D'.length ≤ 1 ∧ ∃ s'',
      Stored cfg s''.pages (node id (A ++ (D ++ B))) parent next ∧
      (node id (A ++ (D ++ B))).ids.Nodup ∧
      Changes s s'' (node id (A ++ c :: B)).ids (node id (A ++ (D ++ B))).ids ∧
      (node id (A ++ (D ++ B))).first = (node id (A ++ c :: B)).first ∧
      run = if cfg.internalMaxSize < (A ++ (D ++ B)).length then
        (s''.splitInternal cfg ⟨id, parent, cfg.internalMaxSize,
          (A ++ (D ++ B)).map (fun c => (c.1, c.2.id))⟩).bind (fun r =>
            (r.2.keyAt 0).bind (fun key => insertIntoParent cfg rounds r.1 id key r.2.pageId))
        else some s'' := by
  obtain ⟨hnot, hin⟩ := List.nodup_cons.mp hnodup
  have hid : id ∈ s.allocated := halloc id List.mem_cons_self
  -- the page with its new children
  have hreplaces : Replaces cfg s s' id next (A ++ c :: B) (A ++ (D ++ B)) :=
    h.inNode hstored.2 hin (fun p hp => halloc p (List.mem_cons_of_mem id hp))
  obtain ⟨hstored', hnodup', hchanges⟩ := hreplaces.writeNode hid hnot parent
  have hfirst : ∀ d D', D = d :: D' →
      (node id (A ++ (D ++ B))).first = (node id (A ++ c :: B)).first := by
    rintro d D' rfl
    have hhead : ∀ cs : List (K × PageTree K V n), cs ≠ [] →
        (node id cs).first = firstOf cs next := by
      intro cs hcs
      obtain ⟨a, cs, rfl⟩ := List.exists_cons_of_ne_nil hcs
      rfl
    rw [hhead _ (by simp), hhead _ (by simp), hreplaces.first]
  have hpage : s'.pages id = some (rootPage cfg (node id (A ++ c :: B)) parent next) :=
    (hreplaces.changes.same id hid hnot).trans hstored.1
  rcases hrun with ⟨t', rfl, htid, rfl⟩ | ⟨l, k, r, rfl, hlid, rfl⟩
  · refine ⟨_, [], rfl, rfl, Nat.zero_le 1, _, hstored', hnodup', hchanges, hfirst _ _ rfl, ?_⟩
    have hsame : rootPage cfg (node id (A ++ ([(c.1, t')] ++ B))) parent next =
        rootPage cfg (node id (A ++ c :: B)) parent next := by
      have hmap : (A ++ ([(c.1, t')] ++ B)).map (fun c => (c.1, c.2.id)) =
          (A ++ c :: B).map (fun c => (c.1, c.2.id)) := by
        rw [List.singleton_append, List.map_append, List.map_cons, List.map_append, List.map_cons,
          htid]
      exact congrArg (fun l => BPlusTreePage.internal ⟨id, parent, cfg.internalMaxSize, l⟩) hmap
    have hlength : (A ++ ([(c.1, t')] ++ B)).length = (A ++ c :: B).length := by
      rw [List.singleton_append, List.length_append, List.length_append]
      rfl
    rw [if_neg (by rw [hlength]; exact not_lt.mpr hle), hsame, write_self hpage]
  · refine ⟨_, [(k, r)], rfl, rfl, le_rfl, _, hstored', hnodup', hchanges, hfirst _ _ rfl, ?_⟩
    obtain ⟨hl, hr, -⟩ := h.stored
    have hset : s'.setParent id r.id = some s' := by
      rw [hr.setParent, write_self]
      rw [pageId_rootPage]
      exact hr.root
    have hindex : InternalPage.valueIndex ⟨id, parent, cfg.internalMaxSize,
        (A ++ c :: B).map (fun c => (c.1, c.2.id))⟩ l.id = some A.length := by
      rw [hlid]
      exact valueIndex_child rfl hin
    have hinsert : InternalPage.insertNodeAfter ⟨id, parent, cfg.internalMaxSize,
        (A ++ c :: B).map (fun c => (c.1, c.2.id))⟩ l.id k r.id = some ⟨id, parent,
          cfg.internalMaxSize, (A ++ ([(c.1, l), (k, r)] ++ B)).map (fun c => (c.1, c.2.id))⟩ := by
      have hcut : (A ++ c :: B).map (fun c => (c.1, c.2.id)) =
          (A.map (fun c => (c.1, c.2.id)) ++ [(c.1, l.id)]) ++ B.map (fun c => (c.1, c.2.id)) := by
        rw [hlid, List.map_append, List.map_cons, List.append_assoc, List.singleton_append]
      have hlen : A.length + 1 = (A.map (fun c => (c.1, c.2.id)) ++ [(c.1, l.id)]).length := by
        rw [List.length_append, List.length_map, List.length_singleton]
      rw [InternalPage.insertNodeAfter, hindex, Option.map_some]
      refine congrArg (fun l => some (InternalPage.mk id parent cfg.internalMaxSize l)) ?_
      rw [hcut, hlen, List.take_left, List.drop_left, List.map_append, List.append_assoc]
      rfl
    have hround := insertIntoParent_eq cfg rounds hl.root
      (by rw [parentPageId_rootPage]; exact hvalid)
      (by rw [parentPageId_rootPage, fetchInternal, hpage]; rfl)
      (by rw [parentPageId_rootPage]; exact hset) hinsert
    rw [hround, InternalPage.size, List.length_map]
    rfl

/-- **The page above** a child in which the entry has been put. -/
theorem exists_grown_node {id : PageId} {A B : List (K × PageTree K V n)}
    {c : K × PageTree K V n} {rounds : ℕ} {run : Option (BPlusTree K V)}
    (hmax : 3 ≤ cfg.internalMaxSize)
    (hstored : Stored cfg s.pages (node id (A ++ c :: B)) parent next)
    (hnodup : (node id (A ++ c :: B)).ids.Nodup)
    (halloc : ∀ p ∈ (node id (A ++ c :: B)).ids, p ∈ s.allocated) (hvalid : id ≠ invalidPageId)
    (hsep : SeparatedIn Separated (A ++ c :: B) lo hi)
    (hsized : Sized cfg.capacity (node id (A ++ c :: B)))
    (h : Grown cfg s s' id (firstOf B next) c.1 c.2 (start A c.1 lo) (stop B hi) e D)
    (hrun : Pending cfg (rounds + 1) s' c.1 c.2 D run) :
    ∃ s'' D', Grown cfg s s'' parent next k₀ (node id (A ++ c :: B)) lo hi e D' ∧
      Pending cfg rounds s'' k₀ (node id (A ++ c :: B)) D' run := by
  obtain ⟨htwo, hle⟩ : 2 ≤ (A ++ c :: B).length ∧ (A ++ c :: B).length ≤ cfg.internalMaxSize :=
    hsized.1
  obtain ⟨d, D, rfl, hkey, hD, s'', hstored', hnodup', hchanges, hfirst, rfl⟩ :=
    hrun.written hstored hnodup halloc hvalid hle h.replaces
  have hsep' := hsep.replace h.separated hkey h.above
  have hsized' : ∀ a ∈ A ++ (d :: D ++ B), Sized cfg.capacity a.2 := fun a ha => by
    rcases List.mem_append.mp ha with ha | ha
    · exact hsized.2 a (List.mem_append_left _ ha)
    · rcases List.mem_append.mp ha with ha | ha
      · exact h.sized a ha
      · exact hsized.2 a (List.mem_append_right A (List.mem_cons_of_mem c ha))
  have hentries : (node id (A ++ (d :: D ++ B))).entries.Perm
      (e :: (node id (A ++ c :: B)).entries) := by
    rw [entries_node, entries_node, List.flatMap_append, List.flatMap_append, List.flatMap_append,
      List.flatMap_cons]
    refine ((h.entries.append_right _).append_left _).trans ?_
    exact List.perm_middle
  have hlength : (A ++ (d :: D ++ B)).length = (A ++ c :: B).length + D.length := by
    simp only [List.length_append, List.length_cons]
    omega
  exact exists_grown_of_written k₀ rounds hmax hstored' hnodup' hchanges rfl hfirst hsep' hsized'
    hentries (by omega) (by omega)

/-- **Every subtree on the way** of the key: what stands in its place when the
insertion leaves it. -/
theorem exists_grown {leaf : LeafPage K V} {l : Leaf PageId K V} (hleaf : 1 ≤ cfg.leafMaxSize)
    (hinternal : 3 ≤ cfg.internalMaxSize) (hpage : s.pages l.id = some (.leaf leaf))
    (habsent : leaf.lookup key = none) : {n : ℕ} → {t : PageTree K V n} →
    {parent next : PageId} → {lo : WithBot K} → {hi : WithTop K} → {k₀ : K} → {rounds : ℕ} →
    Stored cfg s.pages t parent next → t.ids.Nodup → (∀ p ∈ t.ids, p ∈ s.allocated) →
    invalidPageId ∉ t.ids → Separated t lo hi → Sized cfg.capacity t →
    Routes (fun lo hi => Within lo hi key) t l lo hi →
    ∃ s' D, Grown cfg s s' parent next k₀ t lo hi (key, value) D ∧
      Pending cfg rounds s' k₀ t D (s.insertAt cfg (rounds + n) leaf key value)
  | 0, t, _, _, _, _, _, _, hstored, _, halloc, _, hsep, hsized, hroutes => by
    obtain ⟨rfl, hkey⟩ := hroutes
    exact exists_grown_leaf hleaf hstored (halloc _ t.id_mem_ids) hsep hsized hkey hpage habsent
  | n + 1, t, parent, next, lo, hi, k₀, rounds, hstored, hnodup, halloc, hvalid, hsep, hsized,
      ⟨A, c, B, hcs, hroutes⟩ => by
    obtain ⟨id, cs, rfl⟩ := exists_node t
    obtain rfl : cs = A ++ c :: B := hcs
    have hsep : SeparatedIn Separated (A ++ c :: B) lo hi := hsep
    have hmem : ∀ p ∈ c.2.ids, p ∈ (node id (A ++ c :: B)).ids := fun p hp =>
      List.mem_cons_of_mem id
        (List.mem_flatMap.mpr ⟨c, List.mem_append_right A List.mem_cons_self, hp⟩)
    have hc : Stored cfg s.pages c.2 id (firstOf B next) := (storedIn_append.mp hstored.2).2.1
    have hcn : c.2.ids.Nodup := by
      have hin : (idsIn (A ++ c :: B)).Nodup := (List.nodup_cons.mp hnodup).2
      rw [idsIn_append, idsIn_cons] at hin
      exact (List.nodup_append.mp (List.nodup_append.mp hin).2.1).1
    obtain ⟨s', D, hgrown, hpending⟩ : ∃ s' D, Grown cfg s s' id (firstOf B next) c.1 c.2
        (start A c.1 lo) (stop B hi) (key, value) D ∧
        Pending cfg (rounds + 1) s' c.1 c.2 D (s.insertAt cfg (rounds + 1 + n) leaf key value) :=
      exists_grown hleaf hinternal hpage habsent hc hcn (fun p hp => halloc p (hmem p hp))
        (fun h => hvalid (hmem _ h)) hsep.focus.2.1
        (hsized.2 c (List.mem_append_right A List.mem_cons_self)) hroutes
    rw [Nat.add_right_comm rounds 1 n] at hpending
    exact exists_grown_node hinternal hstored hnodup halloc
      (fun h => hvalid (h ▸ List.mem_cons_self)) hsep hsized hgrown hpending

/-! ## The whole tree -/

/-- A tree that is not empty, in the store, with the invariant that the pages
document. -/
structure HoldsTree (cfg : TreeConfig) (s : BPlusTree K V) (t : PageTree K V n) (next : PageId) :
    Prop where
  root : t.id = s.rootPageId
  stored : Stored cfg s.pages t invalidPageId next
  nodup : t.ids.Nodup
  allocated : ∀ id ∈ t.ids, id ∈ s.allocated
  valid : invalidPageId ∉ t.ids
  separated : Separated t ⊥ ⊤
  sized : Sized cfg.capacity t

/-- **The documented invariant**, of an empty tree and of one that is not. -/
def IsSearchTree (cfg : TreeConfig) (s : BPlusTree K V) : Contents K V → Prop
  | .empty => s.rootPageId = invalidPageId
  | .tree t => ∃ next, HoldsTree cfg s t next

omit [Inhabited K] in
theorem HoldsTree.searchable (h : HoldsTree cfg s t next) : Searchable s t where
  root := h.root
  laid := h.stored.laid
  nodup := h.nodup
  allocated := h.allocated
  valid := fun hc => h.valid (hc ▸ h.root ▸ t.id_mem_ids)
  separated := h.separated

omit [LinearOrder K] in
/-- **A new root** over two trees that stand in the place of the old one. -/
theorem exists_newRoot (rounds : ℕ) {l r : PageTree K V n} {k : K}
    (hchanges : Changes s s' t.ids (idsIn [((default : K), l), (k, r)]))
    (hunder : StoredUnder cfg s'.pages invalidPageId [(default, l), (k, r)] next)
    (hnodup : (idsIn [((default : K), l), (k, r)]).Nodup) :
    ∃ s'' id, insertIntoParent cfg (rounds + 1) s' l.id k r.id = some s'' ∧
      s''.rootPageId = id ∧
      Stored cfg s''.pages (node id [(default, l), (k, r)]) invalidPageId next ∧
      (node id [((default : K), l), (k, r)]).ids.Nodup ∧
      Changes s { s'' with rootPageId := s.rootPageId } t.ids
        (node id [((default : K), l), (k, r)]).ids := by
  obtain ⟨D, hD⟩ : ∃ D, D = [((default : K), l), (k, r)] := ⟨_, rfl⟩
  obtain ⟨id, hid⟩ : ∃ id, id = cfg.allocatePage s'.allocated := ⟨_, rfl⟩
  have hl := hunder.1.root
  rw [← hD] at hchanges hunder hnodup
  have hin : ∀ p ∈ idsIn D, p ∈ s'.allocated := fun p hp => hchanges.mem_allocated hp
  have hfresh : id ∉ idsIn D := fun hc => cfg.fresh s'.allocated (hid ▸ hin id hc)
  obtain ⟨s₁, hs₁⟩ : ∃ s₁, s₁ = ({ (s'.newPage cfg).2 with rootPageId := id }).write
      (rootPage cfg (node id D) invalidPageId next) := ⟨_, rfl⟩
  have hunder₁ : StoredUnder cfg s₁.pages invalidPageId D next :=
    StoredUnder.congr hunder (fun p hp => by
      rw [hs₁]
      exact Function.update_of_ne (fun e : p = id => hfresh (e ▸ hp)) ..)
  obtain ⟨s₂, hadopt, hstored, hframe, halloc, hroot⟩ := StoredUnder.adopt hunder₁ hnodup id
  have hpage : s₂.pages id = some (rootPage cfg (node id D) invalidPageId next) := by
    rw [hframe id hfresh, hs₁]
    exact Function.update_self ..
  have hrun : insertIntoParent cfg (rounds + 1) s' l.id k r.id = some s₂ := by
    have hold : (rootPage cfg l invalidPageId (firstOf [(k, r)] next)).isRootPage = true :=
      decide_eq_true (parentPageId_rootPage l)
    rw [insertIntoParent, hl, Option.bind_eq_bind, Option.bind_some, hold, if_pos rfl]
    rw [hs₁, hid, hD] at hadopt
    exact hadopt
  have hlist : idsIn D ⊆ (node id D).ids := fun p hp => List.mem_cons_of_mem id hp
  have hsteps : Changes s' { s₂ with rootPageId := s'.rootPageId } (idsIn D) (node id D).ids := by
    have hnew := changes_newPage cfg hin
    rw [← hid] at hnew
    refine hnew.trans (changes_within (fun p hp => hnew.mem_allocated hp) (fun p hp => ?_)
      (halloc.trans (hs₁ ▸ rfl)) rfl)
    rw [hframe p (fun hc => hp (hlist hc)), hs₁]
    exact Function.update_of_ne (fun e : p = id => hp (e ▸ List.mem_cons_self)) ..
  rw [← hD]
  refine ⟨s₂, id, hrun, ?_, ⟨hpage, hstored⟩, List.nodup_cons.mpr ⟨hfresh, hnodup⟩, ?_⟩
  · rw [hroot, hs₁]
    rfl
  · rw [← hchanges.root]
    exact hchanges.trans hsteps

/-- **A new root** over the two trees that have the entry. -/
theorem exists_root (rounds : ℕ) {l r : PageTree K V n} {k : K}
    (hinternal : 3 ≤ cfg.internalMaxSize) (h : HoldsTree cfg s t next)
    (hgrown : Grown cfg s s' invalidPageId next default t ⊥ ⊤ e [(default, l), (k, r)]) :
    ∃ s'' id, insertIntoParent cfg (rounds + 1) s' l.id k r.id = some s'' ∧
      HoldsTree cfg s'' (node id [(default, l), (k, r)]) next := by
  have hold := hgrown.replaces.changes
  rw [idsIn_cons, idsIn_nil, List.append_nil] at hold
  obtain ⟨s'', id, hrun, hroot, hstored, hnodup, hchanges⟩ :=
    exists_newRoot rounds hold hgrown.replaces.stored hgrown.replaces.nodup
  refine ⟨s'', id, hrun, hroot.symm, hstored, hnodup, fun p hp => hchanges.mem_allocated hp,
    fun hc => ?_, hgrown.separated, ⟨⟨le_rfl, Nat.le_of_succ_le hinternal⟩, hgrown.sized⟩⟩
  exact (hchanges.fresh _ hc).elim h.valid (fun hnew => absurd hnew.2 (by decide))

omit [Inhabited K] in
/-- The tree in the place of the whole tree. -/
theorem Grown.holdsTree {t' : PageTree K V n} (h : Grown cfg s s' invalidPageId next k₀ t ⊥ ⊤ e
    [(k₀, t')]) (ht : HoldsTree cfg s t next) (hid : t'.id = t.id) : HoldsTree cfg s' t' next where
  root := by rw [hid, ht.root, h.replaces.changes.root]
  stored := h.replaces.stored.1
  nodup := by
    have hnodup := h.replaces.nodup
    rwa [idsIn_cons, idsIn_nil, List.append_nil] at hnodup
  allocated p hp := h.replaces.changes.mem_allocated (List.mem_append_left _ hp)
  valid hp := by
    rcases h.replaces.changes.fresh _ (List.mem_append_left _ hp) with hold | hnew
    · rw [idsIn_cons, idsIn_nil, List.append_nil] at hold
      exact ht.valid hold
    · exact absurd hnew.2 (by decide)
  separated := h.separated.children
  sized := h.sized _ List.mem_cons_self

omit [Inhabited K] in
/-- `StartNewTree`. -/
theorem exists_startNewTree (s : BPlusTree K V) (cfg : TreeConfig) (key : K) (value : V)
    (hleaf : 1 ≤ cfg.leafMaxSize) :
    ∃ s' id, s.startNewTree cfg key value = some s' ∧
      HoldsTree cfg s' (KeyTree.leaf id [(key, value)]) 0 := by
  obtain ⟨id, hid⟩ : ∃ id, id = cfg.allocatePage s.allocated := ⟨_, rfl⟩
  have hvalid : 0 ≤ id := hid ▸ cfg.valid s.allocated
  refine ⟨({ (s.newPage cfg).2 with rootPageId := id }).write
    (.leaf ⟨id, invalidPageId, 0, cfg.leafMaxSize, [(key, value)]⟩), id, ?_, rfl, ?_,
    List.nodup_singleton id, fun p hp => ?_, fun hc => ?_,
    ⟨List.pairwise_singleton _ _, fun e _ => ⟨bot_le, WithTop.coe_lt_top _⟩⟩,
    ⟨Nat.zero_le _, hleaf⟩⟩
  · rw [hid]
    rfl
  · exact Function.update_self ..
  · rw [List.mem_singleton.mp hp, hid]
    exact List.mem_cons_self
  · have heq : invalidPageId = id := List.mem_singleton.mp hc
    rw [← heq] at hvalid
    exact absurd hvalid (by decide)

/-- What `Insert` does with the leaf that it finds. -/
theorem HoldsTree.insert_eq (ht : HoldsTree cfg s t next) (key : K) (value : V) :
    ∃ l leaf, s.pages l.id = some (.leaf leaf) ∧ Routes (fun lo hi => Within lo hi key) t l ⊥ ⊤ ∧
      (∀ v, leaf.lookup key = some v ↔ (key, v) ∈ t.entries) ∧
      s.insert cfg key value = if (leaf.lookup key).isSome then some (s, false)
        else (s.insertAt cfg s.allocated.length leaf key value).map (·, true) := by
  have hempty : s.isEmpty = false := decide_eq_false ht.searchable.valid
  obtain ⟨l, leaf, hfind, hpage, harray, hl, hway, hmem⟩ := ht.searchable.findLeafPage_eq key
  have hsorted : leaf.array.Pairwise (fun e f => e.1 < f.1) := by
    rw [harray]
    exact ht.separated.sorted_of_mem_leaves hl
  refine ⟨l, leaf, hpage, (hway l).mpr rfl, fun v => ?_, ?_⟩
  · rw [LeafPage.lookup_eq_some hsorted, harray, hmem v]
  · rw [BPlusTree.insert, hempty, if_neg Bool.false_ne_true, insertIntoLeaf_eq, hfind,
      Option.bind_some]

/-- **A key that is there** is not inserted again. -/
theorem HoldsTree.insert_of_mem (ht : HoldsTree cfg s t next) {v : V} (hv : (key, v) ∈ t.entries)
    (value : V) : s.insert cfg key value = some (s, false) := by
  obtain ⟨l, leaf, -, -, hlookup, hrun⟩ := ht.insert_eq key value
  rw [hrun, (hlookup v).mpr hv]
  rfl

/-- **A new key** is inserted into a tree with pages, and what comes after its last leaf stays
as it is. -/
theorem HoldsTree.exists_insert (ht : HoldsTree cfg s t next) (hleaf : 1 ≤ cfg.leafMaxSize)
    (hinternal : 3 ≤ cfg.internalMaxSize) (habsent : ∀ v, (key, v) ∉ t.entries) (value : V) :
    ∃ s' m, ∃ t' : PageTree K V m, s.insert cfg key value = some (s', true) ∧
      HoldsTree cfg s' t' next ∧ t'.entries.Perm ((key, value) :: t.entries) := by
  obtain ⟨l, leaf, hpage, hroutes, hlookup, hrun⟩ := ht.insert_eq key value
  have hnone : leaf.lookup key = none :=
    Option.eq_none_iff_forall_ne_some.mpr (fun v hv => habsent v ((hlookup v).mp hv))
  obtain ⟨rounds, hrounds⟩ := Nat.exists_eq_add_of_lt ht.searchable.height_lt
  have hinsert : s.insert cfg key value =
      (s.insertAt cfg (rounds + 1 + n) leaf key value).map (·, true) := by
    rw [hrun, hnone, hrounds, show n + rounds + 1 = rounds + 1 + n by omega]
    rfl
  rw [hinsert]
  obtain ⟨s', D, hgrown, hpending⟩ : ∃ s' D,
      Grown cfg s s' invalidPageId next default t ⊥ ⊤ (key, value) D ∧ Pending cfg
        (rounds + 1) s' default t D (s.insertAt cfg (rounds + 1 + n) leaf key value) :=
    exists_grown hleaf hinternal hpage hnone ht.stored ht.nodup ht.allocated ht.valid
      ht.separated ht.sized hroutes
  rcases hpending with ⟨t', rfl, hid, hdone⟩ | ⟨l', k, r, rfl, -, hup⟩
  · refine ⟨s', n, t', by rw [hdone]; rfl, hgrown.holdsTree ht hid, ?_⟩
    have hperm := hgrown.entries
    rw [List.flatMap_singleton] at hperm
    exact hperm
  · obtain ⟨s'', id, hroot, ht'⟩ := exists_root rounds hinternal ht hgrown
    exact ⟨s'', n + 1, _, by rw [hup, hroot]; rfl, ht', hgrown.entries⟩

/-- **Insertion keeps the search tree.** If the key is there, `Insert` answers
false and leaves the tree as it is, otherwise it answers true, and the tree has
the same invariant and the entries that it had, and the new one. -/
theorem IsSearchTree.insert_keeps {contents : Contents K V} (hleaf : 2 ≤ cfg.leafMaxSize)
    (hinternal : 3 ≤ cfg.internalMaxSize) (h : s.IsSearchTree cfg contents) (key : K) (value : V) :
    ((∃ v, (key, v) ∈ contents.entries) → s.insert cfg key value = some (s, false)) ∧
      ((∀ v, (key, v) ∉ contents.entries) → ∃ s' contents',
        s.insert cfg key value = some (s', true) ∧ s'.IsSearchTree cfg contents' ∧
          contents'.entries.Perm ((key, value) :: contents.entries)) := by
  have hleaf' : 1 ≤ cfg.leafMaxSize := Nat.le_of_succ_le hleaf
  cases contents with
  | empty =>
    have hempty : s.isEmpty = true := decide_eq_true h
    refine ⟨fun ⟨v, hv⟩ => absurd hv List.not_mem_nil, fun _ => ?_⟩
    obtain ⟨s', id, hrun, ht⟩ := exists_startNewTree s cfg key value hleaf'
    refine ⟨s', .tree _, ?_, ⟨0, ht⟩, List.Perm.refl _⟩
    rw [BPlusTree.insert, hempty, if_pos rfl, hrun]
    rfl
  | @tree n t =>
    obtain ⟨next, ht⟩ := h
    refine ⟨fun ⟨v, hv⟩ => ht.insert_of_mem hv value, fun habsent => ?_⟩
    obtain ⟨s', m, t', hrun, ht', hperm⟩ := ht.exists_insert hleaf' hinternal habsent value
    exact ⟨s', .tree t', hrun, ⟨next, ht'⟩, hperm⟩

theorem holdsTree_twoLeaves : HoldsTree (TreeConfig.above 4 4) twoLeavesPages twoLeaves 0 where
  root := rfl
  stored := ⟨rfl, rfl, rfl, trivial⟩
  nodup := searchable_twoLeaves.nodup
  allocated := searchable_twoLeaves.allocated
  valid := by decide
  separated := searchable_twoLeaves.separated
  sized := by
    refine ⟨by decide, fun c hc => ?_⟩
    rcases List.mem_pair.mp hc with rfl | rfl
    · exact show 0 ≤ 1 ∧ 1 ≤ 4 by decide
    · exact show 0 ≤ 1 ∧ 1 ≤ 4 by decide

/-- A key between those of the two leaves is put in. -/
theorem insert_keeps_twoLeaves : ∃ s' contents',
    twoLeavesPages.insert (TreeConfig.above 4 4) 3 30 = some (s', true) ∧
      s'.IsSearchTree (TreeConfig.above 4 4) contents' ∧
        contents'.entries.Perm ((3, 30) :: twoLeaves.entries) :=
  ((show twoLeavesPages.IsSearchTree (TreeConfig.above 4 4) (.tree twoLeaves) from
    ⟨0, holdsTree_twoLeaves⟩).insert_keeps (by decide) (by decide) 3 30).2 (fun v hv => by
      rcases List.mem_pair.mp hv with h | h
      · exact absurd (show (3 : ℕ) = 1 from congrArg Prod.fst h) (by decide)
      · exact absurd (show (3 : ℕ) = 5 from congrArg Prod.fst h) (by decide))

end BPlusTree

end MiniSql
