import MiniSql.BPlusTreeShape

/-!
# Insertion keeps the shape

What an insertion does to the pages, whatever keys are in them: `Sprouted` says what
stands in the place of a subtree when the insertion is about to leave it, that is the
subtree, which may have grown by one at its root, or two trees that both have the
minimum size. It goes up from the leaf as `Grown` does, and `Shaped.of_insert` is the
result for the whole tree.
-/

namespace MiniSql

variable {K V : Type}

namespace BPlusTree

open KeyTree

variable {n : ℕ} {cfg : TreeConfig} {s s' : BPlusTree K V} {t : PageTree K V n}
  {parent next : PageId} {cs D : List (K × PageTree K V n)} {k₀ key : K} {value : V}

/-- **One tree or two** stand in the place of a tree: one that is not smaller at its root,
or two of the minimum size. -/
structure Sprouted (cfg : TreeConfig) (s s' : BPlusTree K V) (parent next : PageId) (k₀ : K)
    (t : PageTree K V n) (D : List (K × PageTree K V n)) : Prop where
  replaces : Replaces cfg s s' parent next [(k₀, t)] D
  filled : ∀ d ∈ D, Filled cfg.bounds d.2 ∧ d.2.size ≤ cfg.bounds.max n
  sized : (∀ d ∈ D, cfg.bounds.min n ≤ d.2.size) ∨ ∃ t', D = [(k₀, t')] ∧ t.size ≤ t'.size

/-- The trees have the sizes of pages that are not the root. -/
theorem Sprouted.all_sized (h : Sprouted cfg s s' parent next k₀ t D)
    (ht : cfg.bounds.min n ≤ t.size) : ∀ d ∈ D, KeyTree.Sized cfg.bounds d.2 := by
  intro d hd
  refine (sized_iff _).mpr ⟨⟨?_, (h.filled d hd).2⟩, (h.filled d hd).1⟩
  rcases h.sized with hmin | ⟨t', rfl, hle⟩
  · exact hmin d hd
  · rw [List.mem_singleton.mp hd]
    exact ht.trans hle

variable [LinearOrder K] [Inhabited K] {rounds : ℕ} {leaf : LeafPage K V} {l : Leaf PageId K V}

/-- **The leaf**, with one more entry and cut in two if it has to be. -/
theorem exists_sprouted_leaf {t : PageTree K V 0} (hleaf : 2 ≤ cfg.leafMaxSize)
    (hstored : Stored cfg s.pages t parent next) (halloc : t.id ∈ s.allocated)
    (hsize : t.size ≤ cfg.leafMaxSize) (hpage : s.pages t.id = some (.leaf leaf)) :
    ∃ s' D, Sprouted cfg s s' parent next k₀ t D ∧
      Pending cfg rounds s' k₀ t D (s.insertAt cfg rounds leaf key value) := by
  obtain ⟨id, es, rfl⟩ : ∃ id es, t = KeyTree.leaf id es := ⟨Leaf.id t, Leaf.entries t, rfl⟩
  obtain rfl : leaf = ⟨id, parent, next, cfg.leafMaxSize, es⟩ :=
    BPlusTreePage.leaf.inj (Option.some.inj (hpage.symm.trans hstored))
  obtain ⟨i, hi⟩ : ∃ i, i = LeafPage.keyIndex ⟨id, parent, next, cfg.leafMaxSize, es⟩ key :=
    ⟨_, rfl⟩
  obtain ⟨fs, hfs⟩ : ∃ fs, fs = es.take i ++ (key, value) :: es.drop i := ⟨_, rfl⟩
  have hlength : fs.length = es.length + 1 := by
    rw [hfs, List.perm_middle.length_eq, List.length_cons, List.take_append_drop]
  have hle : es.length ≤ cfg.leafMaxSize := hsize
  have hinsert : LeafPage.insert ⟨id, parent, next, cfg.leafMaxSize, es⟩ key value =
      some ⟨id, parent, next, cfg.leafMaxSize, fs⟩ := by
    have hlt : (⟨id, parent, next, cfg.leafMaxSize, es⟩ : LeafPage K V).size <
        cfg.leafMaxSize + 1 := Nat.lt_succ_of_le hle
    rw [LeafPage.insert, if_pos hlt, hfs, hi]
  obtain ⟨s₁, hs₁⟩ : ∃ s₁, s₁ = s.write (.leaf ⟨id, parent, next, cfg.leafMaxSize, fs⟩) :=
    ⟨_, rfl⟩
  have hwrite : Changes s s₁ [id] [id] := hs₁ ▸ changes_write halloc
  rw [insertAt_eq hinsert, ← hs₁]
  by_cases hfit : cfg.leafMaxSize < fs.length
  · have hpos : 0 < fs.length := Nat.zero_lt_of_lt hfit
    obtain ⟨L, f, R, rfl, hL, hR⟩ := exists_halves (List.ne_nil_of_length_pos hpos)
    obtain ⟨s', new, hsplit, hfirst, hreplaces⟩ : ∃ s' new,
        s₁.splitLeaf cfg ⟨id, parent, next, cfg.leafMaxSize, L ++ f :: R⟩ = some (s', new) ∧
        new.keyAt 0 = some f.1 ∧ Replaces cfg s₁ s' parent next
          [(k₀, KeyTree.leaf id (L ++ f :: R))]
          [(k₀, KeyTree.leaf id L), (f.1, KeyTree.leaf new.pageId (f :: R))] :=
      exists_splitLeaf k₀ (hwrite.mem_allocated List.mem_cons_self) hL (by omega)
    have hmin : cfg.leafMaxSize / 2 ≤ L.length ∧ cfg.leafMaxSize / 2 ≤ (f :: R).length ∧
        L.length ≤ cfg.leafMaxSize ∧ (f :: R).length ≤ cfg.leafMaxSize := by omega
    refine ⟨s', [(k₀, KeyTree.leaf id L), (f.1, KeyTree.leaf new.pageId (f :: R))],
      ⟨⟨hreplaces.stored, hreplaces.nodup, fun _ => rfl, hwrite.trans hreplaces.changes⟩,
        fun d hd => ?_, .inl (fun d hd => ?_)⟩, .inr ⟨_, _, _, rfl, rfl, ?_⟩⟩
    · rcases List.mem_pair.mp hd with rfl | rfl
      · exact ⟨trivial, hmin.2.2.1⟩
      · exact ⟨trivial, hmin.2.2.2⟩
    · rcases List.mem_pair.mp hd with rfl | rfl
      · exact hmin.1
      · exact hmin.2.1
    · refine (if_pos hfit).trans ?_
      rw [hsplit, Option.bind_some, hfirst]
      rfl
  · refine ⟨s₁, [(k₀, KeyTree.leaf id fs)], ⟨⟨⟨?_, trivial⟩, List.nodup_singleton id,
      fun _ => rfl, hwrite⟩, fun d hd => ?_, .inr ⟨_, rfl, ?_⟩⟩, .inl ⟨_, rfl, rfl, if_neg hfit⟩⟩
    · rw [hs₁]
      exact Function.update_self ..
    · rw [List.mem_singleton.mp hd]
      exact ⟨trivial, not_lt.mp hfit⟩
    · show es.length ≤ fs.length
      omega

omit [LinearOrder K] in
/-- **The page above** a child in whose place other trees stand. -/
theorem exists_sprouted_node {id : PageId} {A B : List (K × PageTree K V n)}
    {c : K × PageTree K V n} {run : Option (BPlusTree K V)} (hmax : 3 ≤ cfg.internalMaxSize)
    (hstored : Stored cfg s.pages (node id (A ++ c :: B)) parent next)
    (hnodup : (node id (A ++ c :: B)).ids.Nodup)
    (halloc : ∀ p ∈ (node id (A ++ c :: B)).ids, p ∈ s.allocated) (hvalid : id ≠ invalidPageId)
    (hfilled : Filled cfg.bounds (node id (A ++ c :: B)))
    (hle : (A ++ c :: B).length ≤ cfg.internalMaxSize)
    (h : Sprouted cfg s s' id (firstOf B next) c.1 c.2 D)
    (hrun : Pending cfg (rounds + 1) s' c.1 c.2 D run) :
    ∃ s'' D', Sprouted cfg s s'' parent next k₀ (node id (A ++ c :: B)) D' ∧
      Pending cfg rounds s'' k₀ (node id (A ++ c :: B)) D' run := by
  have hsized : ∀ d ∈ D, KeyTree.Sized cfg.bounds d.2 :=
    h.all_sized ((sized_iff _).mp (hfilled c (List.mem_append_right A List.mem_cons_self))).1.1
  obtain ⟨d, D, rfl, -, hD, s'', hstored', hnodup', hchanges, hfirst, rfl⟩ :=
    hrun.written hstored hnodup halloc hvalid hle h.replaces
  obtain ⟨cs, hcs⟩ : ∃ cs, cs = A ++ (d :: D ++ B) := ⟨_, rfl⟩
  have hchildren : ∀ a ∈ cs, KeyTree.Sized cfg.bounds a.2 := fun a ha => by
    rw [hcs] at ha
    rcases List.mem_append.mp ha with ha | ha
    · exact hfilled a (List.mem_append_left _ ha)
    · rcases List.mem_append.mp ha with ha | ha
      · exact hsized a ha
      · exact hfilled a (List.mem_append_right A (List.mem_cons_of_mem c ha))
  have hlength : cs.length = (A ++ c :: B).length + D.length := by
    rw [hcs]
    simp only [List.length_append, List.length_cons]
    omega
  have hold : Changes s s'' (idsIn [(k₀, node id (A ++ c :: B))]) (idsIn [(k₀, node id cs)]) := by
    rw [idsIn_cons, idsIn_cons, idsIn_nil, List.append_nil, List.append_nil, hcs]
    exact hchanges
  rw [← hcs] at hstored' hnodup' hchanges hfirst ⊢
  by_cases hfit : cfg.internalMaxSize < cs.length
  · obtain ⟨P, q, Q, rfl, hP, hQ⟩ : ∃ P q Q, cs = P ++ q :: Q ∧ P.length = cs.length / 2 ∧
        (q :: Q).length = cs.length - cs.length / 2 :=
      exists_halves (List.ne_nil_of_length_pos (Nat.zero_lt_of_lt hfit))
    have hne : P ≠ [] := List.ne_nil_of_length_pos (by omega)
    obtain ⟨s₂, new, hsplit, hkey, hreplaces⟩ := exists_splitInternal k₀ hstored' hnodup'
      (fun p hp => hchanges.mem_allocated hp) hne hP (by omega)
    have hmin : (cfg.internalMaxSize - 1) / 2 + 1 ≤ P.length ∧
        (cfg.internalMaxSize - 1) / 2 + 1 ≤ (q :: Q).length ∧ P.length ≤ cfg.internalMaxSize ∧
        (q :: Q).length ≤ cfg.internalMaxSize := by omega
    rw [if_pos hfit, hsplit, Option.bind_some, hkey, Option.bind_some]
    refine ⟨s₂, [(k₀, node id P), (q.1, node new.pageId (q :: Q))], ⟨⟨hreplaces.stored,
      hreplaces.nodup, fun m => (hreplaces.first m).trans hfirst, hold.trans hreplaces.changes⟩,
      fun e he => ?_, .inl (fun e he => ?_)⟩, .inr ⟨_, _, _, rfl, rfl, rfl⟩⟩
    · rcases List.mem_pair.mp he with rfl | rfl
      · exact ⟨fun c hc => hchildren c (List.mem_append_left _ hc), hmin.2.2.1⟩
      · exact ⟨fun c hc => hchildren c (List.mem_append_right P hc), hmin.2.2.2⟩
    · rcases List.mem_pair.mp he with rfl | rfl
      · exact hmin.1
      · exact hmin.2.1
  · rw [if_neg hfit]
    refine ⟨s'', [(k₀, node id cs)], ⟨replaces_single hstored' hnodup' hfirst hchanges,
      fun e he => ?_, .inr ⟨_, rfl, ?_⟩⟩, .inl ⟨_, rfl, rfl, rfl⟩⟩
    · rw [List.mem_singleton.mp he]
      exact ⟨hchildren, not_lt.mp hfit⟩
    · rw [size_node, size_node]
      omega

/-- **Every subtree above the leaf**: what stands in its place when the insertion leaves
it. -/
theorem exists_sprouted {P : WithBot K → WithTop K → Prop} (hleaf : 2 ≤ cfg.leafMaxSize)
    (hinternal : 3 ≤ cfg.internalMaxSize) (hpage : s.pages l.id = some (.leaf leaf)) :
    {n : ℕ} → {t : PageTree K V n} → {parent next : PageId} → {lo : WithBot K} →
    {hi : WithTop K} → {k₀ : K} → {rounds : ℕ} → Stored cfg s.pages t parent next →
    t.ids.Nodup → (∀ p ∈ t.ids, p ∈ s.allocated) → invalidPageId ∉ t.ids →
    Filled cfg.bounds t → t.size ≤ cfg.bounds.max n → Routes P t l lo hi →
    ∃ s' D, Sprouted cfg s s' parent next k₀ t D ∧
      Pending cfg rounds s' k₀ t D (s.insertAt cfg (rounds + n) leaf key value)
  | 0, t, _, _, _, _, _, _, hstored, _, halloc, _, _, hle, hroutes => by
    obtain ⟨rfl, -⟩ := hroutes
    exact exists_sprouted_leaf hleaf hstored (halloc _ t.id_mem_ids) hle hpage
  | n + 1, t, parent, next, lo, hi, k₀, rounds, hstored, hnodup, halloc, hvalid, hfilled, hle,
      ⟨A, c, B, hcs, hroutes⟩ => by
    obtain ⟨id, cs, rfl⟩ := exists_node t
    obtain rfl : cs = A ++ c :: B := hcs
    have hmem : ∀ p ∈ c.2.ids, p ∈ (node id (A ++ c :: B)).ids := fun p hp =>
      List.mem_cons_of_mem id
        (List.mem_flatMap.mpr ⟨c, List.mem_append_right A List.mem_cons_self, hp⟩)
    have hc : Stored cfg s.pages c.2 id (firstOf B next) := (storedIn_append.mp hstored.2).2.1
    have hcn : c.2.ids.Nodup := by
      have hin : (idsIn (A ++ c :: B)).Nodup := (List.nodup_cons.mp hnodup).2
      rw [idsIn_append, idsIn_cons] at hin
      exact (List.nodup_append.mp (List.nodup_append.mp hin).2.1).1
    obtain ⟨hcsize, hcfilled⟩ :=
      (sized_iff _).mp (hfilled c (List.mem_append_right A List.mem_cons_self))
    obtain ⟨s', D, hsprouted, hpending⟩ : ∃ s' D,
        Sprouted cfg s s' id (firstOf B next) c.1 c.2 D ∧
        Pending cfg (rounds + 1) s' c.1 c.2 D (s.insertAt cfg (rounds + 1 + n) leaf key value) :=
      exists_sprouted hleaf hinternal hpage hc hcn (fun p hp => halloc p (hmem p hp))
        (fun h => hvalid (hmem _ h)) hcfilled hcsize.2 hroutes
    rw [Nat.add_right_comm rounds 1 n] at hpending
    exact exists_sprouted_node hinternal hstored hnodup halloc
      (fun h => hvalid (h ▸ List.mem_cons_self)) hfilled hle hsprouted hpending

/-! ## The whole tree -/

omit [LinearOrder K] [Inhabited K] in
/-- The root needs less than the other pages. -/
theorem least_le_min (hleaf : 2 ≤ cfg.leafMaxSize) (hinternal : 3 ≤ cfg.internalMaxSize) :
    (n : ℕ) → cfg.least.min n ≤ cfg.bounds.min n
  | 0 => show 1 ≤ cfg.leafMaxSize / 2 by omega
  | _ + 1 => show 2 ≤ (cfg.internalMaxSize - 1) / 2 + 1 by omega

omit [LinearOrder K] [Inhabited K] in
/-- The searches have rounds enough. -/
theorem Shaped.height_lt {short : List PageId} (h : Shaped cfg short s t next)
    (hl : l ∈ t.leaves) : n < s.allocated.length :=
  (height_lt_length_ids hl).trans_le (List.subperm_of_subset h.nodup h.allocated).length_le

omit [Inhabited K] in
/-- `Lookup` finds a child of every page that has one, whatever the keys are. -/
theorem exists_lookup_child {id : PageId} {maxSize : ℕ} (hcs : cs ≠ []) (key : K) : ∃ c ∈ cs,
    InternalPage.lookup ⟨id, parent, maxSize, cs.map (fun c => (c.1, c.2.id))⟩ key =
      some c.2.id := by
  match cs, hcs with
  | [c], _ => exact ⟨c, List.mem_singleton_self c, rfl⟩
  | c :: c₁ :: cs, _ =>
    have harray : (⟨id, parent, maxSize, (c :: c₁ :: cs).map (fun c => (c.1, c.2.id))⟩ :
        InternalPage K).array = (c.1, c.2.id) :: (c₁.1, c₁.2.id) ::
          cs.map (fun c => (c.1, c.2.id)) := rfl
    rcases InternalPage.lookup_cases harray key with ⟨-, hfirst⟩ | ⟨-, e, he, -, hchild, -⟩
    · exact ⟨c, List.mem_cons_self, hfirst⟩
    · obtain ⟨d, hd, rfl⟩ := List.mem_map.mp
        (show e ∈ (c₁ :: cs).map (fun c => (c.1, c.2.id)) from he)
      exact ⟨d, List.mem_cons_of_mem c hd, hchild⟩

omit [Inhabited K] in
/-- **A search** ends at a leaf. -/
theorem exists_leaf_of_stored : {n : ℕ} → {t : PageTree K V n} → {parent next : PageId} →
    {rounds : ℕ} → Stored cfg s.pages t parent next → Branches t → n < rounds → (key : K) →
    ∃ leaf, findLeafFrom s key false rounds t.id = some leaf
  | 0, t, _, _, rounds + 1, h, _, _, key => by
    rw [findLeafFrom, h.root]
    exact ⟨_, rfl⟩
  | n + 1, t, _, _, rounds + 1, h, hb, hrounds, key => by
    obtain ⟨id, cs, rfl⟩ := exists_node t
    obtain ⟨c, hc, hlookup⟩ : ∃ c ∈ cs, InternalPage.lookup ⟨id, _, cfg.internalMaxSize,
        cs.map (fun c => (c.1, c.2.id))⟩ key = some c.2.id := exists_lookup_child hb.1 key
    obtain ⟨after, hstored⟩ := StoredIn.of_mem h.2 hc
    obtain ⟨leaf, hleaf⟩ :=
      exists_leaf_of_stored hstored (hb.2 c hc) (Nat.lt_of_succ_lt_succ hrounds) key
    refine ⟨leaf, ?_⟩
    rw [findLeafFrom, h.root]
    exact (congrArg (fun i => Option.bind i _) hlookup).trans hleaf

omit [Inhabited K] in
/-- The search for a key from the root. -/
theorem Shaped.exists_findLeafPage (h : Shaped cfg [] s t next) (key : K) :
    ∃ leaf, s.findLeafPage key false = some leaf := by
  obtain ⟨l, hl⟩ := List.exists_mem_of_ne_nil _ h.branches.leaves_ne_nil
  rw [findLeafPage, ← h.root]
  exact exists_leaf_of_stored h.stored h.branches (h.height_lt hl) key

omit [LinearOrder K] [Inhabited K] in
theorem Shaped.isEmpty_eq {short : List PageId} (h : Shaped cfg short s t next) :
    s.isEmpty = false :=
  decide_eq_false (fun hc => h.valid (hc ▸ h.root ▸ t.id_mem_ids))

/-- **An insertion into a tree** does not fail and keeps its shape. -/
theorem Shaped.exists_insert (hleaf : 2 ≤ cfg.leafMaxSize) (hinternal : 3 ≤ cfg.internalMaxSize)
    (h : Shaped cfg [] s t next) (key : K) (value : V) : ∃ s' success,
      s.insert cfg key value = some (s', success) ∧
        ∃ (m : ℕ) (t' : PageTree K V m), Shaped cfg [] s' t' next := by
  obtain ⟨leaf, hfind⟩ := h.exists_findLeafPage key
  rw [insert, h.isEmpty_eq, if_neg Bool.false_ne_true, insertIntoLeaf_eq, hfind, Option.bind_some]
  split
  · exact ⟨s, false, rfl, n, t, h⟩
  · obtain ⟨l, hroutes, hpage⟩ := h.routes_of_findLeafPage hfind
    obtain ⟨rounds, hrounds⟩ := Nat.exists_eq_add_of_lt (h.height_lt hroutes.mem_leaves)
    rw [hrounds, show n + rounds + 1 = rounds + 1 + n by omega]
    obtain ⟨s₂, D, hsprouted, hpending⟩ : ∃ s₂ D,
        Sprouted cfg s s₂ invalidPageId next default t D ∧ Pending cfg (rounds + 1) s₂ default t D
          (s.insertAt cfg (rounds + 1 + n) leaf key value) :=
      exists_sprouted hleaf hinternal hpage h.stored h.nodup h.allocated h.valid
        (h.sized.filled h.nodup) h.sized.root.2 hroutes
    have hmin := least_le_min hleaf hinternal n
    have hchanges := hsprouted.replaces.changes
    rw [idsIn_cons, idsIn_nil, List.append_nil] at hchanges
    rcases hpending with ⟨t', rfl, hid, hdone⟩ | ⟨l', k, r, rfl, -, hup⟩
    · rw [idsIn_cons, idsIn_nil, List.append_nil] at hchanges
      obtain ⟨hfilled, hmax⟩ := hsprouted.filled _ List.mem_cons_self
      have hnodup := hsprouted.replaces.nodup
      rw [idsIn_cons, idsIn_nil, List.append_nil] at hnodup
      refine ⟨s₂, true, by rw [hdone]; rfl, n, t', h.changed hchanges.withRoot ?_
        hsprouted.replaces.stored.1 hnodup (hfilled.sizedBut hmax) (.inr ?_)⟩
      · rw [hid, h.root, hchanges.root]
      · rcases hsprouted.sized with hsized | ⟨t'', heq, hle⟩
        · exact hmin.trans (hsized _ List.mem_cons_self)
        · cases heq
          exact (h.least.resolve_left List.not_mem_nil).trans hle
    · obtain ⟨s'', id, hroot, hid, hstored, hnodup, hnew⟩ :=
        exists_newRoot rounds hchanges hsprouted.replaces.stored hsprouted.replaces.nodup
      have hsized : ∀ d ∈ [((default : K), l'), (k, r)], KeyTree.Sized cfg.bounds d.2 := by
        intro d hd
        refine (sized_iff _).mpr ⟨⟨?_, (hsprouted.filled d hd).2⟩, (hsprouted.filled d hd).1⟩
        rcases hsprouted.sized with hsized | ⟨t'', heq, -⟩
        · exact hsized d hd
        · cases heq
      have hfilled : Filled cfg.bounds (node id [((default : K), l'), (k, r)]) := hsized
      exact ⟨s'', true, by rw [hup, hroot]; rfl, n + 1, _, h.changed hnew hid.symm hstored hnodup
        (hfilled.sizedBut (Nat.le_of_succ_le hinternal)) (.inr le_rfl)⟩

end BPlusTree

end MiniSql
