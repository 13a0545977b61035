import MiniSql.BPlusTreeContext
import MiniSql.BPlusTreeInsert

/-!
# Removing a key that is not there

If the search for a key ends at the first place of a leaf, `Remove` makes the
second key of the leaf the key before it in the parent, and looks for the key in
the leaf only then. That is right if the first entry goes. If the key is not
there the first entry stays, below the key that the parent now has for its leaf,
and searches for it end in the leaf before.

So a key that is not there can be removed without loss unless it lies in a gap
(`KeyTree.InGap`): not below the key that the parent has for a leaf, but below
all entries of the leaf. The key of a first child is not looked at, so there is
no such gap before it. Gaps come from removals, as the key in a parent may be
that of an entry that is gone.
-/

/-- A key in a gap: not below the key before a leaf, but below the entries of the
leaf, which is not the first child of its parent. -/
def KeyTree.InGap {ι K V : Type} [LinearOrder K] {n : ℕ} (t : KeyTree ι K V n) (key : K) : Prop :=
  ∃ (C : Context ι K V 1 n) (i : ι) (A : List (K × KeyTree ι K V 0)) (k : K) (l : KeyTree ι K V 0)
    (B : List (K × KeyTree ι K V 0)), t = C.fill (node i (A ++ (k, l) :: B)) ∧ A ≠ [] ∧ k ≤ key ∧
      ∀ e ∈ l.entries, key < e.1

namespace MiniSql

variable {K V : Type} [LinearOrder K]

/-- `RemoveAndDeleteRecord` of a key that is not in the leaf. -/
theorem LeafPage.removeAndDeleteRecord_of_absent {p : LeafPage K V} {key : K}
    (h : ∀ v, (key, v) ∉ p.array) : p.removeAndDeleteRecord key = p := by
  unfold removeAndDeleteRecord
  split
  · rfl
  · rename_i e he
    refine if_neg (fun hkey => h e.2 ?_)
    exact hkey ▸ List.mem_of_getElem? he

namespace BPlusTree

open KeyTree

/-- A tree in which no page but the root is below its minimum size. -/
def Balanced (cfg : TreeConfig) (s : BPlusTree K V) : Contents K V → Prop
  | .empty => s.rootPageId = invalidPageId
  | .tree t => (∃ next, Holds cfg s t next) ∧ SizedBut cfg.bounds [t.id] t

/-- A key in a gap, which an empty tree does not have. -/
def Contents.InGap : Contents K V → K → Prop
  | .empty, _ => False
  | .tree t, key => t.InGap key

/-- `Remove` ends, and `GetValue` answers as before. -/
def RemovesNothing (s : BPlusTree K V) (key : K) : Prop :=
  ∃ s', s.remove key = some s' ∧ ∀ key', s'.getValue key' = s.getValue key'

variable {n : ℕ} {cfg : TreeConfig} {s : BPlusTree K V} {t : PageTree K V n} {next : PageId}
  {key : K}

section Remove

variable {leaf : LeafPage K V}

/-- `Remove` of a key that is not there, where the search does not end at the
first place of a leaf with a parent. -/
theorem remove_of_keyIndex_ne (hvalid : s.rootPageId ≠ invalidPageId)
    (hfind : s.findLeafPage key false = some leaf) (habsent : ∀ v, (key, v) ∉ leaf.array)
    (hpage : s.pages leaf.pageId = some (.leaf leaf))
    (hsize : (BPlusTreePage.leaf leaf).minSize ≤ leaf.size)
    (hplace : ¬ (leaf.keyIndex key = 0 ∧ leaf.parentPageId ≠ invalidPageId)) :
    s.remove key = some s := by
  have hempty : s.isEmpty = false := decide_eq_false hvalid
  unfold remove
  rw [hempty, if_neg Bool.false_ne_true, Option.bind_eq_bind, hfind, Option.bind_some]
  simp only [LeafPage.removeAndDeleteRecord_of_absent habsent]
  rw [if_neg hplace, Option.bind_eq_bind, Option.bind_some, if_neg (not_lt.mpr hsize),
    write_self (p := .leaf leaf) hpage]

/-- `Remove` of a key that is not there, where the search ends at the first place
of a leaf with a parent. -/
theorem remove_of_keyIndex_eq {parent parent' : InternalPage K} {index : ℕ} {second : K}
    (hvalid : s.rootPageId ≠ invalidPageId) (hfind : s.findLeafPage key false = some leaf)
    (habsent : ∀ v, (key, v) ∉ leaf.array) (hpage : s.pages leaf.pageId = some (.leaf leaf))
    (hsize : (BPlusTreePage.leaf leaf).minSize ≤ leaf.size) (hplace : leaf.keyIndex key = 0)
    (hparent : leaf.parentPageId ≠ invalidPageId)
    (hfetch : s.fetchInternal leaf.parentPageId = some parent)
    (hindex : parent.valueIndex leaf.pageId = some index) (hsecond : leaf.keyAt 1 = some second)
    (hset : parent.setKeyAt index second = some parent') (hne : leaf.pageId ≠ parent'.pageId) :
    s.remove key = some (s.write (.internal parent')) := by
  have hempty : s.isEmpty = false := decide_eq_false hvalid
  have hpage' : (s.write (.internal parent')).pages leaf.pageId = some (.leaf leaf) :=
    (Function.update_of_ne hne ..).trans hpage
  unfold remove
  rw [hempty, if_neg Bool.false_ne_true, Option.bind_eq_bind, hfind, Option.bind_some]
  simp only [LeafPage.removeAndDeleteRecord_of_absent habsent, Option.bind_eq_bind]
  rw [if_pos ⟨hplace, hparent⟩, hfetch, Option.bind_some, hindex, Option.bind_some, hsecond,
    Option.bind_some, hset, Option.bind_some, Option.bind_some, if_neg (not_lt.mpr hsize),
    write_self (p := .leaf leaf) hpage']

end Remove

/-! ## A leaf and its parent -/

section Child

variable {C : Context PageId K V 1 n} {i : PageId} {A B : List (K × PageTree K V 0)} {k : K}
  {l : PageTree K V 0}

/-- The page of the leaf. -/
theorem Holds.page_child (h : Holds cfg s (C.fill (node i (A ++ (k, l) :: B))) next) :
    s.pages l.id = some (.leaf ⟨l.id, i, firstOf B (holeNext C next), cfg.leafMaxSize,
      l.entries⟩) :=
  (storedIn_append.mp (stored_node.mp h.stored.hole).2).2.1

/-- **The search for a key within the bounds of the leaf.** -/
theorem Holds.findLeafPage_child (h : Holds cfg s (C.fill (node i (A ++ (k, l) :: B))) next)
    (hkey : Within (start A k (C.lower ⊥)) (stop B (C.upper ⊤)) key) :
    s.findLeafPage key false = some ⟨l.id, i, firstOf B (holeNext C next), cfg.leafMaxSize,
      l.entries⟩ := by
  obtain ⟨l', leaf, hfind, hpage, -, -, hway, -⟩ := h.searchable.findLeafPage_eq key
  have hroutes : Routes (fun lo hi => Within lo hi key) (C.fill (node i (A ++ (k, l) :: B))) l
      ⊥ ⊤ := Routes.fill (C := C) ⟨A, (k, l), B, rfl, rfl, hkey⟩
  obtain rfl : l = l' := (hway l).mp hroutes
  have hl := h.page_child
  have hid : KeyTree.id l = Leaf.id l := rfl
  rw [hid, hpage] at hl
  cases hl
  exact hfind

/-- The entries of the leaf are in order and within its bounds. -/
theorem Holds.spread_child (h : Holds cfg s (C.fill (node i (A ++ (k, l) :: B))) next) :
    Spread l.entries (start A k (C.lower ⊥)) (stop B (C.upper ⊤)) := by
  have hnode : OrderedIn Ordered (A ++ (k, l) :: B) (C.lower ⊥) (C.upper ⊤) := h.ordered.hole
  exact (orderedIn_focus.mp hnode).2.1.spread

omit [LinearOrder K] in
/-- A leaf below the root has the minimum size. -/
theorem le_size_child (hnodup : (C.fill (node i (A ++ (k, l) :: B))).ids.Nodup)
    (hsized : SizedBut cfg.bounds [(C.fill (node i (A ++ (k, l) :: B))).id]
      (C.fill (node i (A ++ (k, l) :: B)))) : cfg.leafMaxSize / 2 ≤ l.entries.length := by
  have hnode : SizedBut cfg.bounds [(C.fill (node i (A ++ (k, l) :: B))).id]
      (node i (A ++ (k, l) :: B)) := hsized.hole
  refine (hnode.2 (k, l) (List.mem_append_right A List.mem_cons_self)).1.resolve_left (fun hc => ?_)
  have hl : l.id ∈ idsIn (A ++ (k, l) :: B) :=
    List.mem_flatMap.mpr ⟨(k, l), List.mem_append_right A List.mem_cons_self, l.id_mem_ids⟩
  have hnot := C.id_fill_notMem_below hnodup
  rw [← List.mem_singleton.mp hc] at hnot
  exact hnot hl

omit [LinearOrder K] in
/-- A leaf below the root has two entries. -/
theorem exists_two (hleaf : 4 ≤ cfg.leafMaxSize)
    (hnodup : (C.fill (node i (A ++ (k, l) :: B))).ids.Nodup)
    (hsized : SizedBut cfg.bounds [(C.fill (node i (A ++ (k, l) :: B))).id]
      (C.fill (node i (A ++ (k, l) :: B)))) : ∃ f g es, l.entries = f :: g :: es := by
  have htwo : 2 ≤ l.entries.length :=
    (Nat.div_le_div_right (c := 2) hleaf).trans (le_size_child hnodup hsized)
  match hentries : l.entries, htwo with
  | f :: g :: es, _ => exact ⟨f, g, es, rfl⟩

omit [LinearOrder K] in
/-- A leaf with a parent has another id. -/
theorem id_ne_child (hnodup : (C.fill (node i (A ++ (k, l) :: B))).ids.Nodup) : l.id ≠ i := by
  have hi : i ∉ idsIn (A ++ (k, l) :: B) :=
    (List.nodup_cons.mp (C.nodup_fill.mp hnodup).2.1).1
  exact fun e => hi (e ▸ List.mem_flatMap.mpr
    ⟨(k, l), List.mem_append_right A List.mem_cons_self, l.id_mem_ids⟩)

/-- The key before the leaf in its parent is another one. -/
def rekeyed (cfg : TreeConfig) (s : BPlusTree K V) (C : Context PageId K V 1 n) (i : PageId)
    (A : List (K × PageTree K V 0)) (k : K) (l : PageTree K V 0) (B : List (K × PageTree K V 0))
    (next : PageId) : BPlusTree K V :=
  s.write (rootPage cfg (node i (A ++ (k, l) :: B)) (holeParent C invalidPageId) (holeNext C next))

/-- **`Remove` of an absent key that ends at the leaf**: nothing is done, or the
second key of the leaf is put before it. -/
theorem remove_child (h : Holds cfg s (C.fill (node i (A ++ (k, l) :: B))) next)
    (hsized : SizedBut cfg.bounds [(C.fill (node i (A ++ (k, l) :: B))).id]
      (C.fill (node i (A ++ (k, l) :: B))))
    (hkey : Within (start A k (C.lower ⊥)) (stop B (C.upper ⊤)) key)
    (habsent : ∀ v, (key, v) ∉ l.entries) :
    ((∃ e ∈ l.entries, e.1 < key) → s.remove key = some s) ∧
      ∀ f g es, l.entries = f :: g :: es → key < f.1 →
        s.remove key = some (rekeyed cfg s C i A g.1 l B next) := by
  have hfind := h.findLeafPage_child hkey
  have hpage := h.page_child
  have hvalid := h.searchable.valid
  have hi : i ≠ invalidPageId := fun hc =>
    h.valid (C.mem_ids_fill.mpr (.inr (hc ▸ List.mem_cons_self)))
  have hsize : (BPlusTreePage.leaf (⟨l.id, i, firstOf B (holeNext C next), cfg.leafMaxSize,
      l.entries⟩ : LeafPage K V)).minSize ≤ l.entries.length := by
    rw [BPlusTreePage.minSize, if_neg (by
      rw [BPlusTreePage.isRootPage]
      exact fun hc => hi (of_decide_eq_true hc))]
    exact le_size_child h.nodup hsized
  have hplace := (LeafPage.keyIndex_exact (p := ⟨l.id, i, firstOf B (holeNext C next),
    cfg.leafMaxSize, l.entries⟩) h.spread_child.2.1 key).2
  refine ⟨fun ⟨e, he, hlt⟩ => ?_, fun f g es hentries hlt => ?_⟩
  · refine remove_of_keyIndex_ne hvalid hfind habsent hpage hsize (fun hc => ?_)
    obtain ⟨j, hj⟩ := List.mem_iff_getElem?.mp he
    have hpos := (hplace j e hj).mpr hlt
    rw [hc.1] at hpos
    exact Nat.not_lt_zero _ hpos
  · have hfetch := h.stored.hole.fetchInternal
    have hcs : (idsIn (A ++ (k, l) :: B)).Nodup :=
      (List.nodup_cons.mp (C.nodup_fill.mp h.nodup).2.1).2
    have hset := setKeyAt_child (A := A) (B := B) (c := (k, l)) (p := ⟨i, holeParent C
      invalidPageId, cfg.internalMaxSize, (A ++ (k, l) :: B).map (fun c => (c.1, c.2.id))⟩) rfl g.1
    refine remove_of_keyIndex_eq hvalid hfind habsent hpage hsize ?_ hi hfetch
      (valueIndex_child rfl hcs) ?_ hset (id_ne_child h.nodup)
    · by_contra hne
      have hfirst : (⟨l.id, i, firstOf B (holeNext C next), cfg.leafMaxSize, l.entries⟩ :
          LeafPage K V).array[0]? = some f := by
        show l.entries[0]? = some f
        rw [hentries]
        rfl
      exact absurd ((hplace 0 f hfirst).mp (Nat.pos_of_ne_zero hne)) (not_lt.mpr hlt.le)
    · show l.entries[1]?.map Prod.fst = some g.1
      rw [hentries]
      rfl

omit [LinearOrder K] in
/-- The entries of the leaf are entries of its parent. -/
theorem mem_entries_of_child {e : K × V} (he : e ∈ l.entries) :
    e ∈ (node i (A ++ (k, l) :: B)).entries :=
  List.mem_flatMap.mpr ⟨_, List.mem_append_right A List.mem_cons_self, he⟩

/-- **A first entry is lost** if the second key of its leaf is put before the leaf,
which is not the first child. -/
theorem getValue_rekeyed_ne (h : Holds cfg s (C.fill (node i (A ++ (k, l) :: B))) next)
    (hA : A ≠ []) {f g : K × V} {es : List (K × V)} (hentries : l.entries = f :: g :: es) :
    (rekeyed cfg s C i A g.1 l B next).getValue f.1 ≠ s.getValue f.1 := by
  have hf : f ∈ l.entries := hentries ▸ List.mem_cons_self
  have hmem : f ∈ (node i (A ++ (k, l) :: B)).entries := mem_entries_of_child hf
  have hkey := h.ordered.hole.spread.2.2 f hmem
  have hfg : f.1 < g.1 := by
    have hsorted := h.spread_child.2.1
    rw [hentries] at hsorted
    exact (List.pairwise_cons.mp hsorted).1 g List.mem_cons_self
  obtain ⟨found, hfound, hvalue⟩ := h.getValue_eq_some f.1
  have hin : (f.1, f.2) ∈ (C.fill (node i (A ++ (k, l) :: B))).entries := by
    rw [C.entries_fill]
    exact List.mem_append_right _ (List.mem_append_left _ hmem)
  rw [hfound, (hvalue f.2).mpr hin]
  intro hv
  have hsnd : (A ++ (g.1, l) :: B).map Prod.snd = (A ++ (k, l) :: B).map Prod.snd := by
    simp only [List.map_append, List.map_cons]
  have hstored := h.stored.rekey h.nodup hsnd
  have hid : (node i (A ++ (g.1, l) :: B)).id = (node i (A ++ (k, l) :: B)).id := rfl
  obtain ⟨rounds, leaf, hfind, hlookup⟩ := exists_found_of_getValue
    (s := rekeyed cfg s C i A g.1 l B next) ((Context.id_fill hid C).trans h.root) hid hstored
    h.ordered.separated hkey h.height_lt hv
  have hentries' : (node i (A ++ (g.1, l) :: B)).entries = (node i (A ++ (k, l) :: B)).entries := by
    simp only [entries_node, List.flatMap_append, List.flatMap_cons]
  obtain ⟨hchild, -⟩ := lookup_of_found hstored.hole (hentries' ▸ h.ordered.hole.spread.2.1)
    (List.mem_append_right A List.mem_cons_self) hf hfind hlookup
  have hcs' : (idsIn (A ++ (g.1, l) :: B)).Nodup := by
    rw [idsIn_of_snd hsnd]
    exact (List.nodup_cons.mp (C.nodup_fill.mp h.nodup).2.1).2
  exact absurd hfg (not_lt.mpr (key_le_of_lookup (p := ⟨i, i, 0, _⟩) rfl hcs' hA (hchild _ rfl)))

end Child

/-! ## Every tree -/

/-- The leaf that the search ends at. -/
theorem Holds.exists_leaf (h : Holds cfg s t next) (key : K) :
    ∃ (l : PageTree K V 0) (leaf : LeafPage K V), s.findLeafPage key false = some leaf ∧
      s.pages l.id = some (.leaf leaf) ∧ leaf.array = l.entries ∧
      Routes (fun lo hi => Within lo hi key) t l ⊥ ⊤ := by
  obtain ⟨l, leaf, hfind, hpage, harray, -, hway, -⟩ := h.searchable.findLeafPage_eq key
  exact ⟨l, leaf, hfind, hpage, harray, (hway l).mpr rfl⟩

/-- **No gap, no loss**, in a tree that is not empty: it is as documented again, with
the same entries. -/
theorem Holds.exists_remove_of_not_inGap (hleaf : 4 ≤ cfg.leafMaxSize) (h : Holds cfg s t next)
    (hsized : SizedBut cfg.bounds [t.id] t) (habsent : ∀ v, (key, v) ∉ t.entries)
    (hgap : ¬ t.InGap key) : ∃ s', ∃ t' : PageTree K V n, s.remove key = some s' ∧
      Holds cfg s' t' next ∧ t'.entries = t.entries := by
  obtain ⟨l, leaf, hfind, hpage, harray, hroutes⟩ := h.exists_leaf key
  cases n with
  | zero =>
    -- the root is the leaf
    obtain rfl : t = l := hroutes.1
    have hroot := h.stored.root
    rw [hpage] at hroot
    cases hroot
    refine ⟨s, t, remove_of_keyIndex_ne h.searchable.valid hfind habsent hpage ?_ ?_, h, rfl⟩
    · exact List.length_pos_of_ne_nil h.ordered.1
    · exact fun hc => hc.2 rfl
  | succ n =>
    obtain ⟨C, i, A, k, B, rfl, hkey⟩ := hroutes.exists_parent
    have habsent' : ∀ v, (key, v) ∉ l.entries := fun v hv => by
      refine habsent v ?_
      rw [C.entries_fill]
      exact List.mem_append_right _ (List.mem_append_left _ (mem_entries_of_child hv))
    obtain ⟨hstay, hrekey⟩ := remove_child h hsized hkey habsent'
    by_cases hbelow : ∃ e ∈ l.entries, e.1 < key
    · exact ⟨s, _, hstay hbelow, h, rfl⟩
    · have habove : ∀ e ∈ l.entries, key < e.1 := fun e he =>
        lt_of_le_of_ne (not_lt.mp (fun hlt => hbelow ⟨e, he, hlt⟩))
          (fun hc => habsent' e.2 (hc ▸ he))
      obtain rfl : A = [] := by
        by_contra hA
        obtain ⟨a, A, rfl⟩ := List.exists_cons_of_ne_nil hA
        exact hgap ⟨C, i, a :: A, k, l, B, rfl, hA, WithBot.coe_le_coe.mp hkey.1, habove⟩
      obtain ⟨f, g, es, hentries⟩ := exists_two hleaf h.nodup hsized
      have hord : OrderedIn Ordered ((k, l) :: B) (C.lower ⊥) (C.upper ⊤) := h.ordered.hole
      have hord' : OrderedIn Ordered ((g.1, l) :: B) (C.lower ⊥) (C.upper ⊤) := by
        rw [orderedIn_cons] at hord ⊢
        exact hord
      have hsnd : ((g.1, l) :: B).map Prod.snd = ((k, l) :: B).map Prod.snd := rfl
      refine ⟨_, _, hrekey f g es hentries (habove f (hentries ▸ List.mem_cons_self)),
        h.rekey hsnd hord', ?_⟩
      rw [C.entries_fill, C.entries_fill]
      rfl

/-- **Removing a key that is not there**: `Remove` ends, and every `GetValue`
answers as before, if and only if the key is not in a gap, that is, if there is no
leaf, other than the first child of its parent, whose key in the parent is not
above the key while all its entries are. -/
theorem removesNothing_iff {contents : Contents K V} (hleaf : 4 ≤ cfg.leafMaxSize)
    (h : s.Balanced cfg contents) (habsent : ∀ v, (key, v) ∉ contents.entries) :
    s.RemovesNothing key ↔ ¬ contents.InGap key := by
  cases contents with
  | empty =>
    have hempty : s.isEmpty = true := decide_eq_true h
    refine iff_of_true ⟨s, ?_, fun _ => rfl⟩ not_false
    rw [remove, hempty, if_pos rfl]
  | tree t =>
    obtain ⟨⟨next, h⟩, hsized⟩ := h
    have hkeeps : ¬ t.InGap key → s.RemovesNothing key := fun hgap => by
      obtain ⟨s', t', hrun, h', hentries⟩ :=
        h.exists_remove_of_not_inGap hleaf hsized habsent hgap
      exact ⟨s', hrun, h.getValue_eq h' hentries⟩
    refine ⟨?_, hkeeps⟩
    rintro ⟨s', hrun, hsame⟩ ⟨C, i, A, k, l, B, rfl, hA, hk, habove⟩
    obtain ⟨f, g, es, hentries⟩ := exists_two hleaf h.nodup hsized
    have hf : f ∈ l.entries := hentries ▸ List.mem_cons_self
    have hkey : Within (start A k (C.lower ⊥)) (stop B (C.upper ⊤)) key := by
      refine ⟨?_, (WithTop.coe_lt_coe.mpr (habove f hf)).trans (h.spread_child.2.2 f hf).2⟩
      obtain ⟨a, A, rfl⟩ := List.exists_cons_of_ne_nil hA
      exact WithBot.coe_le_coe.mpr hk
    have habsent' : ∀ v, (key, v) ∉ l.entries := fun v hv =>
      lt_irrefl key (habove (key, v) hv)
    rw [(remove_child h hsized hkey habsent').2 f g es hentries (habove f hf)] at hrun
    cases hrun
    exact getValue_rekeyed_ne h hA hentries (hsame f.1)

/-- Two leaves below a page. The key before the second one is that of an entry that
is gone. -/
def gapTree : PageTree ℕ ℕ 1 :=
  node 4 [(0, leaf 2 [(1, 10), (2, 20)]), (3, leaf 3 [(5, 50), (6, 60)])]

theorem balanced_gapTree : Balanced (.above 4 4) (ofTree (.above 4 4) gapTree 0) (.tree gapTree) :=
  ⟨⟨0, rfl, stored_ofTree (by decide) 0, by decide, fun _ hp => hp, by decide, by decide,
    fun _ => le_rfl⟩, by decide⟩

theorem absent_gapTree {key : ℕ} (h : key ∉ gapTree.entries.map Prod.fst) (v : ℕ) :
    (key, v) ∉ gapTree.entries := fun hv => h (List.mem_map_of_mem hv)

/-- A key above all others is removed without loss. -/
theorem removesNothing_iff_gapTree : (ofTree (.above 4 4) gapTree 0).RemovesNothing 9 := by
  refine (removesNothing_iff (by decide) balanced_gapTree (absent_gapTree (by decide))).mpr ?_
  rintro ⟨C, i, A, k, l, B, hfill, hA, -, hbelow⟩
  cases C with
  | hole =>
    have hchildren : [((0 : ℕ), (leaf 2 [(1, 10), (2, 20)] : PageTree ℕ ℕ 0)),
        (3, leaf 3 [(5, 50), (6, 60)])] = A ++ (k, l) :: B := congrArg Node.children hfill
    cases A with
    | nil => exact hA rfl
    | cons x A =>
      cases A with
      | nil =>
        cases hchildren
        exact absurd (hbelow (5, 50) List.mem_cons_self) (by decide)
      | cons y A => cases A <;> cases hchildren
  | node i A k C B => cases C

/-- **A key in the gap is removed with loss**: the first entry of the second leaf is
no longer found. -/
theorem not_removesNothing : Balanced (.above 4 4) (ofTree (.above 4 4) gapTree 0)
      (.tree gapTree) ∧ (∀ v, (4, v) ∉ gapTree.entries) ∧
    (ofTree (.above 4 4) gapTree 0).getValue 5 = some (some 50) ∧
    ((ofTree (.above 4 4) gapTree 0).remove 4).bind (fun s => s.getValue 5) = some none ∧
    ¬ (ofTree (.above 4 4) gapTree 0).RemovesNothing 4 := by
  have hbefore : (ofTree (.above 4 4) gapTree 0).getValue 5 = some (some 50) := by decide
  have hafter : ((ofTree (.above 4 4) gapTree 0).remove 4).bind (fun s => s.getValue 5) =
      some none := by decide
  refine ⟨balanced_gapTree, absent_gapTree (by decide), hbefore, hafter, ?_⟩
  rintro ⟨s', hrun, hsame⟩
  rw [hrun, Option.bind_some, hsame 5, hbefore] at hafter
  cases hafter

end BPlusTree

end MiniSql
