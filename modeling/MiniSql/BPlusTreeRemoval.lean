import MiniSql.BPlusTreeRedistribute
import MiniSql.BPlusTreeRemoveAbsent
import MiniSql.BPlusTreeShrink

/-!
# Removing a key that is there

`Remove` takes the entry out of its leaf and, where it was the first one,
puts the second key of the leaf before the leaf in its parent
(`KeyTree.Without`). A leaf that is short then is put together with its
sibling, or gets an entry from it; in the first case its parent may be short,
and so on up to the root (`KeyTree.Shortens`).

Every tree on the way is in order again, up to the first page that is given
something by its sibling. There the tree stays in order if that page is a leaf,
or the parent of leaves with its last key within its bounds
(`KeyTree.BorrowsWell`), and this is the condition under which a removal ends
with the tree as documented, without the key and with all the others
(`Shaped.exists_remove_of_mem`).
-/

namespace KeyTree

variable {ι K V : Type} {n : ℕ}

/-- **The removal of an entry from its leaf**: the hole of the leaf, with the key that is
before it then, and the leaf with the other entries. -/
inductive Without (key : K) (t : KeyTree ι K V n) : Context ι K V 0 n → KeyTree ι K V 0 → Prop
  /-- The first entry of a leaf with a parent. -/
  | first {D : Context ι K V 1 n} {i j : ι} {A B : List (K × KeyTree ι K V 0)} {k : K} {v : V}
      {e : K × V} {es : List (K × V)} :
      t = D.fill (node i (A ++ (k, leaf j ((key, v) :: e :: es)) :: B)) →
      Without key t (D.inner i A e.1 B) (leaf j (e :: es))
  /-- Another entry, or the first one of a leaf that is the root. -/
  | later {C : Context ι K V 0 n} {j : ι} {P Q : List (K × V)} {v : V} :
      t = C.fill (leaf j (P ++ (key, v) :: Q)) → (P = [] → n = 0) →
      Without key t C (leaf j (P ++ Q))

/-- **The pages that get short** by the removal of an entry, each in the tree that there is by
then: the leaf, and then the parent of two pages that have been put together. -/
inductive Shortens (b : Bounds) (key : K) (t : KeyTree ι K V n) :
    {m : ℕ} → Context ι K V m n → KeyTree ι K V m → Prop
  /-- The leaf. -/
  | entry {C : Context ι K V 0 n} {l : KeyTree ι K V 0} :
      Without key t C l → l.size < b.min 0 → Shortens b key t C l
  /-- The parent of a page that goes into the one before it. -/
  | second {m : ℕ} {D : Context ι K V (m + 1) n} {i : ι} {P B : List (K × KeyTree ι K V m)}
      {k₁ k : K} {l x : KeyTree ι K V m} :
      Shortens b key t (D.inner i (P ++ [(k₁, l)]) k B) x → l.size + x.size ≤ b.max m →
      (P ++ (k₁, merge k l x) :: B).length < b.min (m + 1) →
      Shortens b key t D (node i (P ++ (k₁, merge k l x) :: B))
  /-- The parent of a page without one before it, into which the one after it goes. -/
  | first {m : ℕ} {D : Context ι K V (m + 1) n} {i : ι} {B : List (K × KeyTree ι K V m)}
      {k₁ k : K} {x r : KeyTree ι K V m} :
      Shortens b key t (D.inner i [] k₁ ((k, r) :: B)) x → x.size + r.size ≤ b.max m →
      ([] ++ (k₁, merge k x r) :: B).length < b.min (m + 1) →
      Shortens b key t D (node i ([] ++ (k₁, merge k x r) :: B))

variable [LinearOrder K]

/-- **A short page that does not fit in one page with its sibling** is a leaf or the parent
of leaves, and if it is a parent of leaves and a first child, its last key is within its
bounds. -/
def BorrowsWell (b : Bounds) (key : K) (t : KeyTree ι K V n) : Prop :=
  ∀ (m : ℕ) (D : Context ι K V (m + 1) n) (i : ι) (A : List (K × KeyTree ι K V m)) (k : K)
    (B : List (K × KeyTree ι K V m)) (x : KeyTree ι K V m),
    Shortens b key t (D.inner i A k B) x →
    (∀ (P : List (K × KeyTree ι K V m)) (k₁ : K) (l : KeyTree ι K V m), A = P ++ [(k₁, l)] →
      b.max m < l.size + x.size → m ≤ 1) ∧
    ∀ (k₂ : K) (r : KeyTree ι K V m) (Q : List (K × KeyTree ι K V m)), A = [] → B = (k₂, r) :: Q →
      b.max m < x.size + r.size →
        m ≤ 1 ∧ (m = 1 → ∀ k' ∈ x.lastKey, Within (D.lower ⊥) k₂ k')

section Without

variable {key : K} {t : KeyTree ι K V n} {C : Context ι K V 0 n} {l : KeyTree ι K V 0}

/-- **All entries but the one are there.** -/
theorem Without.mem_entries (h : Without key t C l) (ho : Ordered t ⊥ ⊤) (e : K × V) :
    e ∈ (C.fill l).entries ↔ e ∈ t.entries ∧ e.1 ≠ key := by
  obtain ⟨X, Y, v, ht, hfill⟩ : ∃ X Y v, t.entries = X ++ (key, v) :: Y ∧
      (C.fill l).entries = X ++ Y := by
    cases h with
    | @first D i j A B k v f es ht =>
      refine ⟨D.left.flatMap Leaf.entries ++ A.flatMap (fun c => c.2.entries), (f :: es) ++
        B.flatMap (fun c => c.2.entries) ++ D.right.flatMap Leaf.entries, v, ?_, ?_⟩
      · rw [ht, D.entries_fill]
        simp only [entries_node, List.flatMap_append, List.flatMap_cons, entries_leaf,
          List.append_assoc, List.cons_append]
      · rw [Context.fill_inner, D.entries_fill]
        simp only [entries_node, List.flatMap_append, List.flatMap_cons, entries_leaf,
          List.append_assoc, List.cons_append]
    | @later C j P Q v ht hP =>
      refine ⟨C.left.flatMap Leaf.entries ++ P, Q ++ C.right.flatMap Leaf.entries, v, ?_, ?_⟩
      · rw [ht, C.entries_fill]
        simp only [entries_leaf, List.append_assoc, List.cons_append]
      · rw [C.entries_fill]
        simp only [entries_leaf, List.append_assoc]
  have hsorted := ho.spread.2.1
  rw [ht] at hsorted
  obtain ⟨-, hright, hleft⟩ := List.pairwise_append.mp hsorted
  rw [ht, hfill, List.mem_append, List.mem_append, List.mem_cons]
  constructor
  · rintro (he | he)
    · exact ⟨.inl he, (hleft e he (key, v) List.mem_cons_self).ne⟩
    · exact ⟨.inr (.inr he), ((List.pairwise_cons.mp hright).1 e he).ne'⟩
  · rintro ⟨he | rfl | he, hne⟩
    · exact .inl he
    · exact absurd rfl hne
    · exact .inr he

/-- **The tree is in order** if the leaf has an entry left. -/
theorem Without.ordered (h : Without key t C l) (ho : Ordered t ⊥ ⊤) (hne : l.entries ≠ []) :
    Ordered (C.fill l) ⊥ ⊤ := by
  cases h with
  | @first D i j A B k v e es ht =>
    rw [ht] at ho
    have hnode : OrderedIn Ordered (A ++ (k, leaf j ((key, v) :: e :: es)) :: B) (D.lower ⊥)
      (D.upper ⊤) := ho.hole
    obtain ⟨hbefore, hl, hafter⟩ := orderedIn_focus.mp hnode
    obtain ⟨-, hsorted, hwithin⟩ : Spread ((key, v) :: e :: es) _ _ := hl
    obtain ⟨hhead, hsorted⟩ := List.pairwise_cons.mp hsorted
    have hlt : key < e.1 := hhead e List.mem_cons_self
    have hke : (start A k (D.lower ⊥)) ≤ ((key : K) : WithBot K) :=
      (hwithin _ List.mem_cons_self).1
    rw [Context.fill_inner]
    refine ho.refill (orderedIn_focus.mpr ⟨?_, ⟨List.cons_ne_nil _ _, hsorted, ?_⟩, hafter⟩)
    · refine hbefore.imp_right (fun hA => ?_)
      obtain ⟨a, A, rfl⟩ := List.exists_cons_of_ne_nil hA.ne_nil
      have hle : k ≤ key := WithBot.coe_le_coe.mp hke
      exact hA.mono (fun t lo hi lo' hi' hlo hhi ht => ht.rebound (fun f hf =>
        ⟨hlo.trans (ht.spread.2.2 f hf).1, (ht.spread.2.2 f hf).2.trans_le hhi⟩)) le_rfl
        (WithTop.coe_le_coe.mpr (hle.trans hlt.le))
    · intro f hf
      have hf' := hwithin f (List.mem_cons_of_mem _ hf)
      refine ⟨?_, hf'.2⟩
      cases A with
      | nil => exact hf'.1
      | cons a A =>
        refine WithBot.coe_le_coe.mpr ?_
        rcases List.mem_cons.mp hf with rfl | hf
        · exact le_rfl
        · exact ((List.pairwise_cons.mp hsorted).1 f hf).le
  | @later C j P Q v ht hP =>
    rw [ht] at ho
    obtain ⟨-, hsorted, hwithin⟩ : Spread (P ++ (key, v) :: Q) _ _ := ho.hole
    have hsub : (P ++ Q).Sublist (P ++ (key, v) :: Q) :=
      List.Sublist.append_left (List.sublist_cons_self _ _) P
    exact ho.refill ⟨hne, hsorted.sublist hsub, fun f hf => hwithin f (hsub.subset hf)⟩

end Without

/-- In a tree of two levels only leaves are given something. -/
theorem borrowsWell_of_height_le {b : Bounds} {key : K} {t : KeyTree ι K V n} (hn : n ≤ 1) :
    BorrowsWell b key t := by
  intro m D i A k B x _
  have hm : m = 0 := by
    have := D.le_height
    omega
  exact ⟨fun _ _ _ _ _ => by omega, fun _ _ _ _ _ _ => ⟨by omega, fun hone => by omega⟩⟩

end KeyTree

namespace MiniSql

variable {K V : Type} [LinearOrder K]

/-- **`RemoveAndDeleteRecord`** of a key that is there. -/
theorem LeafPage.removeAndDeleteRecord_of_mem {p : LeafPage K V} {P Q : List (K × V)} {key : K}
    {v : V} (harray : p.array = P ++ (key, v) :: Q)
    (hsorted : p.array.Pairwise (fun e f => e.1 < f.1)) : p.keyIndex key = P.length ∧
      p.removeAndDeleteRecord key = { p with array := P ++ Q } := by
  obtain ⟨A, B, heq, hlength, hA, hB⟩ := LeafPage.keyIndex_spec hsorted key
  have hat : p.array[P.length]? = some (key, v) := by
    rw [harray, List.getElem?_append_right le_rfl, Nat.sub_self]
    rfl
  have hexact := (LeafPage.keyIndex_exact hsorted key).2
  have hindex : p.keyIndex key = P.length := by
    have hle : p.keyIndex key ≤ P.length :=
      not_lt.mp (fun hlt => lt_irrefl key ((hexact _ _ hat).mp hlt))
    refine hle.antisymm (not_lt.mp (fun hlt => ?_))
    have hP : p.array[p.keyIndex key]? = some P[p.keyIndex key] := by
      rw [harray, List.getElem?_append_left hlt, List.getElem?_eq_getElem hlt]
    refine lt_irrefl _ ((hexact _ _ hP).mpr ?_)
    rw [harray] at hsorted
    exact (List.pairwise_append.mp hsorted).2.2 _ (List.getElem_mem hlt) _ List.mem_cons_self
  refine ⟨hindex, ?_⟩
  rw [removeAndDeleteRecord, hindex, hat]
  refine (if_pos rfl).trans ?_
  rw [harray, List.eraseIdx_append_of_length_le le_rfl, Nat.sub_self, List.eraseIdx_cons_zero]

namespace BPlusTree

open KeyTree

variable {m n : ℕ} {cfg : TreeConfig} {s s' : BPlusTree K V} {i short next : PageId} {k₁ k key : K}

/-- A tree as documented, with the given entries. -/
def HoldsEntries (cfg : TreeConfig) (s : BPlusTree K V) (es : List (K × V)) (next : PageId) :
    Prop :=
  ∃ (m : ℕ) (t : PageTree K V m), Holds cfg s t next ∧ ∀ e, e ∈ t.entries ↔ e ∈ es

/-- A tree of the documented shape that is in order is as documented. -/
theorem Shaped.holds {t : PageTree K V n} {short : List PageId} (h : Shaped cfg short s t next)
    (ho : Ordered t ⊥ ⊤) (hroot : t.id ∉ short) : Holds cfg s t next where
  root := h.root
  stored := h.stored
  nodup := h.nodup
  allocated := h.allocated
  valid := h.valid
  ordered := ho
  branching hn := by
    obtain ⟨n, rfl⟩ := Nat.exists_eq_succ_of_ne_zero hn.ne'
    exact h.least.resolve_left hroot

/-- The entries are what `GetValue` finds. -/
theorem Holds.mem_entries {t : PageTree K V n} (h : Holds cfg s t next) (e : K × V) :
    e ∈ t.entries ↔ s.getValue e.1 = some (some e.2) := by
  obtain ⟨found, hfound, hvalue⟩ := h.getValue_eq_some e.1
  rw [hfound, Option.some_inj]
  exact (hvalue e.2).symm

/-! ## Going up -/

section Climb

variable {C : Context PageId K V (m + 1) n} {A B : List (K × PageTree K V m)}
  {l r : PageTree K V m} {rounds : ℕ}

omit [LinearOrder K] in
/-- A child is not the root. -/
theorem id_fill_ne_child (hnodup : (C.fill (node i (A ++ (k₁, l) :: (k, r) :: B))).ids.Nodup)
    (hshort : short = l.id ∨ short = r.id) :
    (C.fill (node i (A ++ (k₁, l) :: (k, r) :: B))).id ≠ short := by
  have hnot := C.id_fill_notMem_below hnodup
  intro hc
  rw [hc, below_node, idsIn_append, idsIn_cons, idsIn_cons] at hnot
  refine hnot (List.mem_append_right _ ?_)
  rcases hshort with rfl | rfl
  · exact List.mem_append_left _ l.id_mem_ids
  · exact List.mem_append_right _ (List.mem_append_left _ r.id_mem_ids)

/-- **A page that is given something by its sibling** ends the way up. -/
theorem Shaped.exists_redistribute (hnext : next ≠ invalidPageId)
    (h : Shaped cfg [short] s (C.fill (node i (A ++ (k₁, l) :: (k, r) :: B))) next)
    (ho : Ordered (C.fill (node i (A ++ (k₁, l) :: (k, r) :: B))) ⊥ ⊤)
    (hshort : (short = r.id ∧ r.size + 1 = cfg.bounds.min m ∧ 1 ≤ r.size) ∨
      (short = l.id ∧ A = [] ∧ l.size + 1 = cfg.bounds.min m ∧ 1 ≤ l.size))
    (hfull : cfg.bounds.max m < l.size + r.size) (hlow : m ≤ 1)
    (hlast : short = l.id → m = 1 → ∀ k' ∈ l.lastKey, Within (C.lower ⊥) k k') (rounds : ℕ) :
    ∃ s', coalesceOrRedistribute (rounds + 1) s short = some s' ∧
      HoldsEntries cfg s' (C.fill (node i (A ++ (k₁, l) :: (k, r) :: B))).entries next := by
  have hroot := id_fill_ne_child h.nodup (hshort.elim (fun hs => .inr hs.1) (fun hs => .inl hs.1))
  have hholds := h.holds ho (fun hc => hroot (List.mem_singleton.mp hc))
  have hone : OneShort cfg s C i A k₁ l k r B next short :=
    ⟨hholds, h.outside.2.2, h.sized, hshort, hfull⟩
  have hwithin : short = l.id → ∀ k' ∈ l.lastKey, Within (C.lower ⊥) k k' := fun hs k' hk' => by
    rcases Nat.eq_zero_or_pos m with hm | hm
    · obtain ⟨-, -, hids, -⟩ := nodup_pair hone.nodup
      have hne : short ≠ r.id := fun hc =>
        (List.nodup_append.mp hids).2.2 _ l.id_mem_ids _ r.id_mem_ids (hs.symm.trans hc)
      obtain rfl := (hshort.resolve_left (fun hr => hne hr.1)).2.1
      exact hone.within (.inl hm) k' hk'
    · exact hlast hs (le_antisymm hlow hm) k' hk'
  obtain ⟨s', sibling, hstep, -, hsame, n', t', ht'⟩ :=
    hone.redistributesRight ⟨hlow, hwithin, fun hc => absurd hc hnext⟩
  refine ⟨s', hone.coalesceOrRedistribute_eq hstep rounds, n', t', ht', fun e => ?_⟩
  rw [ht'.mem_entries, hholds.mem_entries, hsame]

/-- **A short page beside another one**: they are put together, and then the page above may
be short, or the other one has enough for both. -/
theorem Shaped.exists_climb_pair (hleaf : 4 ≤ cfg.leafMaxSize) (hinternal : 3 ≤ cfg.internalMaxSize)
    (hnext : next ≠ invalidPageId)
    (h : Shaped cfg [short] s (C.fill (node i (A ++ (k₁, l) :: (k, r) :: B))) next)
    (ho : Ordered (C.fill (node i (A ++ (k₁, l) :: (k, r) :: B))) ⊥ ⊤)
    (hshort : (short = r.id ∧ r.size + 1 = cfg.bounds.min m) ∨
      (short = l.id ∧ A = [] ∧ l.size + 1 = cfg.bounds.min m))
    (hborrow : cfg.bounds.max m < l.size + r.size →
      m ≤ 1 ∧ (short = l.id → m = 1 → ∀ k' ∈ l.lastKey, Within (C.lower ⊥) k k'))
    (hup : l.size + r.size ≤ cfg.bounds.max m → ∀ {s₁ : BPlusTree K V},
      Shaped cfg [i] s₁ (C.fill (node i (A ++ (k₁, merge k l r) :: B))) next →
      Ordered (C.fill (node i (A ++ (k₁, merge k l r) :: B))) ⊥ ⊤ →
      (node i (A ++ (k₁, merge k l r) :: B)).size + 1 = (rootPage cfg
        (node i (A ++ (k₁, merge k l r) :: B)) (holeParent C invalidPageId) next).minSize →
      ∃ s', coalesceOrRedistribute rounds s₁ i = some s' ∧
        HoldsEntries cfg s' (C.fill (node i (A ++ (k₁, merge k l r) :: B))).entries next) :
    ∃ s', coalesceOrRedistribute (rounds + 1) s short = some s' ∧
      HoldsEntries cfg s' (C.fill (node i (A ++ (k₁, l) :: (k, r) :: B))).entries next := by
  have hone : short = l.id ∨ short = r.id := hshort.elim (fun hs => .inr hs.1) (fun hs => .inl hs.1)
  obtain ⟨hl, hr, hmin⟩ :=
    h.sizes_of_short hleaf hinternal (hshort.imp_right (fun hs => ⟨hs.1, hs.2.2⟩))
  by_cases hfit : l.size + r.size ≤ cfg.bounds.max m
  · obtain ⟨s₁, hmerged, hrun⟩ := h.exists_merge hone hl hr hmin hfit
    have hrun := hrun rounds short (hshort.imp And.left (fun hs => ⟨hs.1, hs.2.1⟩))
    have hnode : OrderedIn Ordered (A ++ (k₁, l) :: (k, r) :: B) (C.lower ⊥) (C.upper ⊤) := ho.hole
    have ho' : Ordered (C.fill (node i (A ++ (k₁, merge k l r) :: B))) ⊥ ⊤ :=
      ho.refill hnode.merge
    have hentries : (C.fill (node i (A ++ (k₁, merge k l r) :: B))).entries =
        (C.fill (node i (A ++ (k₁, l) :: (k, r) :: B))).entries := by
      rw [C.entries_fill, C.entries_fill]
      simp only [entries_node, List.flatMap_append, List.flatMap_cons, entries_merge,
        List.append_assoc]
    by_cases hless : (node i (A ++ (k₁, merge k l r) :: B)).size < (rootPage cfg
        (node i (A ++ (k₁, merge k l r) :: B)) (holeParent C invalidPageId) next).minSize
    · obtain ⟨s', hrun', hs'⟩ := hup hfit hmerged ho' (h.size_merged hone hless)
      exact ⟨s', hrun.trans ((if_pos hless).trans hrun'), hentries ▸ hs'⟩
    · refine ⟨s₁, hrun.trans (if_neg hless), n, _, ?_, fun e => by rw [hentries]⟩
      exact Shaped.holds (Shaped.settle (t := node i (A ++ (k₁, merge k l r) :: B)) hmerged
        (not_lt.mp hless)) ho' List.not_mem_nil
  · obtain ⟨hlow, hlast⟩ := hborrow (not_le.mp hfit)
    exact h.exists_redistribute hnext ho (hshort.imp (fun hs => ⟨hs.1, hs.2, hr⟩)
      (fun hs => ⟨hs.1, hs.2.1, hs.2.2, hl⟩)) (not_le.mp hfit) hlow hlast rounds

end Climb

omit [LinearOrder K] in
/-- No page needs more than the pages that are not the root. -/
theorem minSize_le_min (hleaf : 2 ≤ cfg.leafMaxSize) (hinternal : 3 ≤ cfg.internalMaxSize)
    (t : PageTree K V m) (parent after : PageId) :
    (rootPage cfg t parent after).minSize ≤ cfg.bounds.min m := by
  by_cases hroot : parent = invalidPageId
  · rw [hroot, minSize_root]
    exact least_le_min hleaf hinternal m
  · exact (minSize_rootPage hroot t).le

/-- **`CoalesceOrRedistribute`**, at a page that has become short: it ends with the tree as
documented, with the same entries, if every page that is given something by its sibling is
one for which this is right. -/
theorem Shaped.exists_climb (hleaf : 4 ≤ cfg.leafMaxSize) (hinternal : 3 ≤ cfg.internalMaxSize)
    (hnext : next ≠ invalidPageId) {t : PageTree K V n} (hwell : BorrowsWell cfg.bounds key t) :
    {rounds m : ℕ} → {C : Context PageId K V m n} → {x : PageTree K V m} → {s : BPlusTree K V} →
    Shortens cfg.bounds key t C x → Shaped cfg [x.id] s (C.fill x) next →
    Ordered (C.fill x) ⊥ ⊤ →
    x.size + 1 = (rootPage cfg x (holeParent C invalidPageId) next).minSize → n < rounds + m →
    ∃ s', coalesceOrRedistribute rounds s x.id = some s' ∧
      HoldsEntries cfg s' (C.fill x).entries next
  | 0, m, C, _, _, _, _, _, _, hrounds => absurd C.le_height (by omega)
  | rounds + 1, m, C, x, s, hshort, h, ho, hsize, hrounds => by
    have hleaf' : 2 ≤ cfg.leafMaxSize := Nat.le_of_add_left_le hleaf
    rcases C.hole_or_inner with ⟨rfl, hC⟩ | ⟨D, i, A, k, B, rfl⟩
    · -- the root, which has one child left
      obtain rfl := eq_of_heq hC
      rw [holeParent, minSize_root] at hsize
      cases n with
      | zero => exact absurd (List.length_eq_zero_iff.mp (Nat.succ.inj hsize)) ho.1
      | succ n =>
        obtain ⟨j, cs, rfl⟩ := exists_node x
        obtain ⟨c, rfl⟩ := List.length_eq_one_iff.mp (Nat.succ.inj hsize)
        obtain ⟨s', hrun, hshaped⟩ := Shaped.exists_onlyChild hleaf' hinternal h
        refine ⟨s', (coalesceOrRedistribute_root h.stored rounds).trans hrun, n, c.2,
          hshaped.holds ho List.not_mem_nil, fun e => ?_⟩
        rw [Context.fill_hole, entries_node, List.flatMap_singleton]
    · -- a page with a parent, which has another child
      have hnode := (D.nodup_fill.mp (Context.fill_inner D ▸ h.nodup)).2.1
      have hi : i ∉ [x.id] := fun hc => (List.nodup_cons.mp hnode).1 (List.mem_flatMap.mpr
        ⟨(k, x), List.mem_append_right A List.mem_cons_self,
          List.mem_singleton.mp hc ▸ x.id_mem_ids⟩)
      have hvalid : i ≠ invalidPageId := fun hc => h.valid (by
        rw [Context.fill_inner, D.mem_ids_fill, ← hc]
        exact .inr List.mem_cons_self)
      rw [holeParent_inner, minSize_rootPage hvalid] at hsize
      obtain ⟨hsecond, hfirst⟩ := hwell m D i A k B x hshort
      rcases h.exists_pair hleaf' hinternal hi with
        ⟨P, k', l, rfl, hpair⟩ | ⟨k', r, Q, rfl, rfl, hpair⟩
      · have hfill : (D.inner i (P ++ [(k', l)]) k B).fill x =
            D.fill (node i (P ++ (k', l) :: (k, x) :: B)) := by
          rw [Context.fill_inner, List.append_assoc, List.singleton_append]
        rw [hfill] at ho ⊢
        refine hpair.exists_climb_pair hleaf hinternal hnext ho (.inl ⟨rfl, hsize⟩)
          (fun hfull => ⟨hsecond P k' l rfl hfull, fun hc => ?_⟩) (fun hfit _ h₁ ho₁ hsize₁ => ?_)
        · obtain ⟨-, -, hids, -⟩ := nodup_pair (D.nodup_fill.mp hpair.nodup).2.1
          exact absurd hc.symm ((List.nodup_append.mp hids).2.2 _ l.id_mem_ids _ x.id_mem_ids)
        · refine Shaped.exists_climb hleaf hinternal hnext hwell (.second hshort hfit ?_) h₁ ho₁
            hsize₁ (by omega)
          exact Nat.lt_of_succ_le (hsize₁.le.trans (minSize_le_min hleaf' hinternal _ _ _))
      · rw [Context.fill_inner] at ho ⊢
        refine hpair.exists_climb_pair hleaf hinternal hnext ho (.inr ⟨rfl, rfl, hsize⟩)
          (fun hfull => (hfirst k' r Q rfl rfl hfull).imp_right (fun hlast _ => hlast))
          (fun hfit _ h₁ ho₁ hsize₁ => ?_)
        refine Shaped.exists_climb hleaf hinternal hnext hwell (.first hshort hfit ?_) h₁ ho₁
          hsize₁ (by omega)
        exact Nat.lt_of_succ_le (hsize₁.le.trans (minSize_le_min hleaf' hinternal _ _ _))

/-! ## The leaf -/

section Leaf

variable {t : PageTree K V n} {C : Context PageId K V 0 n} {j : PageId} {es fs : List (K × V)}
  {page : LeafPage K V} {v : V}

/-- **What `Remove` does** from the leaf on. -/
theorem Shaped.exists_removed (h : Shaped cfg [] s' (C.fill (leaf j fs)) next)
    (hempty : s.isEmpty = false) (hfind : s.findLeafPage key false = some page)
    (hrekey : s.rekeyParent page key = some s') (hpage : s'.pages j = some (.leaf page))
    (hremove : page.removeAndDeleteRecord key = { page with array := es })
    (hle : es.length ≤ fs.length) :
    ∃ s₁, Shaped cfg [j] s₁ (C.fill (leaf j es)) next ∧ s.remove key =
      if es.length < (rootPage cfg (leaf j es : PageTree K V 0) (holeParent C invalidPageId)
          next).minSize then coalesceOrRedistribute s₁.allocated.length s₁ j
      else some s₁ := by
  refine ⟨_, h.write_leaf hle, ?_⟩
  obtain rfl := h.page_leaf hpage
  rw [remove_eq hempty, hfind, Option.bind_some, hrekey, Option.bind_some, hremove]
  rfl

/-- **The entry is out of its leaf**, which is written without it, and what is left to do is
to look whether the leaf is short. -/
structure TakenOut (cfg : TreeConfig) (s : BPlusTree K V) (key : K) (t : PageTree K V n)
    (C : Context PageId K V 0 n) (l : PageTree K V 0) (s' : BPlusTree K V) (next : PageId) :
    Prop where
  without : Without key t C l
  shaped : Shaped cfg [l.id] s' (C.fill l) next
  size : (rootPage cfg l (holeParent C invalidPageId) next).minSize ≤ l.size + 1
  remove : s.remove key =
    if l.size < (rootPage cfg l (holeParent C invalidPageId) next).minSize then
      coalesceOrRedistribute s'.allocated.length s' l.id
    else some s'

/-- The first entry of a leaf with a parent, in which the second key is put before it. -/
theorem Shaped.exists_takenOut_first {D : Context PageId K V 1 n} {A B : List (K × PageTree K V 0)}
    (hleaf : 4 ≤ cfg.leafMaxSize) (hinternal : 3 ≤ cfg.internalMaxSize)
    (h : Shaped cfg [] s ((D.inner i A k B).fill (leaf j ((key, v) :: fs))) next)
    (hsorted : ((key, v) :: fs).Pairwise (fun e f => e.1 < f.1))
    (hfind : s.findLeafPage key false = some page) (hpage : s.pages j = some (.leaf page)) :
    ∃ C l s', TakenOut cfg s key ((D.inner i A k B).fill (leaf j ((key, v) :: fs))) C l s'
      next := by
  have hmin := h.min_le List.not_mem_nil next
  have hp := h.page_leaf hpage
  rw [holeParent_inner, holeNext_inner] at hp
  have hshaped := h
  rw [Context.fill_inner] at h
  have hvalid : i ≠ invalidPageId := fun hc =>
    h.valid (D.mem_ids_fill.mpr (.inr (hc ▸ List.mem_cons_self)))
  obtain ⟨hi, -⟩ := List.nodup_cons.mp (D.nodup_fill.mp h.nodup).2.1
  rw [holeParent_inner, minSize_rootPage hvalid] at hmin
  have htwo : 2 ≤ ((key, v) :: fs).length :=
    (Nat.div_le_div_right (c := 2) hleaf).trans hmin
  obtain ⟨e, es, rfl⟩ := List.exists_cons_of_ne_nil
    (List.ne_nil_of_length_pos (Nat.le_of_succ_le_succ htwo))
  have harray : page.array = [] ++ (key, v) :: e :: es := congrArg LeafPage.array hp
  obtain ⟨hindex, hremove⟩ := LeafPage.removeAndDeleteRecord_of_mem harray (harray ▸ hsorted)
  have hrekey := h.rekeyParent_child hp hindex
  have hkey : page.keyAt 1 = some e.1 := hp ▸ rfl
  rw [hkey, Option.map_some] at hrekey
  have hsnd : (A ++ (e.1, leaf j ((key, v) :: e :: es)) :: B).map Prod.snd =
      (A ++ (k, leaf j ((key, v) :: e :: es)) :: B).map Prod.snd := by
    rw [List.map_append, List.map_append, List.map_cons, List.map_cons]
  have hne : j ≠ i := fun hc => hi (hc ▸ List.mem_flatMap.mpr
    ⟨(k, leaf j ((key, v) :: e :: es)), List.mem_append_right A List.mem_cons_self,
      List.mem_cons_self⟩)
  have h' := h.rekey (Nat.le_of_add_left_le hleaf) hinternal hsnd
  rw [← Context.fill_inner] at h'
  obtain ⟨s₁, h₁, hrun⟩ := h'.exists_removed hshaped.isEmpty_eq hfind hrekey
    ((pages_write_of_ne hne).trans hpage) hremove (Nat.le_succ _)
  refine ⟨_, _, s₁, .first (Context.fill_inner D), h₁, ?_, hrun⟩
  rw [holeParent_inner, minSize_rootPage hvalid]
  exact hmin

/-- **The entry is taken out** of its leaf. -/
theorem Shaped.exists_takenOut (hleaf : 4 ≤ cfg.leafMaxSize) (hinternal : 3 ≤ cfg.internalMaxSize)
    (h : Shaped cfg [] s t next) (ho : Ordered t ⊥ ⊤) (hv : (key, v) ∈ t.entries) :
    ∃ C l s', TakenOut cfg s key t C l s' next := by
  obtain ⟨l, page, hfind, hpage, -, hl, -, hin⟩ :=
    (h.holds ho List.not_mem_nil).searchable.findLeafPage_eq key
  obtain ⟨P, Q, hentries⟩ := List.append_of_mem ((hin v).mp hv)
  obtain ⟨j, fs⟩ := l
  obtain rfl : fs = P ++ (key, v) :: Q := hentries
  obtain ⟨C, rfl⟩ := exists_context (l := leaf j (P ++ (key, v) :: Q)) hl
  have hspread : Spread (P ++ (key, v) :: Q) _ _ := ho.hole
  by_cases hfirst : P = [] ∧ 0 < n
  · obtain ⟨rfl, hn⟩ := hfirst
    obtain ⟨D, i, A, k, B, rfl⟩ := C.hole_or_inner.resolve_left (fun hC => hn.ne' hC.1)
    exact h.exists_takenOut_first hleaf hinternal hspread.2.1 hfind hpage
  · -- nothing happens to the parent
    have hp := h.page_leaf hpage
    have harray : page.array = P ++ (key, v) :: Q := congrArg LeafPage.array hp
    obtain ⟨hindex, hremove⟩ :=
      LeafPage.removeAndDeleteRecord_of_mem harray (harray ▸ hspread.2.1)
    have hroot : P = [] → n = 0 := fun hP => Nat.eq_zero_of_not_pos (fun hn => hfirst ⟨hP, hn⟩)
    have hrekey : s.rekeyParent page key = some s := by
      refine if_neg (fun hplace => hplace.2 ?_)
      rw [hindex, List.length_eq_zero_iff] at hplace
      obtain ⟨-, hC⟩ := C.hole_or_inner.resolve_right (fun hinner => hinner.elim (fun D _ => by
        have := D.le_height
        have := hroot hplace.1
        omega))
      obtain rfl := hroot hplace.1
      obtain rfl := eq_of_heq hC
      exact hp ▸ rfl
    have hlength : (P ++ (key, v) :: Q).length = (P ++ Q).length + 1 := by
      rw [List.length_append, List.length_append, List.length_cons, Nat.add_assoc]
    obtain ⟨s₁, h₁, hrun⟩ := h.exists_removed h.isEmpty_eq hfind hrekey hpage hremove
      ((Nat.le_succ _).trans hlength.ge)
    exact ⟨C, leaf j (P ++ Q), s₁, .later rfl hroot, h₁,
      (h.min_le List.not_mem_nil next).trans hlength.le, hrun⟩

end Leaf

/-- **A key that is there is removed**, and the tree is as documented again, with the other
entries. -/
theorem Shaped.exists_remove_of_mem {t : PageTree K V n} {v : V} (hleaf : 4 ≤ cfg.leafMaxSize)
    (hinternal : 3 ≤ cfg.internalMaxSize) (hnext : next ≠ invalidPageId)
    (h : Shaped cfg [] s t next) (ho : Ordered t ⊥ ⊤) (hv : (key, v) ∈ t.entries)
    (hwell : BorrowsWell cfg.bounds key t) :
    ∃ s', s.remove key = some s' ∧
      ((s'.rootPageId = invalidPageId ∧ ∀ e ∈ t.entries, e.1 = key) ∨
        ∃ (m : ℕ) (t' : PageTree K V m), Holds cfg s' t' next ∧
          ∀ e, e ∈ t'.entries ↔ e ∈ t.entries ∧ e.1 ≠ key) := by
  have hleaf' : 2 ≤ cfg.leafMaxSize := Nat.le_of_add_left_le hleaf
  obtain ⟨C, l, s₁, hout⟩ := h.exists_takenOut hleaf hinternal ho hv
  have hentries := hout.without.mem_entries ho
  have hrun := hout.remove
  have hl : (l : Leaf PageId K V) ∈ (C.fill l).leaves :=
    C.leaves_fill ▸ List.mem_append_right _ List.mem_cons_self
  have hheight := hout.shaped.height_lt hl
  by_cases hne : l.entries = []
  · -- the root was a leaf with this entry only
    have hsize : l.size = 0 := List.length_eq_zero_iff.mpr hne
    have hmin := hout.size
    rw [hsize] at hmin
    rcases C.hole_or_inner with ⟨rfl, hC⟩ | ⟨D, i, A, k, B, rfl⟩
    · obtain rfl := eq_of_heq hC
      have hstored : Stored cfg s₁.pages l invalidPageId next := hout.shaped.stored
      obtain ⟨r, hr⟩ := Nat.exists_eq_add_of_lt hheight
      have hless : l.size < cfg.least.min 0 := hsize.trans_lt Nat.one_pos
      rw [holeParent, minSize_root, if_pos hless, hr, coalesceOrRedistribute_root hstored,
        adjustRoot_leaf hstored hsize] at hrun
      refine ⟨_, hrun, .inl ⟨rfl, fun e he => ?_⟩⟩
      by_contra hc
      have hin : e ∈ l.entries := (hentries e).mpr ⟨he, hc⟩
      rw [hne] at hin
      exact List.not_mem_nil hin
    · have hvalid : i ≠ invalidPageId := fun hc => hout.shaped.valid (by
        rw [Context.fill_inner, D.mem_ids_fill, ← hc]
        exact .inr List.mem_cons_self)
      rw [holeParent_inner, minSize_rootPage hvalid] at hmin
      have htwo : 2 ≤ cfg.bounds.min 0 := Nat.div_le_div_right (c := 2) hleaf
      exact absurd (htwo.trans hmin) (by decide)
  · have ho₁ := hout.without.ordered ho hne
    split at hrun
    · rename_i hless
      obtain ⟨s', hclimb, m, t', ht', heq⟩ := Shaped.exists_climb hleaf hinternal hnext hwell
        (.entry hout.without (hless.trans_le (minSize_le_min hleaf' hinternal _ _ _))) hout.shaped
        ho₁ (le_antisymm hless hout.size) hheight
      exact ⟨s', hrun.trans hclimb, .inr ⟨m, t', ht', fun e => (heq e).trans (hentries e)⟩⟩
    · rename_i hless
      exact ⟨s₁, hrun, .inr ⟨n, _, (hout.shaped.settle (not_lt.mp hless)).holds ho₁
        List.not_mem_nil, hentries⟩⟩

end BPlusTree

end MiniSql
