import MiniSql.BPlusTreeGrow

/-!
# Removal keeps the shape

What `Remove` does to the pages, whatever keys are in them. A removal takes an entry
out of a leaf, and then goes up as long as a page is short: the page is put together
with its sibling, which may leave the parent short (`Shaped.exists_merge`), or gets
an entry or a child from it (`Shaped.of_redistribute`), or is the root
(`Shaped.exists_adjustRoot`). So the shape is kept by every removal that ends
(`Shaped.of_remove`).
-/

namespace MiniSql

variable {K V : Type}

namespace BPlusTree

open KeyTree

variable {m n : ℕ} {cfg : TreeConfig} {s s' : BPlusTree K V} {i short next : PageId}
  {A B : List (K × PageTree K V m)} {k₁ k key : K} {l r : PageTree K V m}

/-- **The documented shape**, of a tree that may be empty. -/
def WellShaped (cfg : TreeConfig) (s : BPlusTree K V) (next : PageId) : Prop :=
  (s.rootPageId = invalidPageId ∧ next ∈ s.allocated ∧ s.pages next = none) ∨
    ∃ (n : ℕ) (t : PageTree K V n), Shaped cfg [] s t next

/-! ## Two neighbours -/

section Pair

variable {C : Context PageId K V (m + 1) n}

/-- **The sizes around a short page**: only this one of the two neighbours may be short, and
nothing below them or beside them. -/
theorem Shaped.sizes_pair
    (h : Shaped cfg [short] s (C.fill (node i (A ++ (k₁, l) :: (k, r) :: B))) next)
    (hshort : short = l.id ∨ short = r.id) :
    (∀ c, c ∈ A ∨ c ∈ B → KeyTree.Sized cfg.bounds c.2) ∧
      (∀ p ∈ l.below ++ r.below,
        p ∉ [(C.fill (node i (A ++ (k₁, l) :: (k, r) :: B))).id, short]) ∧
      (short ≠ l.id → KeyTree.Sized cfg.bounds l) ∧
      (short ≠ r.id → KeyTree.Sized cfg.bounds r) := by
  obtain ⟨root, hroot⟩ : ∃ root, root = (C.fill (node i (A ++ (k₁, l) :: (k, r) :: B))).id :=
    ⟨_, rfl⟩
  have hnode := (C.nodup_fill.mp h.nodup).2.1
  have hbelow : root ∉ idsIn (A ++ (k₁, l) :: (k, r) :: B) :=
    hroot ▸ C.id_fill_notMem_below h.nodup
  have hchild : ∀ c ∈ A ++ (k₁, l) :: (k, r) :: B, SizedBut cfg.bounds [root, short] c.2 :=
    hroot ▸ h.sized.hole.2
  obtain ⟨hne, hothers⟩ := ne_neighbours hnode
  rw [← hroot]
  have hout : ∀ p ∈ idsIn (A ++ (k₁, l) :: (k, r) :: B), p ≠ short → p ∉ [root, short] :=
    fun p hp hps hc => (List.mem_pair.mp hc).elim (fun e => hbelow (e ▸ hp)) hps
  have hnot : ∀ p, p ∈ idsIn A ∨ p ∈ l.below ++ r.below ∨ p ∈ idsIn B → p ≠ short := by
    rintro p hp rfl
    exact hshort.elim (hothers p hp).1 (hothers p hp).2
  have hin : ∀ p, p ∈ idsIn A ∨ p ∈ l.ids ∨ p ∈ r.ids ∨ p ∈ idsIn B →
      p ∈ idsIn (A ++ (k₁, l) :: (k, r) :: B) := fun p hp => by
    rw [idsIn_append, idsIn_cons, idsIn_cons, List.mem_append, List.mem_append, List.mem_append]
    exact hp
  have hpair : ∀ p ∈ l.below ++ r.below, p ∉ [root, short] := fun p hp => by
    refine hout p (hin p ?_) (hnot p (.inr (.inl hp)))
    exact (List.mem_append.mp hp).elim (fun hp => .inr (.inl (mem_ids_of_mem_below hp)))
      (fun hp => .inr (.inr (.inl (mem_ids_of_mem_below hp))))
  refine ⟨fun c hc => ?_, hpair, fun hl => ?_, fun hr => ?_⟩
  · rcases hc with hc | hc
    · refine (hchild c (List.mem_append_left _ hc)).sized (fun p hp => ?_)
      have hp : p ∈ idsIn A := List.mem_flatMap.mpr ⟨c, hc, hp⟩
      exact hout p (hin p (.inl hp)) (hnot p (.inl hp))
    · refine (hchild c (List.mem_append_right A
        (List.mem_cons_of_mem _ (List.mem_cons_of_mem _ hc)))).sized (fun p hp => ?_)
      have hp : p ∈ idsIn B := List.mem_flatMap.mpr ⟨c, hc, hp⟩
      exact hout p (hin p (.inr (.inr (.inr hp)))) (hnot p (.inr (.inr hp)))
  · refine (hchild (k₁, l) (List.mem_append_right A List.mem_cons_self)).sized (fun p hp => ?_)
    refine hout p (hin p (.inr (.inl hp))) ?_
    have hp : p ∈ l.id :: l.below := ids_eq l ▸ hp
    rcases List.mem_cons.mp hp with rfl | hp
    · exact fun hc => hl hc.symm
    · exact hnot p (.inr (.inl (List.mem_append_left _ hp)))
  · refine (hchild (k, r) (List.mem_append_right A
      (List.mem_cons_of_mem _ List.mem_cons_self))).sized (fun p hp => ?_)
    refine hout p (hin p (.inr (.inr (.inl hp)))) ?_
    have hp : p ∈ r.id :: r.below := ids_eq r ▸ hp
    rcases List.mem_cons.mp hp with rfl | hp
    · exact fun hc => hr hc.symm
    · exact hnot p (.inr (.inl (List.mem_append_right _ hp)))

/-- The short page is not around the parent of the two. -/
theorem Shaped.notMem_context
    (h : Shaped cfg [short] s (C.fill (node i (A ++ (k₁, l) :: (k, r) :: B))) next)
    (hshort : short = l.id ∨ short = r.id) {short' : List PageId} :
    ∀ p ∈ C.ids, p ∈ [short] → p ∈ short' := by
  intro p hp hc
  refine absurd ?_ ((C.nodup_fill.mp h.nodup).2.2 p hp)
  rw [List.mem_singleton.mp hc, ids_node, idsIn_append, idsIn_cons, idsIn_cons]
  refine List.mem_cons_of_mem i (List.mem_append_right _ ?_)
  rcases hshort with rfl | rfl
  · exact List.mem_append_left _ l.id_mem_ids
  · exact List.mem_append_right _ (List.mem_append_left _ r.id_mem_ids)

end Pair

/-! ## Putting two pages together -/

section Merge

variable [LinearOrder K] {C : Context PageId K V (m + 1) n}

/-- **Two neighbours are put together**, and the parent may be short then. -/
theorem Shaped.exists_merge
    (h : Shaped cfg [short] s (C.fill (node i (A ++ (k₁, l) :: (k, r) :: B))) next)
    (hshort : short = l.id ∨ short = r.id) (hl : 1 ≤ l.size) (hr : 1 ≤ r.size)
    (hmin : cfg.bounds.min m ≤ l.size + r.size) (hfit : l.size + r.size ≤ cfg.bounds.max m) :
    ∃ s₁, Shaped cfg [i] s₁ (C.fill (node i (A ++ (k₁, merge k l r) :: B))) next ∧
      ∀ rounds x, (x = r.id ∨ (x = l.id ∧ A = [])) →
        coalesceOrRedistribute (rounds + 1) s x =
          if (node i (A ++ (k₁, merge k l r) :: B)).size < (rootPage cfg
            (node i (A ++ (k₁, merge k l r) :: B)) (holeParent C invalidPageId) next).minSize then
            coalesceOrRedistribute rounds s₁ i
          else some s₁ := by
  obtain ⟨-, hnode, -⟩ := C.nodup_fill.mp h.nodup
  obtain ⟨hothers, hbelow, -, -⟩ := h.sizes_pair hshort
  have hchild : ∀ c ∈ A ++ (k₁, l) :: (k, r) :: B,
      SizedBut cfg.bounds [(C.fill (node i (A ++ (k₁, l) :: (k, r) :: B))).id, short] c.2 :=
    h.sized.hole.2
  have hsl := hchild (k₁, l) (List.mem_append_right A List.mem_cons_self)
  have hsr := hchild (k, r) (List.mem_append_right A (List.mem_cons_of_mem _ List.mem_cons_self))
  have hpos : ∀ m, 1 ≤ cfg.bounds.min (m + 1) := fun _ => Nat.succ_pos _
  have hbl : Branches l := hsl.branches hpos hl (fun p hp => hbelow p (List.mem_append_left _ hp))
  have hbr : Branches r := hsr.branches hpos hr (fun p hp => hbelow p (List.mem_append_right _ hp))
  have halloc : ∀ p ∈ (node i (A ++ (k₁, l) :: (k, r) :: B)).ids, p ∈ s.allocated :=
    fun p hp => h.allocated p (C.mem_ids_fill.mpr (.inr hp))
  have hid : i ≠ invalidPageId := fun hc =>
    h.valid (C.mem_ids_fill.mpr (.inr (hc ▸ List.mem_cons_self)))
  obtain ⟨s₁, hrun, hstored, hnodup, hchanges⟩ :=
    exists_mergeStep h.stored.hole hnode halloc hbl hbr
  have hmerged : KeyTree.Sized cfg.bounds (merge k l r) :=
    KeyTree.Sized.merge hsl hsr hmin hfit hbelow
  have hlength : (A ++ (k₁, merge k l r) :: B).length + 1 =
      (A ++ (k₁, l) :: (k, r) :: B).length := by
    simp only [List.length_append, List.length_cons]
    omega
  have hmax : (A ++ (k₁, l) :: (k, r) :: B).length ≤ cfg.internalMaxSize := h.sized.hole.1.2
  have hfirst : (node i (A ++ (k₁, merge k l r) :: B)).first =
      (node i (A ++ (k₁, l) :: (k, r) :: B)).first := by
    cases A with
    | nil => exact first_merge hbl
    | cons a A => rfl
  refine ⟨s₁, h.refill hchanges rfl hfirst hstored hnodup ⟨⟨.inl ?_, ?_⟩, fun c hc => ?_⟩
    (h.notMem_context hshort) (.inl (List.mem_singleton_self i)), fun rounds x hx => ?_⟩
  · exact List.mem_cons_of_mem _ (List.mem_singleton_self i)
  · show (A ++ (k₁, merge k l r) :: B).length ≤ cfg.internalMaxSize
    omega
  · rcases List.mem_append.mp hc with hc | hc
    · exact (hothers c (.inl hc)).sizedBut
    · rcases List.mem_cons.mp hc with rfl | hc
      · exact hmerged.sizedBut
      · exact (hothers c (.inr hc)).sizedBut
  · rw [coalesceOrRedistribute_eq_mergeStep h.stored.hole hnode hid hfit rounds hx, hrun,
      Option.bind_some, InternalPage.size, List.length_map]
    rfl

end Merge

/-! ## An entry or a child from the sibling -/

section Redistribute

/-- The root needs less than any page. -/
theorem least_le_minSize (hleaf : 2 ≤ cfg.leafMaxSize) (hinternal : 3 ≤ cfg.internalMaxSize)
    (t : PageTree K V m) (parent after : PageId) :
    cfg.least.min m ≤ (rootPage cfg t parent after).minSize := by
  by_cases hparent : parent = invalidPageId
  · rw [hparent, minSize_root]
  · rw [minSize_rootPage hparent]
    exact least_le_min hleaf hinternal m

/-- **The page above the two is written** with pages that have the minimum size. -/
theorem Shaped.rewritten {C : Context PageId K V (m + 1) n} {cs ds : List (K × PageTree K V m)}
    (hleaf : 2 ≤ cfg.leafMaxSize) (hinternal : 3 ≤ cfg.internalMaxSize)
    (h : Shaped cfg [short] s (C.fill (node i cs)) next) (hne : i ≠ short)
    (hsub : ∀ p ∈ C.ids, p ∈ [short] → p ∈ ([] : List PageId))
    (hR : Rewrites cfg s s' (node i cs) (node i ds) (holeParent C invalidPageId) (holeNext C next))
    (hsized : ∀ d ∈ ds, KeyTree.Sized cfg.bounds d.2) :
    Shaped cfg [] s' (C.fill (node i ds)) next := by
  have halloc : ∀ p ∈ (node i cs).ids, p ∈ s.allocated := fun p hp =>
    h.allocated p (C.mem_ids_fill.mpr (.inr hp))
  have hout : (node i cs).id ∉ [short] := fun hc => hne (List.mem_singleton.mp hc)
  have hleast := (least_le_minSize hleaf hinternal _ _ next).trans (h.min_le hout next)
  refine h.refill (hR.changes halloc) hR.id hR.first hR.stored
    (hR.ids.nodup_iff.mpr (C.nodup_fill.mp h.nodup).2.1) ⟨?_, fun d hd => (hsized d hd).sizedBut⟩
    hsub (.inr (hR.size ▸ hleast))
  obtain ⟨hmin, hmax⟩ := h.sized.hole.root
  rw [hR.size]
  refine ⟨hmin.imp_left (fun hc => ?_), hmax⟩
  exact List.mem_singleton.mpr ((List.mem_pair.mp hc).resolve_right hne)

variable [LinearOrder K]

section Leaf

variable {C : Context PageId K V 1 n} {A B : List (K × PageTree K V 0)} {l r : PageTree K V 0}

/-- **From one leaf to the other.** -/
theorem Shaped.of_redistribute_leaf (hleaf : 2 ≤ cfg.leafMaxSize)
    (hinternal : 3 ≤ cfg.internalMaxSize)
    (h : Shaped cfg [short] s (C.fill (node i (A ++ (k₁, l) :: (k, r) :: B))) next)
    (hpos : 1 ≤ l.size ∧ 1 ≤ r.size) (hfull : cfg.bounds.max 0 < l.size + r.size) :
    (short = r.id → r.size + 1 = cfg.bounds.min 0 → s.redistribute (rootPage cfg l i r.first)
        (rootPage cfg r i (firstOf B (holeNext C next))) (A.length + 1) = some s' →
      ∃ t' : PageTree K V n, Shaped cfg [] s' t' next) ∧
    (short = l.id → l.size + 1 = cfg.bounds.min 0 →
      s.redistribute (rootPage cfg r i (firstOf B (holeNext C next))) (rootPage cfg l i r.first) 0 =
        some s' → ∃ t' : PageTree K V n, Shaped cfg [] s' t' next) := by
  obtain ⟨j, es, rfl⟩ : ∃ j es, l = leaf j es := ⟨_, _, rfl⟩
  obtain ⟨j', fs, rfl⟩ : ∃ j' fs, r = leaf j' fs := ⟨_, _, rfl⟩
  have hnode := (C.nodup_fill.mp h.nodup).2.1
  obtain ⟨hil, hir, -, -⟩ := nodup_pair hnode
  have hij : i ≠ j := fun hc => hil (List.mem_singleton.mpr hc)
  have hij' : i ≠ j' := fun hc => hir (List.mem_singleton.mpr hc)
  have hbounds : cfg.bounds.min 0 = cfg.leafMaxSize / 2 ∧ cfg.bounds.max 0 = cfg.leafMaxSize :=
    ⟨rfl, rfl⟩
  have hone : ∀ (xs ys : List (K × V)) key', cfg.bounds.min 0 ≤ xs.length →
      xs.length ≤ cfg.bounds.max 0 → cfg.bounds.min 0 ≤ ys.length → ys.length ≤ cfg.bounds.max 0 →
      (short = j ∨ short = j') → ∀ d ∈ A ++ (k₁, leaf j xs) :: (key', leaf j' ys) :: B,
        KeyTree.Sized cfg.bounds d.2 := by
    intro xs ys key' h1 h2 h3 h4 hs d hd
    obtain ⟨hothers, -⟩ := h.sizes_pair hs
    rcases List.mem_append.mp hd with hd | hd
    · exact hothers d (.inl hd)
    · rcases List.mem_cons.mp hd with rfl | hd
      · exact ⟨h1, h2⟩
      · rcases List.mem_cons.mp hd with rfl | hd
        · exact ⟨h3, h4⟩
        · exact hothers d (.inr hd)
  have hmax : es.length ≤ cfg.bounds.max 0 ∧ fs.length ≤ cfg.bounds.max 0 := by
    have hchild := h.sized.hole.2
    exact ⟨(hchild (k₁, leaf j es) (List.mem_append_right A List.mem_cons_self)).2,
      (hchild (k, leaf j' fs) (List.mem_append_right A
        (List.mem_cons_of_mem _ List.mem_cons_self))).2⟩
  rw [size_leaf, size_leaf] at hpos hfull
  refine ⟨fun hs hsize hrun => ?_, fun hs hsize hrun => ?_⟩
  · -- the last entry of the first leaf goes to the second one
    obtain ⟨last, pre, hlast, hpre, -⟩ := exists_of_redistribute hrun
    rw [if_neg (Nat.succ_ne_zero _), lastKey_rootPage] at hlast
    obtain ⟨es, e, rfl⟩ : ∃ ds e, es = ds ++ [e] :=
      ⟨_, _, (List.dropLast_concat_getLast (List.ne_nil_of_length_pos hpos.1)).symm⟩
    have hrun' := redistribute_last_leaf h.stored.hole hnode hlast hpre
    rw [show (leaf j' fs : PageTree K V 0).first = j' from rfl] at hrun
    obtain ⟨key', -, rfl⟩ := Option.map_eq_some_iff.mp (hrun'.symm.trans hrun)
    rw [size_leaf] at hsize
    rw [List.length_append, List.length_singleton] at hfull hmax
    exact ⟨_, h.rewritten hleaf hinternal (hs ▸ hij') (h.notMem_context (.inr hs))
      (rewrites_writePair_leaf h.stored.hole hnode (List.append_assoc es [e] fs).symm)
      (hone es (e :: fs) key' (by omega) (by omega) hsize.ge
        (show fs.length + 1 ≤ _ by omega) (.inr hs))⟩
  · -- the first entry of the second leaf goes to the first one
    obtain ⟨last, pre, hlast, hpre, hthen⟩ := exists_of_redistribute hrun
    obtain ⟨middle, hmiddle⟩ := hthen (.inl rfl)
    rw [if_pos rfl, lastKey_rootPage] at hlast
    obtain ⟨f, fs, rfl⟩ := List.exists_cons_of_ne_nil (List.ne_nil_of_length_pos hpos.2)
    have hrun' := redistribute_first_leaf h.stored.hole hnode hlast hpre hmiddle
    rw [show (leaf j' (f :: fs) : PageTree K V 0).first = j' from rfl] at hrun
    obtain ⟨key', -, rfl⟩ := Option.map_eq_some_iff.mp (hrun'.symm.trans hrun)
    rw [size_leaf] at hsize
    rw [List.length_cons] at hfull hmax
    exact ⟨_, h.rewritten hleaf hinternal (hs ▸ hij) (h.notMem_context (.inl hs))
      (rewrites_writePair_leaf h.stored.hole hnode (List.append_assoc es [f] fs))
      (hone (es ++ [f]) fs key' (by rw [List.length_append, List.length_singleton]; omega)
        (by rw [List.length_append, List.length_singleton]; omega) (by omega) (by omega) (.inl hs))⟩

end Leaf

section Inner

variable {C : Context PageId K V (m + 2) n} {A B : List (K × PageTree K V (m + 1))}
  {l r : PageTree K V (m + 1)}

omit [LinearOrder K] in
/-- The children of the two pages are sized. -/
theorem Shaped.sized_grandchild
    (h : Shaped cfg [short] s (C.fill (node i (A ++ (k₁, l) :: (k, r) :: B))) next)
    (hshort : short = l.id ∨ short = r.id) {c : K × PageTree K V m}
    (hc : c ∈ Node.children l ++ Node.children r) : KeyTree.Sized cfg.bounds c.2 := by
  obtain ⟨-, hbelow, -⟩ := h.sizes_pair hshort
  have hchild := h.sized.hole.2
  obtain ⟨j, cs, rfl⟩ := exists_node l
  obtain ⟨j', ds, rfl⟩ := exists_node r
  rcases List.mem_append.mp hc with hc | hc
  · have hl := hchild (k₁, node j cs) (List.mem_append_right A List.mem_cons_self)
    exact (hl.2 c hc).sized (fun p hp => hbelow p
      (List.mem_append_left _ (List.mem_flatMap.mpr ⟨c, hc, hp⟩)))
  · have hr := hchild (k, node j' ds) (List.mem_append_right A
      (List.mem_cons_of_mem _ List.mem_cons_self))
    exact (hr.2 c hc).sized (fun p hp => hbelow p
      (List.mem_append_right _ (List.mem_flatMap.mpr ⟨c, hc, hp⟩)))

/-- **From one inner page to the other.** -/
theorem Shaped.of_redistribute_inner (hleaf : 2 ≤ cfg.leafMaxSize)
    (hinternal : 3 ≤ cfg.internalMaxSize)
    (h : Shaped cfg [short] s (C.fill (node i (A ++ (k₁, l) :: (k, r) :: B))) next)
    (hpos : 1 ≤ l.size ∧ 1 ≤ r.size) (hfull : cfg.bounds.max (m + 1) < l.size + r.size) :
    (short = r.id → r.size + 1 = cfg.bounds.min (m + 1) →
      s.redistribute (rootPage cfg l i r.first)
        (rootPage cfg r i (firstOf B (holeNext C next))) (A.length + 1) = some s' →
      ∃ t' : PageTree K V n, Shaped cfg [] s' t' next) ∧
    (short = l.id → l.size + 1 = cfg.bounds.min (m + 1) →
      s.redistribute (rootPage cfg r i (firstOf B (holeNext C next))) (rootPage cfg l i r.first) 0 =
        some s' → ∃ t' : PageTree K V n, Shaped cfg [] s' t' next) := by
  obtain ⟨j, cs, rfl⟩ := exists_node l
  obtain ⟨j', ds, rfl⟩ := exists_node r
  have hnode := (C.nodup_fill.mp h.nodup).2.1
  obtain ⟨hil, hir, -, -⟩ := nodup_pair hnode
  have hij : i ≠ j := fun hc => hil (List.mem_cons.mpr (.inl hc))
  have hij' : i ≠ j' := fun hc => hir (List.mem_cons.mpr (.inl hc))
  have hbounds : cfg.bounds.min (m + 1) = (cfg.internalMaxSize - 1) / 2 + 1 ∧
      cfg.bounds.max (m + 1) = cfg.internalMaxSize := ⟨rfl, rfl⟩
  have hone : ∀ (xs ys : List (K × PageTree K V m)) key', cfg.bounds.min (m + 1) ≤ xs.length →
      xs.length ≤ cfg.bounds.max (m + 1) → cfg.bounds.min (m + 1) ≤ ys.length →
      ys.length ≤ cfg.bounds.max (m + 1) → (short = j ∨ short = j') →
      (∀ c ∈ xs ++ ys, ∃ d ∈ cs ++ ds, c.2 = d.2) →
      ∀ d ∈ A ++ (k₁, node j xs) :: (key', node j' ys) :: B, KeyTree.Sized cfg.bounds d.2 := by
    intro xs ys key' h1 h2 h3 h4 hs hsame d hd
    obtain ⟨hothers, -⟩ := h.sizes_pair hs
    have hall : ∀ c ∈ xs ++ ys, KeyTree.Sized cfg.bounds c.2 := fun c hc => by
      obtain ⟨d, hd, heq⟩ := hsame c hc
      exact heq ▸ h.sized_grandchild hs hd
    rcases List.mem_append.mp hd with hd | hd
    · exact hothers d (.inl hd)
    · rcases List.mem_cons.mp hd with rfl | hd
      · exact ⟨⟨h1, h2⟩, fun c hc => hall c (List.mem_append_left _ hc)⟩
      · rcases List.mem_cons.mp hd with rfl | hd
        · exact ⟨⟨h3, h4⟩, fun c hc => hall c (List.mem_append_right _ hc)⟩
        · exact hothers d (.inr hd)
  have hmax : cs.length ≤ cfg.bounds.max (m + 1) ∧ ds.length ≤ cfg.bounds.max (m + 1) := by
    have hchild := h.sized.hole.2
    exact ⟨(hchild (k₁, node j cs) (List.mem_append_right A List.mem_cons_self)).1.2,
      (hchild (k, node j' ds) (List.mem_append_right A
        (List.mem_cons_of_mem _ List.mem_cons_self))).1.2⟩
  rw [size_node, size_node] at hpos hfull
  obtain ⟨d, ds, rfl⟩ := List.exists_cons_of_ne_nil (List.ne_nil_of_length_pos hpos.2)
  refine ⟨fun hs hsize hrun => ?_, fun hs hsize hrun => ?_⟩
  · -- the last child of the first page goes to the second one
    obtain ⟨last, pre, hlast, hpre, hthen⟩ := exists_of_redistribute hrun
    obtain ⟨middle, hmiddle⟩ := hthen (.inr ⟨_, rfl⟩)
    rw [if_neg (Nat.succ_ne_zero _), lastKey_rootPage] at hlast
    obtain ⟨cs, c, rfl⟩ : ∃ bs c, cs = bs ++ [c] :=
      ⟨_, _, (List.dropLast_concat_getLast (List.ne_nil_of_length_pos hpos.1)).symm⟩
    rw [size_node, List.length_cons] at hsize
    rw [List.length_append, List.length_singleton, List.length_cons] at hfull hmax
    have hcs : cs ≠ [] := List.ne_nil_of_length_pos (by omega)
    rw [first_node_cons, redistribute_last_inner h.stored.hole hnode hlast hpre hmiddle] at hrun
    obtain ⟨mid, -, hrun⟩ := Option.bind_eq_some_iff.mp hrun
    obtain ⟨key', -, rfl⟩ := Option.map_eq_some_iff.mp hrun
    refine ⟨_, h.rewritten hleaf hinternal (hs ▸ hij') (h.notMem_context (.inr hs))
      (rewrites_last_inner mid h.stored.hole hnode hcs)
      (hone cs (c :: (mid, d.2) :: ds) key' (by omega) (by omega) ?_ ?_ (.inr hs) ?_)⟩
    · rw [List.length_cons, List.length_cons]
      omega
    · rw [List.length_cons, List.length_cons]
      omega
    · simp only [List.mem_append, List.mem_cons, List.not_mem_nil, or_false]
      rintro x (hx | rfl | rfl | hx)
      · exact ⟨x, .inl (.inl hx), rfl⟩
      · exact ⟨x, .inl (.inr rfl), rfl⟩
      · exact ⟨d, .inr (.inl rfl), rfl⟩
      · exact ⟨x, .inr (.inr hx), rfl⟩
  · -- the first child of the second page goes to the first one
    obtain ⟨last, pre, hlast, hpre, hthen⟩ := exists_of_redistribute hrun
    obtain ⟨middle, hmiddle⟩ := hthen (.inl rfl)
    rw [if_pos rfl, lastKey_rootPage] at hlast
    rw [size_node] at hsize
    rw [List.length_cons] at hfull hmax
    obtain ⟨d', ds, rfl⟩ : ∃ d' es, ds = d' :: es :=
      List.exists_cons_of_ne_nil (List.ne_nil_of_length_pos (by omega))
    rw [List.length_cons] at hfull hmax
    rw [first_node_cons, redistribute_first_inner h.stored.hole hnode hlast hpre hmiddle] at hrun
    obtain ⟨aft, -, hrun⟩ := Option.bind_eq_some_iff.mp hrun
    obtain ⟨mid, -, hrun⟩ := Option.bind_eq_some_iff.mp hrun
    obtain ⟨key', -, rfl⟩ := Option.map_eq_some_iff.mp hrun
    refine ⟨_, h.rewritten hleaf hinternal (hs ▸ hij) (h.notMem_context (.inl hs))
      (rewrites_first_inner mid h.stored.hole hnode (List.ne_nil_of_length_pos hpos.1))
      (hone (cs ++ [(mid, d.2)]) (d' :: ds) key' ?_ ?_ ?_ ?_ (.inl hs) ?_)⟩
    · rw [List.length_append, List.length_singleton]
      omega
    · rw [List.length_append, List.length_singleton]
      omega
    · rw [List.length_cons]
      omega
    · rw [List.length_cons]
      omega
    · simp only [List.mem_append, List.mem_cons, List.not_mem_nil, or_false]
      rintro x ((hx | rfl) | rfl | hx)
      · exact ⟨x, .inl hx, rfl⟩
      · exact ⟨d, .inr (.inl rfl), rfl⟩
      · exact ⟨x, .inr (.inr (.inl rfl)), rfl⟩
      · exact ⟨x, .inr (.inr (.inr hx)), rfl⟩

end Inner

end Redistribute

/-! ## The root -/

section Root

variable {t : PageTree K V n}

/-- The root is a leaf that has become empty. -/
theorem adjustRoot_leaf {t : PageTree K V 0} (h : Stored cfg s.pages t invalidPageId next)
    (hsize : t.size = 0) : s.adjustRoot t.id =
      some { s.deletePage t.id with rootPageId := invalidPageId } := by
  rw [adjustRoot, h.root, Option.bind_eq_bind, Option.bind_some]
  exact if_pos hsize

/-- **The root has one child left**, which is the root then. -/
theorem exists_adjustRoot_node {c : K × PageTree K V n}
    (h : Stored cfg s.pages (node i [c]) invalidPageId next) (hnodup : (node i [c]).ids.Nodup)
    (halloc : ∀ p ∈ (node i [c]).ids, p ∈ s.allocated) :
    ∃ s', s.adjustRoot i = some s' ∧ s'.rootPageId = c.2.id ∧
      Stored cfg s'.pages c.2 invalidPageId next ∧
      Changes s { s' with rootPageId := s.rootPageId } (node i [c]).ids c.2.ids := by
  obtain ⟨hpage, hc, -⟩ := h
  have hids : (node i [c]).ids = i :: c.2.ids := by
    rw [ids_node, idsIn_cons, idsIn_nil, List.append_nil]
  rw [hids] at hnodup halloc ⊢
  obtain ⟨hi, hcn⟩ := List.nodup_cons.mp hnodup
  obtain ⟨s₁, hs₁⟩ : ∃ s₁, s₁ = s.write (rootPage cfg c.2 invalidPageId next) := ⟨_, rfl⟩
  have hroot : s₁.pages c.2.id = some (rootPage cfg c.2 invalidPageId next) :=
    hs₁ ▸ pages_write_self c.2
  have hsame : ∀ p, p ≠ c.2.id → s₁.pages p = s.pages p := fun p hp =>
    hs₁ ▸ pages_write_of_ne hp
  have hwritten : Changes s s₁ (i :: c.2.ids) (i :: c.2.ids) :=
    changes_within halloc (fun p hp => hsame p (fun e => hp (e ▸ List.mem_cons_of_mem i
      c.2.id_mem_ids))) (hs₁ ▸ rfl) (hs₁ ▸ rfl)
  have hdeleted := hwritten.trans (changes_deletePage hi
    (fun p hp => hwritten.mem_allocated (List.mem_cons_of_mem i hp)))
  have hstored : Stored cfg s₁.pages c.2 invalidPageId next :=
    hc.reparent hroot (fun p hp => hsame p (fun e => id_notMem_below hcn (e ▸ hp)))
  refine ⟨{ s₁.deletePage i with rootPageId := c.2.id }, ?_, rfl, ?_, hdeleted.withRoot⟩
  · have hset : ({ s with rootPageId := c.2.id } : BPlusTree K V).setParent invalidPageId c.2.id =
        some (({ s with rootPageId := c.2.id } : BPlusTree K V).write
          (rootPage cfg c.2 invalidPageId next)) := by
      have hc : Stored cfg ({ s with rootPageId := c.2.id } : BPlusTree K V).pages c.2 i next := hc
      exact Stored.setParent hc invalidPageId
    have hpage : s.pages i = some (rootPage cfg (node i [c]) invalidPageId next) := hpage
    rw [adjustRoot, hpage, Option.bind_eq_bind, Option.bind_some]
    refine (if_pos (rfl : [c].length = 1)).trans ?_
    show (({ s with rootPageId := c.2.id } : BPlusTree K V).setParent invalidPageId c.2.id).bind _ =
      _
    rw [hset, hs₁]
    rfl
  · refine hstored.congr (fun p hp => ?_)
    exact Function.update_of_ne (fun e : p = i => hi (e ▸ hp)) ..

/-- **The only child of a root** is the root then, and the tree has its shape. -/
theorem Shaped.exists_onlyChild (hleaf : 2 ≤ cfg.leafMaxSize) (hinternal : 3 ≤ cfg.internalMaxSize)
    {c : K × PageTree K V n} (h : Shaped cfg [i] s (node i [c]) next) :
    ∃ s', s.adjustRoot i = some s' ∧ Shaped cfg [] s' c.2 next := by
  obtain ⟨s', hrun, hroot, hstored, hchanges⟩ :=
    exists_adjustRoot_node h.stored h.nodup h.allocated
  have hcn : c.2.ids.Nodup := by
    have hcs : (idsIn [c]).Nodup := (List.nodup_cons.mp h.nodup).2
    rwa [idsIn_cons, idsIn_nil, List.append_nil] at hcs
  have hi : ∀ p ∈ c.2.ids, p ∉ [i, i] := fun p hp hc => by
    obtain rfl : p = i := by simpa using hc
    exact (List.nodup_cons.mp h.nodup).1
      (List.mem_flatMap.mpr ⟨c, List.mem_singleton_self c, hp⟩)
  have hsized : KeyTree.Sized cfg.bounds c.2 := (h.sized.2 c (List.mem_singleton_self c)).sized hi
  have hmin := (least_le_min hleaf hinternal n).trans ((sized_iff _).mp hsized).1.1
  exact ⟨s', hrun, h.changed hchanges hroot.symm hstored hcn hsized.sizedBut (.inr hmin)⟩

/-- **The root is adjusted**, and the tree has its shape, or no page any more. -/
theorem Shaped.exists_adjustRoot (hleaf : 2 ≤ cfg.leafMaxSize)
    (hinternal : 3 ≤ cfg.internalMaxSize) (h : Shaped cfg [t.id] s t next)
    (hsize : t.size + 1 = cfg.least.min n) :
    ∃ s', s.adjustRoot t.id = some s' ∧ WellShaped cfg s' next := by
  obtain ⟨halloc, hnot, hnone⟩ := h.outside
  cases n with
  | zero =>
    have hne : next ≠ t.id := fun hc => hnot (hc ▸ t.id_mem_ids)
    refine ⟨_, adjustRoot_leaf h.stored (Nat.succ.inj hsize), .inl ⟨rfl, ?_, ?_⟩⟩
    · exact List.mem_filter.mpr ⟨halloc, decide_eq_true hne⟩
    · exact (Function.update_of_ne hne ..).trans hnone
  | succ n =>
    obtain ⟨i, cs, rfl⟩ := exists_node t
    obtain ⟨c, rfl⟩ := List.length_eq_one_iff.mp (Nat.succ.inj hsize)
    obtain ⟨s', hrun, hshaped⟩ := Shaped.exists_onlyChild hleaf hinternal h
    exact ⟨s', hrun, .inr ⟨n, c.2, hshaped⟩⟩

end Root

/-! ## Going up -/

section Climb

/-- The minimum size is the same for all pages at a place. -/
theorem minSize_rootPage_congr {parent after : PageId} : {m : ℕ} → (t t' : PageTree K V m) →
    (rootPage cfg t parent after).minSize = (rootPage cfg t' parent after).minSize
  | 0, _, _ => rfl
  | _ + 1, _, _ => rfl

section Pair

variable {C : Context PageId K V (m + 1) n}

/-- The two pages have enough for one page, and the short one is not empty. -/
theorem Shaped.sizes_of_short (hleaf : 4 ≤ cfg.leafMaxSize) (hinternal : 3 ≤ cfg.internalMaxSize)
    (h : Shaped cfg [short] s (C.fill (node i (A ++ (k₁, l) :: (k, r) :: B))) next)
    (hshort : (short = r.id ∧ r.size + 1 = cfg.bounds.min m) ∨
      (short = l.id ∧ l.size + 1 = cfg.bounds.min m)) :
    1 ≤ l.size ∧ 1 ≤ r.size ∧ cfg.bounds.min m ≤ l.size + r.size := by
  have hids : l.id ≠ r.id := by
    obtain ⟨-, -, hpair, -⟩ := nodup_pair (C.nodup_fill.mp h.nodup).2.1
    exact fun hc => (List.nodup_append.mp hpair).2.2 _ l.id_mem_ids _ r.id_mem_ids hc
  have hpos : 2 ≤ cfg.bounds.min m := by
    cases m with
    | zero => show 2 ≤ cfg.leafMaxSize / 2; omega
    | succ m => show 2 ≤ (cfg.internalMaxSize - 1) / 2 + 1; omega
  rcases hshort with ⟨rfl, hsize⟩ | ⟨rfl, hsize⟩
  · obtain ⟨-, -, hl, -⟩ := h.sizes_pair (.inr rfl)
    have hmin := ((sized_iff _).mp (hl hids.symm)).1.1
    omega
  · obtain ⟨-, -, -, hr⟩ := h.sizes_pair (.inl rfl)
    have hmin := ((sized_iff _).mp (hr hids)).1.1
    omega

/-- The page above has lost one child at most. -/
theorem Shaped.size_merged
    (h : Shaped cfg [short] s (C.fill (node i (A ++ (k₁, l) :: (k, r) :: B))) next)
    (hshort : short = l.id ∨ short = r.id)
    (hless : (node i (A ++ (k₁, merge k l r) :: B)).size < (rootPage cfg
      (node i (A ++ (k₁, merge k l r) :: B)) (holeParent C invalidPageId) next).minSize) :
    (node i (A ++ (k₁, merge k l r) :: B)).size + 1 = (rootPage cfg
      (node i (A ++ (k₁, merge k l r) :: B)) (holeParent C invalidPageId) next).minSize := by
  have hi : i ∉ [short] := fun hc => by
    obtain ⟨hil, hir, -, -⟩ := nodup_pair (C.nodup_fill.mp h.nodup).2.1
    obtain rfl := List.mem_singleton.mp hc
    exact hshort.elim (fun hc => hil (hc ▸ l.id_mem_ids)) (fun hc => hir (hc ▸ r.id_mem_ids))
  have hbefore := h.min_le hi next
  rw [minSize_rootPage_congr _ (node i (A ++ (k₁, merge k l r) :: B))] at hbefore
  rw [size_node] at hbefore hless ⊢
  simp only [List.length_append, List.length_cons] at hbefore hless ⊢
  omega

/-- **A page with a parent**, which has a child before it, or a child after it if it is the
first one. -/
theorem Shaped.exists_pair {x : PageTree K V m} {short : List PageId}
    (hleaf : 2 ≤ cfg.leafMaxSize) (hinternal : 3 ≤ cfg.internalMaxSize)
    (h : Shaped cfg short s ((C.inner i A k B).fill x) next) (hi : i ∉ short) :
    (∃ P k' l, A = P ++ [(k', l)] ∧
      Shaped cfg short s (C.fill (node i (P ++ (k', l) :: (k, x) :: B))) next) ∨
    ∃ k' r Q, A = [] ∧ B = (k', r) :: Q ∧
      Shaped cfg short s (C.fill (node i ([] ++ (k, x) :: (k', r) :: Q))) next := by
  rw [Context.fill_inner] at h
  have htwo : 2 ≤ (A ++ (k, x) :: B).length :=
    (least_le_minSize hleaf hinternal _ _ next).trans (h.min_le hi next)
  rcases exists_sibling htwo with ⟨P, k', l, rfl⟩ | ⟨rfl, k', r, Q, rfl⟩
  · rw [List.append_assoc, List.singleton_append] at h
    exact .inl ⟨P, k', l, rfl, h⟩
  · exact .inr ⟨k', r, Q, rfl, rfl, h⟩

end Pair

variable [LinearOrder K] {rounds : ℕ} {C : Context PageId K V (m + 1) n}

/-- A computation ends in the same way with more rounds, and the tree has its shape if it does
not fail. -/
def Settles (cfg : TreeConfig) (run : ℕ → Option (BPlusTree K V)) (next : PageId) : Prop :=
  ∃ r, (∀ more, run more = r) ∧ ∀ s', r = some s' → WellShaped cfg s' next

/-- **A short page beside another one**: they are put together, and then the page above may
be short, or the other one has enough for both. -/
theorem Shaped.settles_pair (hleaf : 4 ≤ cfg.leafMaxSize) (hinternal : 3 ≤ cfg.internalMaxSize)
    (h : Shaped cfg [short] s (C.fill (node i (A ++ (k₁, l) :: (k, r) :: B))) next)
    (hshort : (short = r.id ∧ r.size + 1 = cfg.bounds.min m) ∨
      (short = l.id ∧ A = [] ∧ l.size + 1 = cfg.bounds.min m))
    (hup : ∀ {s₁ : BPlusTree K V} {x : PageTree K V (m + 1)},
      Shaped cfg [x.id] s₁ (C.fill x) next →
      x.size + 1 = (rootPage cfg x (holeParent C invalidPageId) next).minSize →
      Settles cfg (fun more => coalesceOrRedistribute (rounds + more) s₁ x.id) next) :
    Settles cfg (fun more => coalesceOrRedistribute (rounds + more + 1) s short) next := by
  have hone : short = l.id ∨ short = r.id := hshort.elim (fun hs => .inr hs.1) (fun hs => .inl hs.1)
  obtain ⟨hl, hr, hmin⟩ :=
    h.sizes_of_short hleaf hinternal (hshort.imp_right (fun hs => ⟨hs.1, hs.2.2⟩))
  by_cases hfit : l.size + r.size ≤ cfg.bounds.max m
  · obtain ⟨s₁, hmerged, hnext⟩ := h.exists_merge hone hl hr hmin hfit
    have hnext := fun more => hnext (rounds + more) short
      (hshort.imp And.left (fun hs => ⟨hs.1, hs.2.1⟩))
    by_cases hless : (node i (A ++ (k₁, merge k l r) :: B)).size < (rootPage cfg
        (node i (A ++ (k₁, merge k l r) :: B)) (holeParent C invalidPageId) next).minSize
    · obtain ⟨run, hrun, hend⟩ := hup (x := node i (A ++ (k₁, merge k l r) :: B)) hmerged
        (h.size_merged hone hless)
      exact ⟨run, fun more => (hnext more).trans ((if_pos hless).trans (hrun more)), hend⟩
    · refine ⟨some s₁, fun more => (hnext more).trans (if_neg hless), fun s' hs => ?_⟩
      cases hs
      exact .inr ⟨n, _, hmerged.settle (not_lt.mp hless)⟩
  · have hfull := not_le.mp hfit
    have hnode := (C.nodup_fill.mp h.nodup).2.1
    have hvalid : i ≠ invalidPageId := fun hc =>
      h.valid (C.mem_ids_fill.mpr (.inr (hc ▸ List.mem_cons_self)))
    have hgive := coalesceOrRedistribute_eq_redistribute h.stored.hole hnode hvalid hfull
    have hleaf : 2 ≤ cfg.leafMaxSize := Nat.le_of_add_left_le hleaf
    rcases hshort with ⟨rfl, hsize⟩ | ⟨rfl, rfl, hsize⟩
    · refine ⟨_, fun more => (hgive (rounds + more)).1, fun s' hrun => .inr ⟨n, ?_⟩⟩
      cases m with
      | zero => exact (h.of_redistribute_leaf hleaf hinternal ⟨hl, hr⟩ hfull).1 rfl hsize hrun
      | succ m => exact (h.of_redistribute_inner hleaf hinternal ⟨hl, hr⟩ hfull).1 rfl hsize hrun
    · refine ⟨_, fun more => (hgive (rounds + more)).2 rfl, fun s' hrun => .inr ⟨n, ?_⟩⟩
      cases m with
      | zero => exact (h.of_redistribute_leaf hleaf hinternal ⟨hl, hr⟩ hfull).2 rfl hsize hrun
      | succ m => exact (h.of_redistribute_inner hleaf hinternal ⟨hl, hr⟩ hfull).2 rfl hsize hrun

/-- **`CoalesceOrRedistribute` of the root.** -/
theorem coalesceOrRedistribute_root {t : PageTree K V n}
    (h : Stored cfg s.pages t invalidPageId next) (rounds : ℕ) :
    coalesceOrRedistribute (rounds + 1) s t.id = s.adjustRoot t.id := by
  have hroot : (rootPage cfg t invalidPageId next).isRootPage = true := by
    rw [BPlusTreePage.isRootPage, parentPageId_rootPage]
    exact decide_eq_true rfl
  rw [coalesceOrRedistribute, h.root, Option.bind_eq_bind, Option.bind_some, if_pos hroot]

/-- **`CoalesceOrRedistribute`**, at a page that has one entry or child too few: it needs as
many rounds as there are pages above, and if it does not fail, no page is short any more. -/
theorem Shaped.settles (hleaf : 4 ≤ cfg.leafMaxSize) (hinternal : 3 ≤ cfg.internalMaxSize) :
    {rounds m : ℕ} → {C : Context PageId K V m n} → {x : PageTree K V m} →
    {s : BPlusTree K V} → Shaped cfg [x.id] s (C.fill x) next →
    x.size + 1 = (rootPage cfg x (holeParent C invalidPageId) next).minSize →
    n < rounds + m → Settles cfg (fun more => coalesceOrRedistribute (rounds + more) s x.id) next
  | 0, m, C, _, _, _, _, hrounds => absurd C.le_height (by omega)
  | rounds + 1, m, C, x, s, h, hsize, hrounds => by
    simp only [Nat.add_right_comm rounds 1]
    rcases C.hole_or_inner with ⟨rfl, hC⟩ | ⟨D, i, A, k, B, rfl⟩
    · -- the root
      obtain rfl := eq_of_heq hC
      rw [holeParent, minSize_root] at hsize
      obtain ⟨s', hadjust, hshaped⟩ := Shaped.exists_adjustRoot (Nat.le_of_add_left_le hleaf)
        hinternal h hsize
      exact ⟨some s', fun more => (coalesceOrRedistribute_root h.stored _).trans hadjust,
        fun s'' hs => Option.some.inj hs ▸ hshaped⟩
    · -- a page with a parent, which has another child
      have hnode := (D.nodup_fill.mp (Context.fill_inner D ▸ h.nodup)).2.1
      have hi : i ∉ [x.id] := fun hc => (List.nodup_cons.mp hnode).1 (List.mem_flatMap.mpr
        ⟨(k, x), List.mem_append_right A List.mem_cons_self,
          List.mem_singleton.mp hc ▸ x.id_mem_ids⟩)
      have hvalid : i ≠ invalidPageId := fun hc => h.valid (by
        rw [Context.fill_inner, D.mem_ids_fill, ← hc]
        exact .inr List.mem_cons_self)
      rw [holeParent_inner, minSize_rootPage hvalid] at hsize
      have hup : ∀ {s₁ : BPlusTree K V} {y : PageTree K V (m + 1)},
          Shaped cfg [y.id] s₁ (D.fill y) next →
          y.size + 1 = (rootPage cfg y (holeParent D invalidPageId) next).minSize →
          Settles cfg (fun more => coalesceOrRedistribute (rounds + more) s₁ y.id) next :=
        fun h₁ hs₁ => Shaped.settles hleaf hinternal h₁ hs₁ (by omega)
      rcases h.exists_pair (Nat.le_of_add_left_le hleaf) hinternal hi with
        ⟨P, k', l, -, hpair⟩ | ⟨k', r, Q, -, -, hpair⟩
      · exact hpair.settles_pair hleaf hinternal (.inl ⟨rfl, hsize⟩) hup
      · exact hpair.settles_pair hleaf hinternal (.inr ⟨rfl, rfl, hsize⟩) hup

end Climb

/-! ## Removal -/

section Remove

/-- A page with other keys before its children. -/
theorem Shaped.rekey {C : Context PageId K V (m + 1) n} {cs ds : List (K × PageTree K V m)}
    (hleaf : 2 ≤ cfg.leafMaxSize) (hinternal : 3 ≤ cfg.internalMaxSize)
    (h : Shaped cfg [] s (C.fill (node i cs)) next) (hsnd : ds.map Prod.snd = cs.map Prod.snd) :
    Shaped cfg [] (s.write (rootPage cfg (node i ds) (holeParent C invalidPageId)
      (holeNext C next))) (C.fill (node i ds)) next := by
  have hids : (node i ds).ids = (node i cs).ids := by rw [ids_node, ids_node, idsIn_of_snd hsnd]
  have hlength : ds.length = cs.length := by rw [← List.length_map Prod.snd, hsnd, List.length_map]
  have hfirst : (node i ds).first = (node i cs).first := by
    cases cs with
    | nil => rw [List.map_eq_nil_iff.mp hsnd]
    | cons c cs =>
      obtain ⟨d, ds, rfl⟩ := List.exists_cons_of_ne_nil (List.ne_nil_of_length_eq_add_one hlength)
      rw [first_node_cons, first_node_cons, (List.cons.inj hsnd).1]
  have hnode := (C.nodup_fill.mp h.nodup).2.1
  have halloc : ∀ p ∈ (node i cs).ids, p ∈ s.allocated := fun p hp =>
    h.allocated p (C.mem_ids_fill.mpr (.inr hp))
  have hchanges : Changes s (s.write (rootPage cfg (node i ds) (holeParent C invalidPageId)
      (holeNext C next))) (node i cs).ids (node i ds).ids := by
    rw [hids]
    exact changes_within halloc
      (fun p hp => pages_write_of_ne (fun e => hp (e ▸ List.mem_cons_self))) rfl rfl
  have hsized : SizedBut cfg.bounds [(C.fill (node i cs)).id] (node i cs) := h.sized.hole
  refine h.refill hchanges rfl hfirst (h.stored.rekey h.nodup hsnd).hole (hids ▸ hnode)
    ⟨?_, fun d hd => ?_⟩ (fun _ _ hc => hc) (.inr ?_)
  · show (i ∈ _ ∨ _ ≤ ds.length) ∧ ds.length ≤ _
    rw [hlength]
    exact hsized.root
  · obtain ⟨c, hc, heq⟩ := List.mem_map.mp (hsnd ▸ List.mem_map_of_mem (f := Prod.snd) hd)
    exact heq ▸ hsized.2 c hc
  · rw [size_node, hlength]
    exact (least_le_minSize hleaf hinternal _ _ next).trans (h.min_le List.not_mem_nil next)

variable [LinearOrder K]

/-- `RemoveAndDeleteRecord` takes at most one entry out of a page. -/
theorem exists_removeAndDeleteRecord (p : LeafPage K V) (key : K) :
    ∃ es, p.removeAndDeleteRecord key = { p with array := es } ∧ es.length ≤ p.array.length ∧
      p.array.length ≤ es.length + 1 := by
  unfold LeafPage.removeAndDeleteRecord
  split
  · exact ⟨p.array, rfl, le_rfl, Nat.le_succ _⟩
  · split
    · exact ⟨_, rfl, List.length_eraseIdx_le .., Nat.sub_le_iff_le_add.mp
        (List.le_length_eraseIdx ..)⟩
    · exact ⟨p.array, rfl, le_rfl, Nat.le_succ _⟩

omit [LinearOrder K] in
/-- **A leaf is written with fewer entries**, and may be short then. -/
theorem Shaped.write_leaf {C : Context PageId K V 0 n} {j : PageId} {es fs : List (K × V)}
    (h : Shaped cfg [] s (C.fill (leaf j fs)) next) (hle : es.length ≤ fs.length) :
    Shaped cfg [j] (s.write (rootPage cfg (leaf j es : PageTree K V 0) (holeParent C invalidPageId)
      (holeNext C next))) (C.fill (leaf j es)) next := by
  have hj : j ∈ s.allocated := h.allocated j (C.mem_ids_fill.mpr (.inr List.mem_cons_self))
  have hmax : fs.length ≤ cfg.bounds.max 0 := h.sized.hole.root.2
  exact h.refill (changes_write hj) rfl rfl (pages_write_self (leaf j es : PageTree K V 0))
    (List.nodup_singleton j) ⟨.inl (List.mem_cons_of_mem _ (List.mem_singleton_self j)),
      hle.trans hmax⟩ (fun _ _ hc => (List.not_mem_nil hc).elim)
    (.inl (List.mem_singleton_self j))

omit [LinearOrder K] in
/-- The page of a leaf of the tree. -/
theorem Shaped.page_leaf {C : Context PageId K V 0 n} {j : PageId} {fs : List (K × V)}
    {short : List PageId} {page : LeafPage K V} (h : Shaped cfg short s (C.fill (leaf j fs)) next)
    (hpage : s.pages j = some (.leaf page)) :
    page = ⟨j, holeParent C invalidPageId, holeNext C next, cfg.leafMaxSize, fs⟩ := by
  have hstored : s.pages j = some (rootPage cfg (leaf j fs : PageTree K V 0)
    (holeParent C invalidPageId) (holeNext C next)) := h.stored.hole
  exact BPlusTreePage.leaf.inj (Option.some.inj (hpage.symm.trans hstored))

/-- **The leaf has lost an entry**, or not, and is what it has to be unless it has become
short. -/
theorem Shaped.of_removed {C : Context PageId K V 0 n} {l : PageTree K V 0}
    {es : List (K × V)} {leaf : LeafPage K V} (hleaf : 4 ≤ cfg.leafMaxSize)
    (hinternal : 3 ≤ cfg.internalMaxSize) (h : Shaped cfg [] s (C.fill l) next)
    (hpage : s.pages l.id = some (.leaf leaf)) (hle : es.length ≤ leaf.array.length)
    (hlt : leaf.array.length ≤ es.length + 1) (hrounds : n < rounds)
    (hrun : (if es.length < (BPlusTreePage.leaf { leaf with array := es }).minSize then
        coalesceOrRedistribute rounds (s.write (.leaf { leaf with array := es })) leaf.pageId
      else some (s.write (.leaf { leaf with array := es }))) = some s') :
    WellShaped cfg s' next := by
  obtain ⟨j, fs, rfl⟩ : ∃ j fs, l = KeyTree.leaf j fs := ⟨_, _, rfl⟩
  obtain rfl := h.page_leaf hpage
  have hmin := h.min_le List.not_mem_nil next
  have hshaped := h.write_leaf hle
  split at hrun
  · rename_i hless
    obtain ⟨run, hall, hend⟩ := Shaped.settles (x := KeyTree.leaf j es) hleaf hinternal hshaped
      (le_antisymm hless (hmin.trans hlt)) hrounds
    exact hend s' ((hall 0).symm.trans hrun)
  · rename_i hless
    have hsize : (rootPage cfg (KeyTree.leaf j es : PageTree K V 0) (holeParent C invalidPageId)
        next).minSize ≤ (KeyTree.leaf j es : PageTree K V 0).size := not_lt.mp hless
    cases hrun
    exact .inr ⟨n, _, Shaped.settle (t := KeyTree.leaf j es) hshaped hsize⟩

/-- What `Remove` does before it looks for the entry in the leaf. -/
def rekeyParent (s : BPlusTree K V) (leaf : LeafPage K V) (key : K) : Option (BPlusTree K V) :=
  if leaf.keyIndex key = 0 ∧ leaf.parentPageId ≠ invalidPageId then
    (s.fetchInternal leaf.parentPageId).bind (fun parent =>
      (parent.valueIndex leaf.pageId).bind (fun i => (leaf.keyAt 1).bind (fun k =>
        (parent.setKeyAt i k).map (fun parent => s.write (.internal parent)))))
  else some s

/-- `Remove`, step by step. -/
theorem remove_eq (h : s.isEmpty = false) : s.remove key =
    (s.findLeafPage key false).bind (fun leaf => (s.rekeyParent leaf key).bind (fun s =>
      if (leaf.removeAndDeleteRecord key).size <
          (BPlusTreePage.leaf (leaf.removeAndDeleteRecord key)).minSize then
        coalesceOrRedistribute s.allocated.length
          (s.write (.leaf (leaf.removeAndDeleteRecord key)))
          (leaf.removeAndDeleteRecord key).pageId
      else some (s.write (.leaf (leaf.removeAndDeleteRecord key))))) := by
  rw [remove, h, if_neg Bool.false_ne_true]
  refine Option.bind_congr (fun leaf _ => ?_)
  rw [rekeyParent]
  split
  · simp only [Option.bind_eq_bind, Option.bind_assoc, Option.map_eq_bind]
    rfl
  · rfl

/-- **The second key of a leaf** is put before it in its parent, if the search has ended at
its first place. -/
theorem Shaped.rekeyParent_child {D : Context PageId K V 1 n} {A B : List (K × PageTree K V 0)}
    {j : PageId} {fs : List (K × V)} {page : LeafPage K V}
    (hpage : page = ⟨j, i, firstOf B (holeNext D next), cfg.leafMaxSize, fs⟩)
    (h : Shaped cfg [] s (D.fill (node i (A ++ (k, leaf j fs) :: B))) next)
    (hplace : page.keyIndex key = 0) :
    s.rekeyParent page key = (page.keyAt 1).map (fun key' => s.write (rootPage cfg
      (node i (A ++ (key', leaf j fs) :: B)) (holeParent D invalidPageId) (holeNext D next))) := by
  subst hpage
  have hvalid : i ≠ invalidPageId := fun hc =>
    h.valid (D.mem_ids_fill.mpr (.inr (hc ▸ List.mem_cons_self)))
  have hcs := (List.nodup_cons.mp (D.nodup_fill.mp h.nodup).2.1).2
  have hindex := valueIndex_child (p := ⟨i, holeParent D invalidPageId, cfg.internalMaxSize,
    (A ++ (k, leaf j fs) :: B).map (fun c => (c.1, c.2.id))⟩) rfl hcs
  rw [id_leaf] at hindex
  rw [rekeyParent, if_pos ⟨hplace, hvalid⟩, h.stored.hole.fetchInternal, Option.bind_some,
    hindex, Option.bind_some, Option.map_eq_bind]
  refine Option.bind_congr (fun key' _ => ?_)
  rw [setKeyAt_child rfl, Option.map_some]
  rfl

/-- **The parent of the leaf** gets another key for it, or nothing is done. -/
theorem Shaped.of_rekeyParent {C : Context PageId K V 0 n} {l : PageTree K V 0}
    {leaf : LeafPage K V} (hleaf : 2 ≤ cfg.leafMaxSize) (hinternal : 3 ≤ cfg.internalMaxSize)
    (h : Shaped cfg [] s (C.fill l) next) (hpage : s.pages l.id = some (.leaf leaf))
    (hrun : s.rekeyParent leaf key = some s') :
    ∃ C' : Context PageId K V 0 n, Shaped cfg [] s' (C'.fill l) next ∧
      s'.pages l.id = some (.leaf leaf) := by
  obtain ⟨j, fs, rfl⟩ : ∃ j fs, l = KeyTree.leaf j fs := ⟨_, _, rfl⟩
  have hleafpage := h.page_leaf hpage
  by_cases hplace : leaf.keyIndex key = 0 ∧ leaf.parentPageId ≠ invalidPageId
  · rcases C.hole_or_inner with ⟨rfl, hC⟩ | ⟨D, i, A, k, B, rfl⟩
    · obtain rfl := eq_of_heq hC
      exact absurd (hleafpage ▸ rfl) hplace.2
    · rw [Context.fill_inner] at h
      rw [holeParent_inner, holeNext_inner] at hleafpage
      rw [h.rekeyParent_child hleafpage hplace.1] at hrun
      obtain ⟨key', -, rfl⟩ := Option.map_eq_some_iff.mp hrun
      have hsnd : (A ++ (key', KeyTree.leaf j fs) :: B).map Prod.snd =
          (A ++ (k, KeyTree.leaf j fs) :: B).map Prod.snd := by
        rw [List.map_append, List.map_append, List.map_cons, List.map_cons]
      have hi := (List.nodup_cons.mp (D.nodup_fill.mp h.nodup).2.1).1
      have hne : j ≠ i := fun hc => hi (hc ▸ List.mem_flatMap.mpr
        ⟨(k, KeyTree.leaf j fs), List.mem_append_right A List.mem_cons_self, List.mem_cons_self⟩)
      refine ⟨D.inner i A key' B, ?_, (pages_write_of_ne hne).trans hpage⟩
      rw [Context.fill_inner]
      exact h.rekey hleaf hinternal hsnd
  · rw [rekeyParent, if_neg hplace] at hrun
    cases hrun
    exact ⟨C, h, hpage⟩

/-- **A removal that ends** keeps the shape, of a key that is there or not. -/
theorem Shaped.of_remove (hleaf : 4 ≤ cfg.leafMaxSize) (hinternal : 3 ≤ cfg.internalMaxSize)
    (h : Shaped cfg [] s t next) (hrun : s.remove key = some s') : WellShaped cfg s' next := by
  have hleaf' : 2 ≤ cfg.leafMaxSize := Nat.le_of_add_left_le hleaf
  rw [remove_eq h.isEmpty_eq] at hrun
  obtain ⟨leaf, hfind, hrun⟩ := Option.bind_eq_some_iff.mp hrun
  obtain ⟨s₁, hrekeyed, hrun⟩ := Option.bind_eq_some_iff.mp hrun
  obtain ⟨l, hroutes, hpage⟩ := h.routes_of_findLeafPage hfind
  obtain ⟨C, rfl⟩ := exists_context (l := l) hroutes.mem_leaves
  obtain ⟨C', h', hpage'⟩ := h.of_rekeyParent hleaf' hinternal hpage hrekeyed
  obtain ⟨es, hremoved, hle, hlt⟩ := exists_removeAndDeleteRecord leaf key
  rw [hremoved] at hrun
  have hl : (l : Leaf PageId K V) ∈ (C'.fill l).leaves :=
    C'.leaves_fill ▸ List.mem_append_right _ List.mem_cons_self
  exact h'.of_removed hleaf hinternal hpage' hle hlt (h'.height_lt hl) hrun

end Remove

end BPlusTree

end MiniSql
