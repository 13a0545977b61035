import MiniSql.TreeBalance

/-!
# Climbing in a tree

A `Context` is built from the root down, and a tree is balanced from its leaves
up. `Context.inner` makes a hole one level deeper: in the place of a child of what
stood in the hole. Every context is the bare hole or is made in this way
(`Context.hole_or_inner`), so whatever is done to a subtree can go on at its parent.

The sizes of a tree whose hole is filled anew are those around the hole and those
of the new subtree (`SizedBut.refill`).
-/

namespace KeyTree

variable {ι K V : Type} {m : ℕ}

namespace Context

/-- A hole in the place of a child of what stands in a hole. -/
def inner : {n : ℕ} → Context ι K V (m + 1) n → ι → List (K × KeyTree ι K V m) → K →
    List (K × KeyTree ι K V m) → Context ι K V m n
  | _, hole, i, A, k, B => node i A k hole B
  | _, node j P l C Q, i, A, k, B => node j P l (C.inner i A k B) Q

variable {i : ι} {A B : List (K × KeyTree ι K V m)} {k : K}

theorem fill_inner {t : KeyTree ι K V m} : {n : ℕ} → (C : Context ι K V (m + 1) n) →
    (C.inner i A k B).fill t = C.fill (KeyTree.node i (A ++ (k, t) :: B))
  | _, hole => rfl
  | _, node .. => by rw [inner, fill_node, fill_node, fill_inner]

theorem lower_inner : {n : ℕ} → (C : Context ι K V (m + 1) n) → {lo : WithBot K} →
    (C.inner i A k B).lower lo = start A k (C.lower lo)
  | _, hole, _ => rfl
  | _, node _ _ _ C _, _ => C.lower_inner

theorem upper_inner : {n : ℕ} → (C : Context ι K V (m + 1) n) → {hi : WithTop K} →
    (C.inner i A k B).upper hi = stop B (C.upper hi)
  | _, hole, _ => rfl
  | _, node _ _ _ C _, _ => C.upper_inner

/-- What stands in a hole is not higher than the tree. -/
theorem le_height {n : ℕ} : Context ι K V m n → m ≤ n
  | hole => le_rfl
  | node _ _ _ C _ => Nat.le_succ_of_le C.le_height

/-- **A context, from the inside**: nothing is around the hole, or there is a parent. -/
theorem hole_or_inner : {n : ℕ} → (C : Context ι K V m n) →
    (n = m ∧ C ≍ (hole : Context ι K V m m)) ∨
      ∃ (D : Context ι K V (m + 1) n) (i : ι) (A : List (K × KeyTree ι K V m)) (k : K)
        (B : List (K × KeyTree ι K V m)), C = D.inner i A k B
  | _, hole => .inl ⟨rfl, HEq.rfl⟩
  | _, node j P l C Q => by
    rcases C.hole_or_inner with ⟨rfl, hC⟩ | ⟨D, i, A, k, B, rfl⟩
    · obtain rfl := eq_of_heq hC
      exact .inr ⟨hole, j, P, l, Q, rfl⟩
    · exact .inr ⟨node j P l D Q, i, A, k, B, rfl⟩

end Context

/-- **A leaf of a tree** stands in a hole of it. -/
theorem exists_context : {n : ℕ} → {t : KeyTree ι K V n} → {l : KeyTree ι K V 0} →
    (l : Leaf ι K V) ∈ t.leaves → ∃ C : Context ι K V 0 n, t = C.fill l
  | 0, _, _, h => ⟨.hole, (List.mem_singleton.mp h).symm⟩
  | n + 1, t, l, h => by
    obtain ⟨i, cs, rfl⟩ := exists_node t
    obtain ⟨c, hc, hl⟩ := List.mem_flatMap.mp h
    obtain ⟨A, B, hcs⟩ := List.append_of_mem hc
    obtain rfl : cs = A ++ c :: B := hcs
    obtain ⟨C, hC⟩ := exists_context hl
    refine ⟨.node i A c.1 C B, ?_⟩
    rw [Context.fill_node, ← hC]

/-- **A node of a tree** is the root of what stands in a hole of it. -/
theorem exists_subtree {p : ι} : {n : ℕ} → {t : KeyTree ι K V n} → p ∈ t.ids →
    ∃ (m : ℕ) (C : Context ι K V m n) (u : KeyTree ι K V m), t = C.fill u ∧ u.id = p
  | 0, t, h => ⟨0, .hole, t, rfl, (List.mem_singleton.mp h).symm⟩
  | n + 1, t, h => by
    obtain ⟨i, cs, rfl⟩ := exists_node t
    rcases List.mem_cons.mp h with rfl | h
    · exact ⟨n + 1, .hole, node p cs, rfl, rfl⟩
    · obtain ⟨c, hc, hp⟩ := List.mem_flatMap.mp h
      obtain ⟨A, B, rfl⟩ := List.append_of_mem hc
      obtain ⟨m, C, u, hu, hid⟩ := exists_subtree hp
      refine ⟨m, .node i A c.1 C B, u, ?_, hid⟩
      rw [Context.fill_node, ← hu]

/-- **A child with a sibling** has one before it, or it is the first one and has one after
it. -/
theorem exists_sibling {T : Type} {A B : List (K × T)} {c : K × T}
    (h : 2 ≤ (A ++ c :: B).length) :
    (∃ P k l, A = P ++ [(k, l)]) ∨ (A = [] ∧ ∃ k r Q, B = (k, r) :: Q) := by
  rcases List.eq_nil_or_concat A with rfl | ⟨P, a, rfl⟩
  · match B, h with
    | b :: B, _ => exact .inr ⟨rfl, b.1, b.2, B, rfl⟩
  · exact .inl ⟨P, a.1, a.2, List.concat_eq_append⟩

/-! ## Sizes -/

section Sized

variable {b : Bounds} {short short' : List ι}

/-- More nodes may be short. -/
theorem SizedBut.mono : {n : ℕ} → {t : KeyTree ι K V n} → SizedBut b short t →
    (∀ i ∈ t.ids, i ∈ short → i ∈ short') → SizedBut b short' t
  | 0, t, h, hsub => ⟨h.1.imp_left (hsub _ t.id_mem_ids), h.2⟩
  | _ + 1, t, h, hsub => by
    refine ⟨⟨h.1.1.imp_left (hsub _ t.id_mem_ids), h.1.2⟩, fun c hc => (h.2 c hc).mono ?_⟩
    exact fun i hi => hsub i (mem_ids_of_mem_below (List.mem_flatMap.mpr ⟨c, hc, hi⟩))

/-- The root may be short, and the others as before. -/
theorem SizedBut.of_root : {n : ℕ} → {t : KeyTree ι K V n} → SizedBut b short t →
    (t.id ∈ short' ∨ b.min n ≤ t.size) → (∀ i ∈ t.below, i ∈ short → i ∈ short') →
    SizedBut b short' t
  | 0, _, h, hroot, _ => ⟨hroot, h.2⟩
  | _ + 1, _, h, hroot, hsub => ⟨⟨hroot, h.1.2⟩, fun c hc => (h.2 c hc).mono
      (fun i hi => hsub i (List.mem_flatMap.mpr ⟨c, hc, hi⟩))⟩

/-- A sized tree is sized for wider bounds. -/
theorem Sized.mono {b' : Bounds} (hmin : ∀ n, b'.min n ≤ b.min n)
    (hmax : ∀ n, b.max n ≤ b'.max n) : {n : ℕ} → {t : KeyTree ι K V n} → Sized b t → Sized b' t
  | 0, _, h => ⟨(hmin 0).trans h.1, h.2.trans (hmax 0)⟩
  | n + 1, _, h => ⟨⟨(hmin (n + 1)).trans h.1.1, h.1.2.trans (hmax (n + 1))⟩,
      fun c hc => Sized.mono hmin hmax (h.2 c hc)⟩

/-- A sized tree has no short nodes. -/
theorem Sized.sizedBut : {n : ℕ} → {t : KeyTree ι K V n} → Sized b t → SizedBut b short t
  | 0, _, h => ⟨.inr h.1, h.2⟩
  | _ + 1, _, h => ⟨⟨.inr h.1.1, h.1.2⟩, fun c hc => (h.2 c hc).sizedBut⟩

/-- All nodes below the root are sized if only the root may be short. -/
theorem SizedBut.filled {n : ℕ} {t : KeyTree ι K V n} (h : SizedBut b [t.id] t)
    (hnodup : t.ids.Nodup) : Filled b t := by
  cases n with
  | zero => trivial
  | succ n =>
    refine fun c hc => (h.2 c hc).sized (fun i hi hroot => id_notMem_below hnodup ?_)
    rw [← List.mem_singleton.mp hroot]
    exact List.mem_flatMap.mpr ⟨c, hc, hi⟩

theorem Filled.sizedBut {n : ℕ} {t : KeyTree ι K V n} (h : Filled b t) (hmax : t.size ≤ b.max n) :
    SizedBut b [t.id] t := by
  cases n with
  | zero => exact ⟨.inl (List.mem_singleton_self _), hmax⟩
  | succ n => exact ⟨⟨.inl (List.mem_singleton_self _), hmax⟩, fun c hc => (h c hc).sizedBut⟩

/-- **The sizes of a tree with another subtree in its hole.** -/
theorem SizedBut.refill {t t' : KeyTree ι K V m} (ht : SizedBut b short' t') : {n : ℕ} →
    {C : Context ι K V m n} → SizedBut b short (C.fill t) →
    (∀ i ∈ C.ids, i ∈ short → i ∈ short') → SizedBut b short' (C.fill t')
  | _, .hole, _, _ => ht
  | _, .node i A k C B, h, hsub => by
    have hlength : (A ++ (k, C.fill t') :: B).length = (A ++ (k, C.fill t) :: B).length := by
      rw [List.length_append, List.length_append]
      rfl
    have hchild : ∀ c ∈ A ++ (k, C.fill t) :: B, SizedBut b short c.2 := h.2
    refine ⟨?_, fun c hc => ?_⟩
    · show (i ∈ short' ∨ _ ≤ (A ++ (k, C.fill t') :: B).length) ∧
        (A ++ (k, C.fill t') :: B).length ≤ _
      rw [hlength]
      exact ⟨h.1.1.imp_left (hsub i List.mem_cons_self), h.1.2⟩
    · rcases List.mem_append.mp hc with hc | hc
      · refine (hchild c (List.mem_append_left _ hc)).mono (fun j hj => hsub j ?_)
        exact List.mem_cons_of_mem i
          (List.mem_append_left _ (List.mem_flatMap.mpr ⟨c, hc, hj⟩))
      · rcases List.mem_cons.mp hc with rfl | hc
        · refine SizedBut.refill ht
            (hchild (k, C.fill t) (List.mem_append_right A List.mem_cons_self)) (fun j hj => ?_)
          exact hsub j (List.mem_cons_of_mem i
            (List.mem_append_right _ (List.mem_append_left _ hj)))
        · refine (hchild c (List.mem_append_right A (List.mem_cons_of_mem _ hc))).mono
            (fun j hj => hsub j ?_)
          exact List.mem_cons_of_mem i (List.mem_append_right _
            (List.mem_append_right _ (List.mem_flatMap.mpr ⟨c, hc, hj⟩)))

/-- A node with a child branches if the nodes below it are not short. -/
theorem SizedBut.branches (hmin : ∀ n, 1 ≤ b.min (n + 1)) {n : ℕ} {t : KeyTree ι K V n}
    (h : SizedBut b short t) (hpos : 1 ≤ t.size) (hout : ∀ i ∈ t.below, i ∉ short) :
    Branches t := by
  cases n with
  | zero => trivial
  | succ n =>
    refine ⟨List.ne_nil_of_length_pos hpos, fun c hc => Sized.branches hmin ?_⟩
    exact (h.2 c hc).sized (fun i hi => hout i (List.mem_flatMap.mpr ⟨c, hc, hi⟩))

end Sized

end KeyTree
