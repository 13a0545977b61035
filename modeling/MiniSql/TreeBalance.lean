import MiniSql.SearchTree
import Mathlib.Data.List.Pairwise

/-!
# Balancing a tree

A tree is balanced in one place at a time. A `Context` is a tree with one
subtree left out, and `Context.fill` puts a subtree in. What is around the hole
gives the subtree its bounds (`Context.lower`, `Context.upper`), and nothing
else about the rest of the tree matters to it: a tree is ordered if the subtree
is within these bounds, and any other subtree within them may take its place
(`Ordered.refill`).

`Sized` is about all nodes of a tree. `SizedBut` leaves some out that may have
too few entries or children, as one node has while the tree is being balanced
and as the root may have at any time.

Two neighbours are put together by `merge`, the key between them being the key
of the first child that was in the second one. The node that they make is
separated if this key is below the others of the second one
(`Separated.merge`).

Or an entry or a child goes from one of two neighbours to the other. The key
between the two is then the first key below the node that now comes first in the
second one, and the first key below the second one of the two nodes that have
become neighbours is the key between those (`Ordered.moveFirst`,
`Ordered.moveLast`). The first key below a node tells where the leaves of two
nodes meet (`eq_seam`).
-/

namespace KeyTree

variable {ι K V : Type}

theorem mem_ids_of_mem_below {n : ℕ} {t : KeyTree ι K V n} {i : ι} (h : i ∈ t.below) :
    i ∈ t.ids := by
  rw [ids_eq]
  exact List.mem_cons_of_mem _ h

/-- The root is not below itself, if the nodes are distinct. -/
theorem id_notMem_below {n : ℕ} {t : KeyTree ι K V n} (h : t.ids.Nodup) : t.id ∉ t.below := by
  rw [ids_eq] at h
  exact (List.nodup_cons.mp h).1

/-- A tree of height `n` with a hole for a tree of height `m`. -/
inductive Context (ι K V : Type) (m : ℕ) : ℕ → Type
  /-- The hole. -/
  | hole : Context ι K V m m
  /-- A node, the hole being in or below one of its children. -/
  | node {n : ℕ} (id : ι) (A : List (K × KeyTree ι K V n)) (k : K) (C : Context ι K V m n)
      (B : List (K × KeyTree ι K V n)) : Context ι K V m (n + 1)

namespace Context

variable {m : ℕ}

/-- The tree with the hole filled. -/
def fill : {n : ℕ} → Context ι K V m n → KeyTree ι K V m → KeyTree ι K V n
  | _, hole, t => t
  | _, node id A k C B, t => KeyTree.node id (A ++ (k, C.fill t) :: B)

/-- The identities of the nodes around the hole. -/
def ids : {n : ℕ} → Context ι K V m n → List ι
  | _, hole => []
  | _, node id A _ C B => id :: (idsIn A ++ (C.ids ++ idsIn B))

/-- The leaves to the left of the hole. -/
def left : {n : ℕ} → Context ι K V m n → List (Leaf ι K V)
  | _, hole => []
  | _, node _ A _ C _ => A.flatMap (fun c => c.2.leaves) ++ C.left

/-- The leaves to the right of the hole. -/
def right : {n : ℕ} → Context ι K V m n → List (Leaf ι K V)
  | _, hole => []
  | _, node _ _ _ C B => C.right ++ B.flatMap (fun c => c.2.leaves)

/-- The lower bound that the keys above the hole give it. -/
def lower : {n : ℕ} → Context ι K V m n → WithBot K → WithBot K
  | _, hole, lo => lo
  | _, node _ A k C _, lo => C.lower (start A k lo)

/-- The upper bound that the keys above the hole give it. -/
def upper : {n : ℕ} → Context ι K V m n → WithTop K → WithTop K
  | _, hole, hi => hi
  | _, node _ _ _ C B, hi => C.upper (stop B hi)

variable {n : ℕ} {t t' : KeyTree ι K V m}

@[simp] theorem fill_hole : (hole : Context ι K V m m).fill t = t := rfl

@[simp] theorem fill_node {id : ι} {A B : List (K × KeyTree ι K V n)} {k : K}
    {C : Context ι K V m n} :
    (node id A k C B).fill t = KeyTree.node id (A ++ (k, C.fill t) :: B) := rfl

/-- The root is the same, whatever stands in the hole, if its identity is. -/
theorem id_fill (h : t'.id = t.id) : {n : ℕ} → (C : Context ι K V m n) →
    (C.fill t').id = (C.fill t).id
  | _, hole => h
  | _, node .. => rfl

/-- It has as many children. -/
theorem size_fill (h : t'.size = t.size) : {n : ℕ} → (C : Context ι K V m n) →
    (C.fill t').size = (C.fill t).size
  | _, hole => h
  | _, node .. => by
    rw [fill_node, fill_node, size_node, size_node, List.length_append, List.length_append]
    rfl

/-- So is the first leaf. -/
theorem first_fill (h : t'.first = t.first) : {n : ℕ} → (C : Context ι K V m n) →
    (C.fill t').first = (C.fill t).first
  | _, hole => h
  | _, node _ [] _ C _ => C.first_fill h
  | _, node _ (_ :: _) _ _ _ => rfl

theorem leaves_fill : {n : ℕ} → (C : Context ι K V m n) →
    (C.fill t).leaves = C.left ++ (t.leaves ++ C.right)
  | _, hole => (List.append_nil _).symm
  | _, node id A k C B => by
    rw [fill_node, leaves_node, List.flatMap_append, List.flatMap_cons, C.leaves_fill]
    simp only [left, right, List.append_assoc]

/-- The entries around the hole stay where they are. -/
theorem entries_fill (C : Context ι K V m n) : (C.fill t).entries =
    C.left.flatMap Leaf.entries ++ (t.entries ++ C.right.flatMap Leaf.entries) := by
  rw [entries_eq, C.leaves_fill, List.flatMap_append, List.flatMap_append, ← entries_eq]

theorem ids_fill : {n : ℕ} → (C : Context ι K V m n) → (C.fill t).ids.Perm (C.ids ++ t.ids)
  | _, hole => List.Perm.refl _
  | _, node id A k C B => by
    rw [fill_node, ids_node, idsIn_append, idsIn_cons, ids, List.cons_append]
    refine List.Perm.cons id ?_
    rw [List.append_assoc]
    refine List.Perm.append_left _ ?_
    rw [List.append_assoc]
    refine (C.ids_fill.append_right _).trans ?_
    rw [List.append_assoc]
    exact List.Perm.append_left _ List.perm_append_comm

/-- The nodes of the tree are those around the hole and those in it. -/
theorem mem_ids_fill (C : Context ι K V m n) {i : ι} :
    i ∈ (C.fill t).ids ↔ i ∈ C.ids ∨ i ∈ t.ids :=
  C.ids_fill.mem_iff.trans List.mem_append

/-- The root is a node around the hole, if it is not the one in it. -/
theorem id_fill_eq_or_mem : {n : ℕ} → (C : Context ι K V m n) →
    (C.fill t).id = t.id ∨ (C.fill t).id ∈ C.ids
  | _, hole => .inl rfl
  | _, node .. => .inr List.mem_cons_self

theorem nodup_fill (C : Context ι K V m n) :
    (C.fill t).ids.Nodup ↔ C.ids.Nodup ∧ t.ids.Nodup ∧ ∀ i ∈ C.ids, i ∉ t.ids := by
  rw [C.ids_fill.nodup_iff, List.nodup_append]
  refine and_congr_right (fun _ => and_congr_right (fun _ => ?_))
  exact ⟨fun h i hi hc => h i hi i hc rfl, fun h i hi j hj e => h i hi (e ▸ hj)⟩

/-- The root is not below the hole, if the nodes are distinct. -/
theorem id_fill_notMem_below (C : Context ι K V m n) (h : (C.fill t).ids.Nodup) :
    (C.fill t).id ∉ t.below := by
  obtain ⟨-, ht, hdisj⟩ := C.nodup_fill.mp h
  intro hc
  rcases C.id_fill_eq_or_mem (t := t) with hroot | hroot
  · exact id_notMem_below ht (hroot ▸ hc)
  · exact hdisj _ hroot (mem_ids_of_mem_below hc)

end Context

/-- A node is below one child only, if the nodes are distinct. -/
theorem eq_of_mem_ids {n : ℕ} {A A' B B' : List (K × KeyTree ι K V n)} {c c' : K × KeyTree ι K V n}
    {i : ι} (h : (idsIn (A ++ c :: B)).Nodup) (heq : A ++ c :: B = A' ++ c' :: B')
    (hc : i ∈ c.2.ids) (hc' : i ∈ c'.2.ids) : A = A' ∧ c = c' ∧ B = B' := by
  have hnot : ∀ X Y : List (K × KeyTree ι K V n), ∀ d e : K × KeyTree ι K V n,
      A ++ c :: B = X ++ d :: Y → e ∈ Y → i ∈ d.2.ids → i ∈ e.2.ids → False := by
    intro X Y d e hX he hd hie
    rw [hX, idsIn_append, idsIn_cons] at h
    exact (List.nodup_append.mp (List.nodup_append.mp h).2.1).2.2 i hd i
      (List.mem_flatMap.mpr ⟨e, he, hie⟩) rfl
  obtain ⟨as, rfl, has⟩ | ⟨as, rfl, has⟩ := List.append_eq_append_iff.mp heq
  · cases as with
    | nil => exact ⟨(List.append_nil A).symm, List.cons.inj has⟩
    | cons a as =>
      obtain ⟨rfl, hB⟩ := List.cons.inj has
      exact (hnot A B c c' rfl (hB ▸ List.mem_append_right as List.mem_cons_self) hc hc').elim
  · cases as with
    | nil =>
      obtain ⟨rfl, rfl⟩ := List.cons.inj has
      exact ⟨List.append_nil A', rfl, rfl⟩
    | cons a as =>
      obtain ⟨rfl, hB'⟩ := List.cons.inj has
      exact (hnot A' B' c' c heq (hB' ▸ List.mem_append_right as List.mem_cons_self) hc' hc).elim

/-! ## Ways through the hole -/

section Routes

variable {P : WithBot K → WithTop K → Prop} {l : Leaf ι K V}

/-- A way from the hole down to a leaf is part of a way through the tree. -/
theorem Routes.fill {m : ℕ} {t : KeyTree ι K V m} : {n : ℕ} → {C : Context ι K V m n} →
    {lo : WithBot K} → {hi : WithTop K} → Routes P t l (C.lower lo) (C.upper hi) →
    Routes P (C.fill t) l lo hi
  | _, .hole, _, _, h => h
  | _, .node _ A k C B, _, _, h => ⟨A, (k, C.fill t), B, rfl, Routes.fill (C := C) h⟩

/-- **A way to a leaf below the hole** comes through the hole, if the nodes are
distinct. -/
theorem Routes.hole {m : ℕ} {t : KeyTree ι K V m} (hl : l ∈ t.leaves) : {n : ℕ} →
    {C : Context ι K V m n} → {lo : WithBot K} → {hi : WithTop K} → (C.fill t).ids.Nodup →
    Routes P (C.fill t) l lo hi → Routes P t l (C.lower lo) (C.upper hi)
  | _, .hole, _, _, _, h => h
  | _, .node i A k C B, _, _, hnodup, ⟨A', c', B', hcs, h⟩ => by
    have hin : (idsIn (A ++ (k, C.fill t) :: B)).Nodup := (List.nodup_cons.mp hnodup).2
    have heq : A ++ (k, C.fill t) :: B = A' ++ c' :: B' := hcs
    have hc : l.id ∈ (C.fill t).ids := C.mem_ids_fill.mpr (.inr (id_mem_ids_of_mem_leaves hl))
    have hc' : l.id ∈ c'.2.ids := id_mem_ids_of_mem_leaves h.mem_leaves
    obtain ⟨rfl, rfl, rfl⟩ := eq_of_mem_ids hin heq hc hc'
    refine h.hole hl ?_
    rw [idsIn_append, idsIn_cons] at hin
    exact (List.nodup_append.mp (List.nodup_append.mp hin).2.1).1

/-- The parent of the leaf at the end of a way. -/
theorem Routes.exists_parent : {n : ℕ} → {t : KeyTree ι K V (n + 1)} → {lo : WithBot K} →
    {hi : WithTop K} → Routes P t l lo hi → ∃ (C : Context ι K V 1 (n + 1)) (i : ι)
      (A : List (K × KeyTree ι K V 0)) (k : K) (B : List (K × KeyTree ι K V 0)),
      t = C.fill (node i (A ++ ((k, l) : K × KeyTree ι K V 0) :: B)) ∧
        P (start A k (C.lower lo)) (stop B (C.upper hi))
  | 0, t, _, _, ⟨A, c, B, hcs, h⟩ => by
    obtain ⟨i, cs, rfl⟩ := exists_node t
    obtain rfl : cs = A ++ c :: B := hcs
    obtain ⟨rfl, hP⟩ := h
    exact ⟨.hole, i, A, c.1, B, rfl, hP⟩
  | n + 1, t, _, _, ⟨A, c, B, hcs, h⟩ => by
    obtain ⟨i, cs, rfl⟩ := exists_node t
    obtain rfl : cs = A ++ c :: B := hcs
    obtain ⟨C, j, A', k, B', hc, hP⟩ := h.exists_parent
    refine ⟨.node i A c.1 C B, j, A', k, B', ?_, hP⟩
    rw [Context.fill_node, ← hc]

end Routes

/-! ## Order -/

section Ordered

variable [LinearOrder K] {m n : ℕ} {t t' : KeyTree ι K V m} {lo lo' : WithBot K}
  {hi hi' : WithTop K}

/-- **The subtree in the hole** is ordered between the bounds of the hole. -/
theorem Ordered.hole : {n : ℕ} → {C : Context ι K V m n} → {lo : WithBot K} → {hi : WithTop K} →
    Ordered (C.fill t) lo hi → Ordered t (C.lower lo) (C.upper hi)
  | _, .hole, _, _, h => h
  | _, .node _ _ _ _ _, _, _, h => (orderedIn_focus.mp h).2.1.hole

/-- **Another subtree in the hole**, between the bounds of the hole. -/
theorem Ordered.refill : {n : ℕ} → {C : Context ι K V m n} → {lo : WithBot K} → {hi : WithTop K} →
    Ordered (C.fill t) lo hi → Ordered t' (C.lower lo) (C.upper hi) → Ordered (C.fill t') lo hi
  | _, .hole, _, _, _, h => h
  | _, .node _ _ _ _ _, _, _, hfill, h => by
    obtain ⟨hbefore, hc, hafter⟩ := orderedIn_focus.mp hfill
    exact orderedIn_focus.mpr ⟨hbefore, hc.refill h, hafter⟩

/-- A key within the bounds of the hole is within those of the tree. -/
theorem Separated.within_of_hole {k : K} : {n : ℕ} → {C : Context ι K V m n} → {lo : WithBot K} →
    {hi : WithTop K} → Separated (C.fill t) lo hi → Within (C.lower lo) (C.upper hi) k →
    Within lo hi k
  | _, .hole, _, _, _, hk => hk
  | _, .node _ A _ C B, lo, hi, h, hk => by
    have hin : SeparatedIn Separated (A ++ (_, C.fill t) :: B) lo hi := h
    have hchild : Within _ _ k := hin.focus.2.1.within_of_hole hk
    exact ⟨hin.bounds.1.trans hchild.1, hchild.2.trans_le hin.bounds.2⟩

section OrderedIn

variable {T : Type} {O : T → WithBot K → WithTop K → Prop}

/-- Children between wider bounds. -/
theorem OrderedIn.mono
    (hO : ∀ t lo hi lo' hi', lo' ≤ lo → hi ≤ hi' → O t lo hi → O t lo' hi') {cs : List (K × T)}
    (h : OrderedIn O cs lo hi) (hlo : lo' ≤ lo) (hhi : hi ≤ hi') : OrderedIn O cs lo' hi' := by
  induction cs generalizing lo lo' with
  | nil => exact h
  | cons c cs ih =>
    cases cs with
    | nil => exact hO _ _ _ _ _ hlo hhi h
    | cons d cs => exact ⟨hO _ _ _ _ _ hlo le_rfl h.1, ih h.2 le_rfl⟩

end OrderedIn

/-- A separated tree has its keys within wider bounds too. -/
theorem Separated.mono : {n : ℕ} → {t : KeyTree ι K V n} → {lo lo' : WithBot K} →
    {hi hi' : WithTop K} → Separated t lo hi → lo' ≤ lo → hi ≤ hi' → Separated t lo' hi'
  | 0, _, _, _, _, _, h, hlo, hhi =>
    ⟨h.1, fun e he => ⟨hlo.trans (h.2 e he).1, (h.2 e he).2.trans_le hhi⟩⟩
  | _ + 1, _, _, _, _, _, h, hlo, hhi =>
    ⟨OrderedIn.mono (fun _ _ _ _ _ hlo hhi h => h.mono hlo hhi) h.children hlo hhi, h.sorted,
      fun c hc => ⟨hlo.trans (h.within c hc).1, (h.within c hc).2.trans_le hhi⟩⟩

/-- **Without empty leaves**, a separated tree is ordered. -/
theorem Separated.ordered : {n : ℕ} → {t : KeyTree ι K V n} → {lo : WithBot K} →
    {hi : WithTop K} → Separated t lo hi → (∀ l ∈ t.leaves, l.entries ≠ []) → Ordered t lo hi
  | 0, t, _, _, h, hne => ⟨hne t (List.mem_singleton_self t), h⟩
  | n + 1, t, lo, hi, h, hne => by
    obtain ⟨id, cs, rfl⟩ := exists_node t
    have hchildren : ∀ c ∈ cs, ∀ l ∈ c.2.leaves, l.entries ≠ [] := fun c hc l hl =>
      hne l (List.mem_flatMap.mpr ⟨c, hc, hl⟩)
    have hin : OrderedIn Separated cs lo hi := h.children
    show OrderedIn Ordered cs lo hi
    clear h hne
    induction cs generalizing lo with
    | nil => exact hin
    | cons c cs ih =>
      have hc := hchildren c List.mem_cons_self
      cases cs with
      | nil => exact Separated.ordered hin hc
      | cons d cs =>
        exact ⟨Separated.ordered hin.1 hc,
          ih _ (fun e he => hchildren e (List.mem_cons_of_mem c he)) hin.2⟩

end Ordered

/-! ## Sizes -/

section Sized

variable (b : Bounds) {m n : ℕ}

/-- Every node has as many entries or children as its height allows, but some
may have fewer. -/
def SizedBut (short : List ι) : {n : ℕ} → KeyTree ι K V n → Prop
  | 0, t => (t.id ∈ short ∨ b.min 0 ≤ t.size) ∧ t.size ≤ b.max 0
  | n + 1, t => ((t.id ∈ short ∨ b.min (n + 1) ≤ t.size) ∧ t.size ≤ b.max (n + 1)) ∧
      ∀ c ∈ Node.children t, SizedBut short c.2

instance decidableSizedBut [DecidableEq ι] (short : List ι) : {n : ℕ} → (t : KeyTree ι K V n) →
    Decidable (SizedBut b short t)
  | 0, t => inferInstanceAs (Decidable ((t.id ∈ short ∨ b.min 0 ≤ t.size) ∧ t.size ≤ b.max 0))
  | n + 1, t =>
    have := fun c : KeyTree ι K V n => decidableSizedBut short c
    inferInstanceAs (Decidable (((t.id ∈ short ∨ b.min (n + 1) ≤ t.size) ∧
      t.size ≤ b.max (n + 1)) ∧ ∀ c ∈ Node.children t, SizedBut b short c.2))

variable {b} {short : List ι} {t : KeyTree ι K V n}

/-- The root of the tree. -/
theorem SizedBut.root : {n : ℕ} → {t : KeyTree ι K V n} → SizedBut b short t →
    (t.id ∈ short ∨ b.min n ≤ t.size) ∧ t.size ≤ b.max n
  | 0, _, h => h
  | _ + 1, _, h => h.1

/-- The subtree in the hole. -/
theorem SizedBut.hole {t : KeyTree ι K V m} : {n : ℕ} → {C : Context ι K V m n} →
    SizedBut b short (C.fill t) → SizedBut b short t
  | _, .hole, h => h
  | _, .node _ A _ _ _, h => (h.2 _ (List.mem_append_right A List.mem_cons_self)).hole

/-- The leaves of the tree. -/
theorem SizedBut.leaf : {n : ℕ} → {t : KeyTree ι K V n} → {l : Leaf ι K V} → SizedBut b short t →
    l ∈ t.leaves → l.id ∈ short ∨ b.min 0 ≤ l.entries.length
  | 0, t, l, h, hl => by
    rw [List.mem_singleton.mp hl]
    exact h.1
  | _ + 1, _, _, h, hl => by
    obtain ⟨c, hc, hl⟩ := List.mem_flatMap.mp hl
    exact (h.2 c hc).leaf hl

/-- A tree without the nodes that may be short is sized. -/
theorem SizedBut.sized : {n : ℕ} → {t : KeyTree ι K V n} → SizedBut b short t →
    (∀ i ∈ t.ids, i ∉ short) → Sized b t
  | 0, t, h, hout => ⟨h.1.resolve_left (hout _ t.id_mem_ids), h.2⟩
  | _ + 1, t, h, hout => by
    refine ⟨⟨h.1.1.resolve_left (hout _ t.id_mem_ids), h.1.2⟩, fun c hc => (h.2 c hc).sized ?_⟩
    intro i hi
    refine hout i ?_
    rw [ids_eq]
    exact List.mem_cons_of_mem _ (List.mem_flatMap.mpr ⟨c, hc, hi⟩)

end Sized

/-! ## Two neighbours put together -/

/-- Two neighbours, and the key between them, as one node. -/
def merge (k : K) : {n : ℕ} → KeyTree ι K V n → KeyTree ι K V n → KeyTree ι K V n
  | 0, l, r => leaf l.id (l.entries ++ r.entries)
  | _ + 1, l, r => node l.id
      (Node.children l ++ (Node.children r).modifyHead (fun c => (k, c.2)))

section Merge

variable {n : ℕ} {k k₁ : K} {l r : KeyTree ι K V n}

/-- The first child with another key. -/
theorem flatMap_modifyHead {T α : Type} (f : T → List α) (cs : List (K × T)) :
    (cs.modifyHead (fun c => (k, c.2))).flatMap (fun c => f c.2) = cs.flatMap (fun c => f c.2) := by
  cases cs <;> rfl

@[simp] theorem merge_node {i j : ι} {cs ds : List (K × KeyTree ι K V n)} :
    merge k (node i cs) (node j ds) = node i (cs ++ ds.modifyHead (fun c => (k, c.2))) := rfl

theorem id_merge : {n : ℕ} → (l r : KeyTree ι K V n) → (merge k l r).id = l.id
  | 0, _, _ => rfl
  | _ + 1, _, _ => rfl

theorem size_merge (l r : KeyTree ι K V n) : (merge k l r).size = l.size + r.size := by
  cases n with
  | zero => exact List.length_append ..
  | succ n =>
    obtain ⟨i, cs, rfl⟩ := exists_node l
    obtain ⟨j, ds, rfl⟩ := exists_node r
    rw [merge_node, size_node, List.length_append, List.length_modifyHead]
    rfl

/-- **Nothing is lost** when two neighbours are put together. -/
theorem entries_merge (l r : KeyTree ι K V n) :
    (merge k l r).entries = l.entries ++ r.entries := by
  cases n with
  | zero => rfl
  | succ n =>
    obtain ⟨i, cs, rfl⟩ := exists_node l
    obtain ⟨j, ds, rfl⟩ := exists_node r
    rw [merge_node, entries_node, List.flatMap_append, flatMap_modifyHead KeyTree.entries]
    rfl

theorem below_merge (l r : KeyTree ι K V n) : (merge k l r).below = l.below ++ r.below := by
  cases n with
  | zero => rfl
  | succ n =>
    obtain ⟨i, cs, rfl⟩ := exists_node l
    obtain ⟨j, ds, rfl⟩ := exists_node r
    rw [merge_node, below_node, idsIn_append, idsIn, idsIn, flatMap_modifyHead KeyTree.ids]
    rfl

theorem first_merge (hl : Branches l) : (merge k l r).first = l.first := by
  cases n with
  | zero => rfl
  | succ n =>
    obtain ⟨id, cs, rfl⟩ := exists_node l
    obtain ⟨c, cs, rfl⟩ : ∃ c ds, cs = c :: ds := List.exists_cons_of_ne_nil hl.1
    rfl

section Separated

variable [LinearOrder K] {lo : WithBot K} {hi : WithTop K}

/-- Other children with the same keys, or with some of them. -/
theorem SeparatedIn.of_keys {T : Type} {O : T → WithBot K → WithTop K → Prop}
    {cs ds : List (K × T)} (h : SeparatedIn O cs lo hi) (hds : OrderedIn O ds lo hi)
    (hkeys : (ds.tail.map Prod.fst).Sublist (cs.tail.map Prod.fst)) : SeparatedIn O ds lo hi := by
  refine ⟨hds, ?_, fun d hd => ?_⟩
  · have hsorted := List.pairwise_map.mpr h.sorted
    exact List.pairwise_map.mp (hsorted.sublist hkeys)
  · obtain ⟨c, hc, hkey⟩ := List.mem_map.mp (hkeys.subset (List.mem_map_of_mem hd))
    exact hkey ▸ h.within c hc

/-- **Children of two neighbours.** -/
theorem SeparatedIn.append {T : Type} {O : T → WithBot K → WithTop K → Prop}
    {cs ds : List (K × T)} {d : K × T} (hk : Within lo hi k) (h : SeparatedIn O cs lo k)
    (h' : SeparatedIn O (d :: ds) k hi) (habove : ∀ e ∈ ds, k < e.1) :
    SeparatedIn O (cs ++ (k, d.2) :: ds) lo hi := by
  obtain ⟨c, cs, rfl⟩ := List.exists_cons_of_ne_nil h.children.ne_nil
  have hbelow : ∀ e ∈ cs, e.1 < k := fun e he => WithTop.coe_lt_coe.mp (h.within e he).2
  refine ⟨orderedIn_append.mpr ⟨.inr h.children, ?_⟩, ?_, fun e he => ?_⟩
  · have hright := orderedIn_cons.mp h'.children
    exact orderedIn_cons.mpr hright
  · refine List.pairwise_append.mpr ⟨h.sorted, List.pairwise_cons.mpr ⟨habove, h'.sorted⟩, ?_⟩
    intro e he f hf
    rcases List.mem_cons.mp hf with rfl | hf
    · exact hbelow e he
    · exact (hbelow e he).trans (habove f hf)
  · rcases List.mem_append.mp he with he | he
    · exact ⟨(h.within e he).1, (h.within e he).2.trans hk.2⟩
    · rcases List.mem_cons.mp he with rfl | he
      · exact hk
      · exact ⟨hk.1.trans (h'.within e he).1, (h'.within e he).2⟩

/-- **Neighbours put together are separated**, the key between them being below
the keys of the second one. -/
theorem Separated.merge (hk : Within lo hi k) (hl : Separated l lo k) (hr : Separated r k hi)
    (habove : 0 < n → Ordered r k hi) : Separated (merge k l r) lo hi := by
  cases n with
  | zero =>
    refine ⟨List.pairwise_append.mpr ⟨hl.1, hr.1, fun e he f hf => ?_⟩, fun e he => ?_⟩
    · exact (WithTop.coe_lt_coe.mp (hl.2 e he).2).trans_le (WithBot.coe_le_coe.mp (hr.2 f hf).1)
    · rcases List.mem_append.mp he with he | he
      · exact ⟨(hl.2 e he).1, (hl.2 e he).2.trans hk.2⟩
      · exact ⟨hk.1.trans (hr.2 e he).1, (hr.2 e he).2⟩
  | succ n =>
    obtain ⟨id, ds, rfl⟩ := exists_node r
    obtain ⟨d, ds, rfl⟩ : ∃ d es, ds = d :: es := List.exists_cons_of_ne_nil hr.children.ne_nil
    have hkeys := OrderedIn.pairwise_tail (E := entries) (fun _ _ _ => Ordered.spread)
      (habove (Nat.succ_pos n))
    exact SeparatedIn.append hk hl hr (fun e he => WithBot.coe_lt_coe.mp (hkeys.1 e he))

/-- **Two children put together** in their node. -/
theorem SeparatedIn.merge {A B : List (K × KeyTree ι K V n)}
    (h : SeparatedIn Separated (A ++ (k₁, l) :: (k, r) :: B) lo hi)
    (habove : 0 < n → Ordered r k (stop B hi)) :
    SeparatedIn Separated (A ++ (k₁, merge k l r) :: B) lo hi := by
  obtain ⟨hbefore, hl, hr, hafter⟩ := orderedIn_focus₂.mp h.children
  have hk : Within (start A k₁ lo) (stop B hi) k := by
    refine ⟨?_, ?_⟩
    · cases A with
      | nil => exact (h.within (k, r) List.mem_cons_self).1
      | cons a A =>
        exact WithBot.coe_le_coe.mpr (h.lt_of_mem (List.cons_ne_nil a A) _ List.mem_cons_self).le
    · cases B with
      | nil =>
        have hin : SeparatedIn Separated ((A ++ [(k₁, l)]) ++ (k, r) :: []) lo hi := by
          rw [List.append_assoc]
          exact h
        exact (hin.within_key (List.append_ne_nil_of_right_ne_nil A (List.cons_ne_nil _ _))).2
      | cons b B =>
        have hin : SeparatedIn Separated ((A ++ [(k₁, l)]) ++ (k, r) :: b :: B) lo hi := by
          rw [List.append_assoc]
          exact h
        exact WithTop.coe_lt_coe.mpr (hin.lt_of_mem
          (List.append_ne_nil_of_right_ne_nil A (List.cons_ne_nil _ _)) b List.mem_cons_self)
  refine h.of_keys (orderedIn_focus.mpr ⟨hbefore, hl.merge hk hr habove, hafter⟩) ?_
  cases A with
  | nil => exact List.sublist_cons_self _ _
  | cons a A =>
    show (List.map Prod.fst (A ++ _)).Sublist (List.map Prod.fst (A ++ _))
    rw [List.map_append, List.map_append]
    exact (List.Sublist.refl _).append ((List.sublist_cons_self _ _).cons_cons _)

/-- **Neighbours put together are ordered.** -/
theorem Ordered.merge : {n : ℕ} → {l r : KeyTree ι K V n} → {lo : WithBot K} → {hi : WithTop K} →
    Ordered l lo k → Ordered r k hi → Ordered (merge k l r) lo hi
  | 0, _, _, _, _, hl, hr => hl.append hr
  | n + 1, l, r, lo, hi, hl, hr => by
    obtain ⟨i, cs, rfl⟩ := exists_node l
    obtain ⟨j, ds, rfl⟩ := exists_node r
    have hcs : OrderedIn Ordered cs lo k := hl
    have hds : OrderedIn Ordered ds k hi := hr
    obtain ⟨d, ds, rfl⟩ := List.exists_cons_of_ne_nil hds.ne_nil
    obtain ⟨c, cs, rfl⟩ := List.exists_cons_of_ne_nil hcs.ne_nil
    have hds' : OrderedIn Ordered ((k, d.2) :: ds) k hi := by
      rw [orderedIn_cons] at hds ⊢
      exact hds
    exact orderedIn_append.mpr ⟨.inr hcs, hds'⟩

/-- Two children put together in their node. -/
theorem OrderedIn.merge {A B : List (K × KeyTree ι K V n)}
    (h : OrderedIn Ordered (A ++ (k₁, l) :: (k, r) :: B) lo hi) :
    OrderedIn Ordered (A ++ (k₁, KeyTree.merge k l r) :: B) lo hi := by
  obtain ⟨hbefore, hl, hr, hafter⟩ := orderedIn_focus₂.mp h
  exact orderedIn_focus.mpr ⟨hbefore, hl.merge hr, hafter⟩

end Separated

/-- The sizes of two neighbours put together. -/
theorem Sized.merge {b : Bounds} {short : List ι} (hl : SizedBut b short l)
    (hr : SizedBut b short r) (hmin : b.min n ≤ l.size + r.size)
    (hmax : l.size + r.size ≤ b.max n) (hout : ∀ i ∈ l.below ++ r.below, i ∉ short) :
    Sized b (KeyTree.merge k l r) := by
  cases n with
  | zero =>
    exact ⟨(size_merge l r).symm ▸ hmin, (size_merge l r).symm ▸ hmax⟩
  | succ n =>
    refine ⟨⟨(size_merge l r).symm ▸ hmin, (size_merge l r).symm ▸ hmax⟩, fun c hc => ?_⟩
    have hin : ∃ d ∈ Node.children l ++ Node.children r, d.2 = c.2 := by
      rcases List.mem_append.mp hc with hc | hc
      · exact ⟨c, List.mem_append_left _ hc, rfl⟩
      · cases hds : Node.children r with
        | nil =>
          rw [hds] at hc
          cases hc
        | cons d ds =>
          rw [hds] at hc
          rcases List.mem_cons.mp hc with rfl | hc
          · exact ⟨d, List.mem_append_right _ List.mem_cons_self, rfl⟩
          · exact ⟨c, List.mem_append_right _ (List.mem_cons_of_mem d hc), rfl⟩
    obtain ⟨d, hd, hdc⟩ := hin
    rw [← hdc]
    have hids : ∀ i ∈ d.2.ids, i ∉ short := fun i hi => hout i (by
      rcases List.mem_append.mp hd with hd | hd
      · exact List.mem_append_left _ (List.mem_flatMap.mpr ⟨d, hd, hi⟩)
      · exact List.mem_append_right _ (List.mem_flatMap.mpr ⟨d, hd, hi⟩))
    rcases List.mem_append.mp hd with hd | hd
    · exact (hl.2 d hd).sized hids
    · exact (hr.2 d hd).sized hids

end Merge

/-! ## Between two neighbours -/

/-- The last key of the root. -/
def lastKey : {n : ℕ} → KeyTree ι K V n → Option K
  | 0, t => (Leaf.entries t).getLast?.map Prod.fst
  | _ + 1, t => (Node.children t).getLast?.map Prod.fst

section Seam

/-- A node with two children has two leaves. -/
theorem two_le_length_leaves {n : ℕ} {t : KeyTree ι K V (n + 1)} (h : Branches t)
    (hsize : 2 ≤ t.size) : 2 ≤ t.leaves.length := by
  obtain ⟨i, cs, rfl⟩ := exists_node t
  match cs, hsize with
  | c :: d :: cs, _ =>
    have hc := List.length_pos_of_ne_nil (h.2 c List.mem_cons_self).leaves_ne_nil
    have hd := List.length_pos_of_ne_nil
      (h.2 d (List.mem_cons_of_mem c List.mem_cons_self)).leaves_ne_nil
    rw [leaves_node, List.flatMap_cons, List.flatMap_cons, List.length_append, List.length_append]
    omega

variable [LinearOrder K] {lo : WithBot K} {hi : WithTop K} {k : K}

/-- The last key of a leaf, or of a node with two children, is within the bounds. -/
theorem Separated.within_lastKey {n : ℕ} {t : KeyTree ι K V n} (h : Separated t lo hi)
    (hsize : n = 0 ∨ 2 ≤ t.size) (hk : k ∈ t.lastKey) : Within lo hi k := by
  cases n with
  | zero =>
    obtain ⟨e, he, rfl⟩ := Option.map_eq_some_iff.mp hk
    exact h.2 e (List.mem_of_getLast? he)
  | succ n =>
    obtain ⟨c, hc, rfl⟩ := Option.map_eq_some_iff.mp hk
    obtain ⟨i, cs, rfl⟩ := exists_node t
    have hin : SeparatedIn Separated cs lo hi := h
    match cs, hsize.resolve_left (Nat.succ_ne_zero n) with
    | a :: b :: cs, _ =>
      have hlast : (b :: cs).getLast? = some c := hc
      exact hin.within c (List.mem_of_getLast? hlast)

/-- **The last key leads to the last leaf**, in a leaf or a node above leaves with the
key within its bounds. -/
theorem Routes.of_lastKey {n : ℕ} {t : KeyTree ι K V n} (hn : n ≤ 1) (hk : k ∈ t.lastKey)
    (hw : Within lo hi k) : ∃ (ls : List (Leaf ι K V)) (l : Leaf ι K V), t.leaves = ls ++ [l] ∧
      Routes (fun lo hi => Within lo hi k) t l lo hi := by
  match n, hn, t, hk with
  | 0, _, t, _ => exact ⟨[], t, rfl, rfl, hw⟩
  | 1, _, t, hk =>
    obtain ⟨c, hc, rfl⟩ := Option.map_eq_some_iff.mp hk
    obtain ⟨cs, hcs⟩ := List.getLast?_eq_some_iff.mp hc
    obtain ⟨i, ds, rfl⟩ := exists_node t
    obtain rfl : ds = cs ++ [c] := hcs
    refine ⟨cs.flatMap (fun c => c.2.leaves), c.2, ?_, cs, c, [], rfl, rfl, ?_, hw.2⟩
    · rw [leaves_node, List.flatMap_append]
      rfl
    · cases cs with
      | nil => exact hw.1
      | cons d cs => exact le_rfl

/-- One entry is in one place only, if the entries are in order. -/
theorem eq_of_entry {T : Type} {E : T → List (K × V)} {ts : List T}
    (h : (ts.flatMap E).Pairwise (fun e f => e.1 < f.1)) {t t' : T} (ht : t ∈ ts) (ht' : t' ∈ ts)
    {e : K × V} (he : e ∈ E t) (he' : e ∈ E t') : t = t' := by
  have hpair : ts.Pairwise (fun t t' => ∀ e ∈ E t, e ∉ E t') :=
    (List.pairwise_flatMap.mp h).2.imp (fun hlt e he he' => lt_irrefl _ (hlt e he e he'))
  have : Std.Symm (fun t t' : T => ∀ e ∈ E t, e ∉ E t') := ⟨fun _ _ hxy e he he' => hxy e he' he⟩
  by_contra hne
  exact hpair.forall ht ht' hne e he he'

/-- **Where the leaves of two nodes meet**: if the first key of a leaf is above the
entries of one leaf and not above those of the next one, it is that next leaf. -/
theorem eq_seam {X Y P Q : List (Leaf ι K V)} {a b p q : Leaf ι K V} {e : K × V}
    {es : List (K × V)}
    (hsorted : ((X ++ a :: b :: Y).flatMap Leaf.entries).Pairwise (fun e f => e.1 < f.1))
    (ha : a.entries ≠ []) (hb : b.entries ≠ []) (h : X ++ a :: b :: Y = P ++ p :: q :: Q)
    (hq : q.entries = e :: es) (hbelow : ∀ f ∈ a.entries, f.1 < e.1)
    (habove : ∀ f ∈ b.entries, e.1 ≤ f.1) : X = P ∧ a = p ∧ b = q ∧ Y = Q := by
  have hpair := (List.pairwise_flatMap.mp hsorted).2
  have he : e ∈ q.entries := hq ▸ List.mem_cons_self
  obtain ⟨as, rfl, has⟩ | ⟨as, rfl, has⟩ := List.append_eq_append_iff.mp h
  · cases as with
    | nil =>
      obtain ⟨hap, hrest⟩ := List.cons.inj has
      exact ⟨(List.append_nil X).symm, hap, List.cons.inj hrest⟩
    | cons a' as =>
      -- the leaf with the first key comes after the second of the two leaves
      obtain ⟨rfl, hrest⟩ := List.cons.inj has
      have hq : q ∈ Y := by
        cases as with
        | nil => exact (List.cons.inj hrest).2 ▸ List.mem_cons_self
        | cons b' as =>
          rw [(List.cons.inj hrest).2]
          exact List.mem_append_right as (List.mem_cons_of_mem p List.mem_cons_self)
      have hbY := (List.pairwise_append.mp hpair).2.1
      obtain ⟨f, hf⟩ := List.exists_mem_of_ne_nil _ hb
      have hlt := (List.pairwise_cons.mp (List.pairwise_cons.mp hbY).2).1 q hq f hf e he
      exact absurd hlt (not_lt.mpr (habove f hf))
  · cases as with
    | nil =>
      obtain ⟨hap, hrest⟩ := List.cons.inj has
      obtain ⟨hbq, hY⟩ := List.cons.inj hrest
      exact ⟨List.append_nil P, hap.symm, hbq.symm, hY.symm⟩
    | cons p' as =>
      -- or it is the first of the two, or before it
      obtain ⟨-, hrest⟩ := List.cons.inj has
      obtain ⟨f, hf⟩ := List.exists_mem_of_ne_nil _ ha
      cases as with
      | nil =>
        obtain ⟨rfl, -⟩ := List.cons.inj hrest
        exact absurd (hbelow e he) (lt_irrefl _)
      | cons q' as =>
        obtain ⟨rfl, -⟩ := List.cons.inj hrest
        have hlt : e.1 < f.1 := (List.pairwise_append.mp hpair).2.2 q
          (List.mem_append_right P (List.mem_cons_of_mem _ List.mem_cons_self)) a
          List.mem_cons_self e he f hf
        exact absurd hlt (not_lt.mpr (hbelow f hf).le)

end Seam

section Move

variable [LinearOrder K] {i j : ι} {k k' kc : K} {lo : WithBot K} {hi : WithTop K}

/-- The first entry of the second of two leaves goes to the first one. -/
theorem Ordered.moveFirst_leaf {es fs : List (K × V)} {e f : K × V}
    (hl : Ordered (leaf i es) lo k) (hr : Ordered (leaf j (e :: f :: fs)) k hi) :
    Ordered (leaf i (es ++ [e])) lo f.1 ∧ Ordered (leaf j (f :: fs)) f.1 hi := by
  obtain ⟨hes, hsorted, hwithin⟩ := hl
  obtain ⟨-, hsorted', hwithin'⟩ := hr
  obtain ⟨he, hfs⟩ := List.pairwise_cons.mp hsorted'
  have hke : k ≤ e.1 := WithBot.coe_le_coe.mp (hwithin' e List.mem_cons_self).1
  have hlt : ∀ d ∈ es, d.1 < e.1 := fun d hd =>
    (WithTop.coe_lt_coe.mp (hwithin d hd).2).trans_le hke
  have hef : e.1 < f.1 := he f List.mem_cons_self
  refine ⟨⟨List.append_ne_nil_of_left_ne_nil hes _, ?_, fun d hd => ?_⟩,
    ⟨List.cons_ne_nil f fs, hfs, fun d hd => ?_⟩⟩
  · refine List.pairwise_append.mpr ⟨hsorted, List.pairwise_singleton _ _, fun d hd g hg => ?_⟩
    rw [List.mem_singleton.mp hg]
    exact hlt d hd
  · rcases List.mem_append.mp hd with hd | hd
    · exact ⟨(hwithin d hd).1, WithTop.coe_lt_coe.mpr ((hlt d hd).trans hef)⟩
    · obtain ⟨g, hg⟩ := List.exists_mem_of_ne_nil es hes
      rw [List.mem_singleton.mp hd]
      exact ⟨(hwithin g hg).1.trans (WithBot.coe_le_coe.mpr (hlt g hg).le),
        WithTop.coe_lt_coe.mpr hef⟩
  · refine ⟨WithBot.coe_le_coe.mpr ?_, (hwithin' d (List.mem_cons_of_mem e hd)).2⟩
    rcases List.mem_cons.mp hd with rfl | hd
    · exact le_rfl
    · exact ((List.pairwise_cons.mp hfs).1 d hd).le

/-- The last entry of the first of two leaves goes to the second one. -/
theorem Ordered.moveLast_leaf {es fs : List (K × V)} {e : K × V} (hes : es ≠ [])
    (hl : Ordered (leaf i (es ++ [e])) lo k) (hr : Ordered (leaf j fs) k hi) :
    Ordered (leaf i es) lo e.1 ∧ Ordered (leaf j (e :: fs)) e.1 hi := by
  obtain ⟨-, hsorted, hwithin⟩ := hl
  obtain ⟨hfs, hsorted', hwithin'⟩ := hr
  obtain ⟨hsorted, -, hlt⟩ := List.pairwise_append.mp hsorted
  have hek : e.1 < k :=
    WithTop.coe_lt_coe.mp (hwithin e (List.mem_append_right es List.mem_cons_self)).2
  have hgt : ∀ f ∈ fs, e.1 < f.1 := fun f hf =>
    hek.trans_le (WithBot.coe_le_coe.mp (hwithin' f hf).1)
  refine ⟨⟨hes, hsorted, fun d hd => ⟨(hwithin d (List.mem_append_left _ hd)).1, ?_⟩⟩,
    ⟨List.cons_ne_nil e fs, List.pairwise_cons.mpr ⟨hgt, hsorted'⟩, fun d hd => ?_⟩⟩
  · exact WithTop.coe_lt_coe.mpr (hlt d hd e List.mem_cons_self)
  · rcases List.mem_cons.mp hd with rfl | hd
    · obtain ⟨f, hf⟩ := List.exists_mem_of_ne_nil fs hfs
      exact ⟨le_rfl, (WithTop.coe_lt_coe.mpr (hgt f hf)).trans (hwithin' f hf).2⟩
    · exact ⟨WithBot.coe_le_coe.mpr (hgt d hd).le, (hwithin' d hd).2⟩

variable {n : ℕ} {cs ds : List (K × KeyTree ι K V n)} {c d d' : K × KeyTree ι K V n}

/-- The first key below an ordered tree is a lower bound. -/
theorem Ordered.from_head {t : KeyTree ι K V n} (h : Ordered t lo hi) {e : K × V}
    {es : List (K × V)} (he : t.entries = e :: es) : Ordered t e.1 hi ∧ Within lo hi e.1 := by
  obtain ⟨-, hsorted, hwithin⟩ := h.spread
  rw [he] at hsorted hwithin
  refine ⟨h.rebound (fun f hf => ?_), hwithin e List.mem_cons_self⟩
  rw [he] at hf
  refine ⟨WithBot.coe_le_coe.mpr ?_, (hwithin f hf).2⟩
  rcases List.mem_cons.mp hf with rfl | hf
  · exact le_rfl
  · exact ((List.pairwise_cons.mp hsorted).1 f hf).le

/-- An ordered tree below a greater bound. -/
theorem Ordered.up {t : KeyTree ι K V n} {hi' : WithTop K} (h : Ordered t lo hi) (hle : hi ≤ hi') :
    Ordered t lo hi' :=
  h.rebound (fun e he => ⟨(h.spread.2.2 e he).1, (h.spread.2.2 e he).2.trans_le hle⟩)

/-- **The first child of the second of two neighbours** goes to the first one. -/
theorem Ordered.moveFirst {e f : K × V} {es fs : List (K × V)}
    (hl : Ordered (node i cs) lo k) (hr : Ordered (node j (d :: d' :: ds)) k hi)
    (he : d.2.entries = e :: es) (hf : d'.2.entries = f :: fs) :
    Ordered (node i (cs ++ [(e.1, d.2)])) lo f.1 ∧ Ordered (node j (d' :: ds)) f.1 hi := by
  obtain ⟨hd, hrest⟩ : Ordered d.2 k d'.1 ∧ Ordered (node j (d' :: ds)) d'.1 hi := hr
  obtain ⟨hde, hke⟩ := hd.from_head he
  have hhead : (node j (d' :: ds)).entries = f :: (fs ++ ds.flatMap (fun c => c.2.entries)) := by
    rw [entries_node, List.flatMap_cons, hf, List.cons_append]
  obtain ⟨hrest', hkf⟩ := hrest.from_head hhead
  have hle : (k : WithTop K) ≤ e.1 := WithTop.coe_le_coe.mpr (WithBot.coe_le_coe.mp hke.1)
  obtain ⟨c, cs, rfl⟩ := List.exists_cons_of_ne_nil (OrderedIn.ne_nil hl)
  refine ⟨orderedIn_append.mpr ⟨.inr (hl.up hle), ?_⟩, hrest'⟩
  exact hde.up (WithTop.coe_le_coe.mpr (WithBot.coe_le_coe.mp hkf.1))

/-- **The last child of the first of two neighbours** goes to the second one. -/
theorem Ordered.moveLast {e f : K × V} {es fs : List (K × V)} (hcs : cs ≠ [])
    (hl : Ordered (node i (cs ++ [c])) lo k) (hr : Ordered (node j (d :: ds)) k hi)
    (he : c.2.entries = e :: es) (hf : d.2.entries = f :: fs) :
    Ordered (node i cs) lo e.1 ∧ Ordered (node j (c :: (f.1, d.2) :: ds)) e.1 hi := by
  have hin : OrderedIn Ordered (cs ++ c :: []) lo (k : WithTop K) := hl
  obtain ⟨hbefore, hc⟩ := orderedIn_append.mp hin
  have hbefore : Ordered (node i cs) lo c.1 := hbefore.resolve_left hcs
  obtain ⟨b, cs, rfl⟩ := List.exists_cons_of_ne_nil hcs
  have hc : Ordered c.2 c.1 k := hc
  obtain ⟨hce, hke⟩ := hc.from_head he
  have hhead : (node j (d :: ds)).entries = f :: (fs ++ ds.flatMap (fun c => c.2.entries)) := by
    rw [entries_node, List.flatMap_cons, hf, List.cons_append]
  obtain ⟨hr', hkf⟩ := hr.from_head hhead
  refine ⟨hbefore.up (WithTop.coe_le_coe.mpr (WithBot.coe_le_coe.mp hke.1)), ?_, ?_⟩
  · exact hce.up (WithTop.coe_le_coe.mpr (WithBot.coe_le_coe.mp hkf.1))
  · have hin : OrderedIn Ordered (d :: ds) f.1 hi := hr'
    have hparts := orderedIn_cons.mp hin
    exact orderedIn_cons.mpr hparts

end Move

end KeyTree
