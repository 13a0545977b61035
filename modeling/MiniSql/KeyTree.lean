import Mathlib.Data.List.Nodup
import Mathlib.Order.WithBot

/-!
# Search trees with the entries in the leaves

The trees behind a B+ tree. A tree has a height, its leaves hold entries, and
an inner node holds children with a key before each of them: the key of a
child is a lower bound of what is in it and an upper bound of what is in the
child before. The key of the first child says nothing. Every node has an
identity.

* `Sized` – every node has as many entries or children as its height allows,
  `Filled` – every node but the root has;
* `Ordered` – the entries are in order and between two bounds, and every key
  separates the children next to it (`OrderedIn`);
* `Routes` – a way from the root down to a leaf.

`orderedIn_focus` takes one child out of a list of children with the bounds
that its neighbours give it, and everything that is said of a change inside a
tree rests on it.
-/

/-- A leaf. -/
structure KeyTree.Leaf (ι K V : Type) where
  /-- The identity. -/
  id : ι
  /-- The entries. -/
  entries : List (K × V)

/-- An inner node. -/
structure KeyTree.Node (ι K T : Type) where
  /-- The identity. -/
  id : ι
  /-- The children, each with the key before it. -/
  children : List (K × T)

/-- A tree of a given height. -/
def KeyTree (ι K V : Type) : ℕ → Type
  | 0 => KeyTree.Leaf ι K V
  | n + 1 => KeyTree.Node ι K (KeyTree ι K V n)

namespace KeyTree

variable {ι K V T : Type}

/-- A tree that is a leaf. -/
def leaf (id : ι) (entries : List (K × V)) : KeyTree ι K V 0 := (⟨id, entries⟩ : Leaf ι K V)

/-- A tree that is an inner node. -/
def node {n : ℕ} (id : ι) (children : List (K × KeyTree ι K V n)) : KeyTree ι K V (n + 1) :=
  (⟨id, children⟩ : Node ι K (KeyTree ι K V n))

/-- The identity of the root. -/
def id : {n : ℕ} → KeyTree ι K V n → ι
  | 0, t => Leaf.id t
  | _ + 1, t => Node.id t

/-- The entries of a leaf or the children of an inner node, counted. -/
def size : {n : ℕ} → KeyTree ι K V n → ℕ
  | 0, t => (Leaf.entries t).length
  | _ + 1, t => (Node.children t).length

/-- All entries, from left to right. -/
def entries : {n : ℕ} → KeyTree ι K V n → List (K × V)
  | 0, t => Leaf.entries t
  | _ + 1, t => (Node.children t).flatMap (fun c => entries c.2)

/-- The leaves, from left to right. -/
def leaves : {n : ℕ} → KeyTree ι K V n → List (Leaf ι K V)
  | 0, t => [t]
  | _ + 1, t => (Node.children t).flatMap (fun c => leaves c.2)

/-- The identities of all nodes. -/
def ids : {n : ℕ} → KeyTree ι K V n → List ι
  | 0, t => [Leaf.id t]
  | _ + 1, t => Node.id t :: (Node.children t).flatMap (fun c => ids c.2)

/-- The identities of all nodes of some trees. -/
def idsIn {n : ℕ} (cs : List (K × KeyTree ι K V n)) : List ι := cs.flatMap (fun c => c.2.ids)

/-- The identity of the first leaf. -/
def first : {n : ℕ} → KeyTree ι K V n → ι
  | 0, t => Leaf.id t
  | _ + 1, t =>
    match Node.children t with
    | [] => Node.id t
    | c :: _ => first c.2

variable {n : ℕ} {id : ι} {cs : List (K × KeyTree ι K V n)} {es : List (K × V)}

@[simp] theorem id_leaf : (leaf id es : KeyTree ι K V 0).id = id := rfl
@[simp] theorem id_node : (node id cs).id = id := rfl
@[simp] theorem size_leaf : (leaf id es : KeyTree ι K V 0).size = es.length := rfl
@[simp] theorem size_node : (node id cs).size = cs.length := rfl
@[simp] theorem entries_leaf : (leaf id es : KeyTree ι K V 0).entries = es := rfl
@[simp] theorem entries_node : (node id cs).entries = cs.flatMap (fun c => c.2.entries) := rfl
@[simp] theorem leaves_leaf : (leaf id es : KeyTree ι K V 0).leaves = [⟨id, es⟩] := rfl
@[simp] theorem leaves_node : (node id cs).leaves = cs.flatMap (fun c => c.2.leaves) := rfl
@[simp] theorem ids_leaf : (leaf id es : KeyTree ι K V 0).ids = [id] := rfl
@[simp] theorem ids_node : (node id cs).ids = id :: idsIn cs := rfl
@[simp] theorem first_leaf : (leaf id es : KeyTree ι K V 0).first = id := rfl
@[simp] theorem first_node_cons {c : K × KeyTree ι K V n} :
    (node id (c :: cs)).first = c.2.first := rfl

/-- A tree of height `n + 1` is an inner node. -/
theorem exists_node (t : KeyTree ι K V (n + 1)) : ∃ id cs, t = node id cs := ⟨Node.id t, _, rfl⟩

theorem id_mem_ids : {n : ℕ} → (t : KeyTree ι K V n) → t.id ∈ t.ids
  | 0, _ => List.mem_cons_self
  | _ + 1, _ => List.mem_cons_self

/-- The entries are those of the leaves. -/
theorem entries_eq : {n : ℕ} → (t : KeyTree ι K V n) → t.entries = t.leaves.flatMap Leaf.entries
  | 0, t => (List.append_nil _).symm
  | n + 1, t => by
    show (Node.children t).flatMap _ = ((Node.children t).flatMap _).flatMap _
    rw [List.flatMap_assoc]
    exact congrArg (fun f => (Node.children t).flatMap f) (funext (fun c => entries_eq c.2))

/-- The identities of all nodes but the root. -/
def below : {n : ℕ} → KeyTree ι K V n → List ι
  | 0, _ => []
  | _ + 1, t => idsIn (Node.children t)

@[simp] theorem below_leaf : (leaf id es : KeyTree ι K V 0).below = [] := rfl
@[simp] theorem below_node : (node id cs).below = idsIn cs := rfl
@[simp] theorem idsIn_nil : idsIn ([] : List (K × KeyTree ι K V n)) = [] := rfl
@[simp] theorem idsIn_cons {c : K × KeyTree ι K V n} : idsIn (c :: cs) = c.2.ids ++ idsIn cs := rfl
@[simp] theorem idsIn_append {A B : List (K × KeyTree ι K V n)} :
    idsIn (A ++ B) = idsIn A ++ idsIn B := List.flatMap_append

theorem ids_eq : {n : ℕ} → (t : KeyTree ι K V n) → t.ids = t.id :: t.below
  | 0, _ => rfl
  | _ + 1, _ => rfl

/-- A leaf is one of the nodes. -/
theorem id_mem_ids_of_mem_leaves : {n : ℕ} → {t : KeyTree ι K V n} → {l : Leaf ι K V} →
    l ∈ t.leaves → l.id ∈ t.ids
  | 0, t, l, h => by
    rw [List.mem_singleton.mp h]
    exact List.mem_cons_self
  | n + 1, t, l, h => by
    obtain ⟨c, hc, hl⟩ := List.mem_flatMap.mp h
    exact List.mem_cons_of_mem _ (List.mem_flatMap.mpr ⟨c, hc, id_mem_ids_of_mem_leaves hl⟩)

/-- A leaf below the root is one of the other nodes. -/
theorem id_mem_below_of_mem_leaves (hn : 0 < n) {t : KeyTree ι K V n} {l : Leaf ι K V}
    (h : l ∈ t.leaves) : l.id ∈ t.below := by
  obtain ⟨n, rfl⟩ := Nat.exists_eq_succ_of_ne_zero hn.ne'
  obtain ⟨c, hc, hl⟩ := List.mem_flatMap.mp h
  exact List.mem_flatMap.mpr ⟨c, hc, id_mem_ids_of_mem_leaves hl⟩

/-- A tree with a leaf has more nodes than levels. -/
theorem height_lt_length_ids : {n : ℕ} → {t : KeyTree ι K V n} → {l : Leaf ι K V} →
    l ∈ t.leaves → n < t.ids.length
  | 0, _, _, _ => Nat.one_pos
  | n + 1, t, l, h => by
    obtain ⟨c, hc, hl⟩ := List.mem_flatMap.mp h
    have hlt := height_lt_length_ids hl
    obtain ⟨A, B, hAB⟩ := List.append_of_mem hc
    have hbelow : t.below = idsIn (A ++ c :: B) := by
      rw [← hAB]
      rfl
    rw [ids_eq, hbelow, idsIn_append, idsIn_cons, List.length_cons, List.length_append,
      List.length_append]
    omega

/-! ## Sizes -/

/-- How many entries or children a node of each height has. -/
structure Bounds where
  /-- The least number. -/
  min : ℕ → ℕ
  /-- The greatest number. -/
  max : ℕ → ℕ

variable (b : Bounds)

/-- Every node has a size within the bounds. -/
def Sized : {n : ℕ} → KeyTree ι K V n → Prop
  | 0, t => b.min 0 ≤ t.size ∧ t.size ≤ b.max 0
  | n + 1, t => (b.min (n + 1) ≤ t.size ∧ t.size ≤ b.max (n + 1)) ∧
      ∀ c ∈ Node.children t, Sized c.2

/-- Every node but the root has a size within the bounds. -/
def Filled : {n : ℕ} → KeyTree ι K V n → Prop
  | 0, _ => True
  | _ + 1, t => ∀ c ∈ Node.children t, Sized b c.2

theorem sized_iff : {n : ℕ} → {t : KeyTree ι K V n} →
    (Sized b t ↔ (b.min n ≤ t.size ∧ t.size ≤ b.max n) ∧ Filled b t)
  | 0, _ => ⟨fun h => ⟨h, trivial⟩, And.left⟩
  | _ + 1, _ => Iff.rfl

/-! ## Order -/

variable {b}

/-- The lower bound of the child that comes after the given ones. -/
def start : List (K × T) → K → WithBot K → WithBot K
  | [], _, lo => lo
  | _ :: _, k, _ => k

/-- The upper bound of the child that comes before the given ones. -/
def stop : List (K × T) → WithTop K → WithTop K
  | [], hi => hi
  | c :: _, _ => c.1

/-- Children that satisfy a predicate on a tree and its bounds, the keys being
the bounds between them. -/
def OrderedIn (O : T → WithBot K → WithTop K → Prop) :
    List (K × T) → WithBot K → WithTop K → Prop
  | [], _, _ => False
  | [c], lo, hi => O c.2 lo hi
  | c :: c' :: cs, lo, hi => O c.2 lo c'.1 ∧ OrderedIn O (c' :: cs) c'.1 hi

section OrderedIn

variable {O : T → WithBot K → WithTop K → Prop} {lo : WithBot K} {hi : WithTop K}

/-- The children before a key, if there are any. -/
def OrderedBefore (O : T → WithBot K → WithTop K → Prop) (A : List (K × T)) (lo : WithBot K)
    (k : K) : Prop := A = [] ∨ OrderedIn O A lo k

/-- The last children, if there are any. -/
def OrderedAfter (O : T → WithBot K → WithTop K → Prop) : List (K × T) → WithTop K → Prop
  | [], _ => True
  | c :: cs, hi => OrderedIn O (c :: cs) c.1 hi

theorem orderedIn_cons {c : K × T} {B : List (K × T)} :
    OrderedIn O (c :: B) lo hi ↔ O c.2 lo (stop B hi) ∧ OrderedAfter O B hi := by
  cases B with
  | nil => exact ⟨fun h => ⟨h, trivial⟩, And.left⟩
  | cons d B => exact Iff.rfl

/-- **One child among its neighbours.** -/
theorem orderedIn_focus {A B : List (K × T)} {c : K × T} :
    OrderedIn O (A ++ c :: B) lo hi ↔
      OrderedBefore O A lo c.1 ∧ O c.2 (start A c.1 lo) (stop B hi) ∧ OrderedAfter O B hi := by
  induction A generalizing lo with
  | nil => simp only [List.nil_append, OrderedBefore, start, orderedIn_cons, true_or, true_and]
  | cons a A ih =>
    cases A with
    | nil =>
      show O a.2 lo c.1 ∧ OrderedIn O (c :: B) c.1 hi ↔ _
      rw [orderedIn_cons]
      simp only [OrderedBefore, OrderedIn, start, List.cons_ne_nil, false_or]
    | cons a' A =>
      show O a.2 lo a'.1 ∧ OrderedIn O (a' :: A ++ c :: B) a'.1 hi ↔ _
      rw [ih]
      simp only [OrderedBefore, OrderedIn, start, List.cons_ne_nil, false_or, and_assoc]

/-- **Two neighbours.** -/
theorem orderedIn_focus₂ {P Q : List (K × T)} {k₁ k₂ : K} {l r : T} :
    OrderedIn O (P ++ (k₁, l) :: (k₂, r) :: Q) lo hi ↔
      OrderedBefore O P lo k₁ ∧ O l (start P k₁ lo) k₂ ∧ O r k₂ (stop Q hi) ∧
        OrderedAfter O Q hi := by
  rw [orderedIn_focus]
  show _ ∧ _ ∧ OrderedIn O ((k₂, r) :: Q) k₂ hi ↔ _
  rw [orderedIn_cons]
  rfl

theorem OrderedIn.ne_nil {A : List (K × T)} (h : OrderedIn O A lo hi) : A ≠ [] := by
  rintro rfl
  exact h

end OrderedIn

section Ordered

variable [LinearOrder K] {lo lo' : WithBot K} {hi hi' : WithTop K}

/-- A key within bounds. -/
def Within (lo : WithBot K) (hi : WithTop K) (k : K) : Prop := lo ≤ k ∧ (k : WithTop K) < hi

/-- Entries that are in order and within bounds; there is at least one. -/
def Spread (es : List (K × V)) (lo : WithBot K) (hi : WithTop K) : Prop :=
  es ≠ [] ∧ es.Pairwise (fun e f => e.1 < f.1) ∧ ∀ e ∈ es, Within lo hi e.1

/-- The entries are in order and within the bounds, and the keys of the inner
nodes separate their children. -/
def Ordered : {n : ℕ} → KeyTree ι K V n → WithBot K → WithTop K → Prop
  | 0, t, lo, hi => Spread t.entries lo hi
  | _ + 1, t, lo, hi => OrderedIn Ordered (Node.children t) lo hi

theorem Spread.append {k : K} {es fs : List (K × V)} (he : Spread es lo k) (hf : Spread fs k hi) :
    Spread (es ++ fs) lo hi := by
  obtain ⟨e₀, he₀⟩ := List.exists_mem_of_ne_nil es he.1
  obtain ⟨f₀, hf₀⟩ := List.exists_mem_of_ne_nil fs hf.1
  have hlo : lo ≤ (k : WithBot K) :=
    (he.2.2 e₀ he₀).1.trans (WithBot.coe_le_coe.mpr (WithTop.coe_lt_coe.mp (he.2.2 e₀ he₀).2).le)
  have hhi : (k : WithTop K) < hi :=
    (WithTop.coe_le_coe.mpr (WithBot.coe_le_coe.mp (hf.2.2 f₀ hf₀).1)).trans_lt (hf.2.2 f₀ hf₀).2
  refine ⟨List.append_ne_nil_of_left_ne_nil he.1 fs, ?_, ?_⟩
  · refine List.pairwise_append.mpr ⟨he.2.1, hf.2.1, fun e hme f hmf => ?_⟩
    exact (WithTop.coe_lt_coe.mp (he.2.2 e hme).2).trans_le
      (WithBot.coe_le_coe.mp (hf.2.2 f hmf).1)
  · intro e hme
    rcases List.mem_append.mp hme with hme | hme
    · exact ⟨(he.2.2 e hme).1, (he.2.2 e hme).2.trans hhi⟩
    · exact ⟨hlo.trans (hf.2.2 e hme).1, (hf.2.2 e hme).2⟩

section OrderedIn

variable {O : T → WithBot K → WithTop K → Prop} {E : T → List (K × V)}

/-- The entries of ordered children, one after the other. -/
theorem OrderedIn.spread (hO : ∀ t lo hi, O t lo hi → Spread (E t) lo hi) {cs : List (K × T)}
    (h : OrderedIn O cs lo hi) : Spread (cs.flatMap (fun c => E c.2)) lo hi := by
  induction cs generalizing lo with
  | nil => exact h.elim
  | cons c cs ih =>
    cases cs with
    | nil =>
      rw [List.flatMap_cons, List.flatMap_nil, List.append_nil]
      exact hO _ _ _ h
    | cons c' cs =>
      rw [List.flatMap_cons]
      exact (hO _ _ _ h.1).append (ih h.2)

/-- The keys between ordered children are in order, above the lower bound. -/
theorem OrderedIn.pairwise_tail (hO : ∀ t lo hi, O t lo hi → Spread (E t) lo hi)
    {cs : List (K × T)} (h : OrderedIn O cs lo hi) :
    (∀ d ∈ cs.tail, lo < (d.1 : WithBot K)) ∧ cs.tail.Pairwise (fun c d => c.1 < d.1) := by
  induction cs generalizing lo with
  | nil => exact h.elim
  | cons c cs ih =>
    cases cs with
    | nil => exact ⟨nofun, List.Pairwise.nil⟩
    | cons c' cs =>
      obtain ⟨hbounds, hpairwise⟩ := ih h.2
      obtain ⟨e, he⟩ := List.exists_mem_of_ne_nil _ (hO _ _ _ h.1).1
      obtain ⟨hlo, hhi⟩ := (hO _ _ _ h.1).2.2 e he
      have hlt : lo < (c'.1 : WithBot K) :=
        hlo.trans_lt (WithBot.coe_lt_coe.mpr (WithTop.coe_lt_coe.mp hhi))
      refine ⟨?_, List.pairwise_cons.mpr
        ⟨fun d hd => WithBot.coe_lt_coe.mp (hbounds d hd), hpairwise⟩⟩
      intro d hd
      rcases List.mem_cons.mp hd with rfl | hd
      · exact hlt
      · exact hlt.trans (hbounds d hd)

/-- Ordered children stay ordered between other bounds for their entries. -/
theorem OrderedIn.rebound (hO : ∀ t lo hi, O t lo hi → Spread (E t) lo hi)
    (hre : ∀ t lo hi lo' hi', O t lo hi → (∀ e ∈ E t, Within lo' hi' e.1) → O t lo' hi')
    {cs : List (K × T)} (h : OrderedIn O cs lo hi)
    (hwithin : ∀ e ∈ cs.flatMap (fun c => E c.2), Within lo' hi' e.1) :
    OrderedIn O cs lo' hi' := by
  induction cs generalizing lo lo' with
  | nil => exact h.elim
  | cons c cs ih =>
    rw [List.flatMap_cons] at hwithin
    cases cs with
    | nil =>
      exact hre _ _ _ _ _ h (fun e he => hwithin e (List.mem_append_left _ he))
    | cons c' cs =>
      refine ⟨hre _ _ _ _ _ h.1 (fun e he => ?_), ih h.2 (fun e he => ?_)⟩
      · exact ⟨(hwithin e (List.mem_append_left _ he)).1, ((hO _ _ _ h.1).2.2 e he).2⟩
      · exact ⟨((OrderedIn.spread hO h.2).2.2 e he).1, (hwithin e (List.mem_append_right _ he)).2⟩

end OrderedIn

/-- A key within the bounds of the children is within those of a child. -/
theorem OrderedIn.exists_child {O : T → WithBot K → WithTop K → Prop} {cs : List (K × T)} {k : K}
    (h : OrderedIn O cs lo hi) (hk : Within lo hi k) :
    ∃ A c B, cs = A ++ c :: B ∧ Within (start A c.1 lo) (stop B hi) k := by
  induction cs generalizing lo with
  | nil => exact h.elim
  | cons c cs ih =>
    cases cs with
    | nil => exact ⟨[], c, [], rfl, hk⟩
    | cons c' cs =>
      by_cases hlt : k < c'.1
      · exact ⟨[], c, c' :: cs, rfl, hk.1, WithTop.coe_lt_coe.mpr hlt⟩
      · obtain ⟨A, d, B, heq, hd⟩ := ih h.2 ⟨WithBot.coe_le_coe.mpr (not_lt.mp hlt), hk.2⟩
        refine ⟨c :: A, d, B, by rw [heq]; rfl, ?_, hd.2⟩
        cases A with
        | nil =>
          cases heq
          exact hd.1
        | cons a A => exact hd.1

/-- **The entries of an ordered tree** are in order and within its bounds. -/
theorem Ordered.spread : {n : ℕ} → {t : KeyTree ι K V n} → {lo : WithBot K} → {hi : WithTop K} →
    Ordered t lo hi → Spread t.entries lo hi
  | 0, _, _, _, h => h
  | _ + 1, _, _, _, h => OrderedIn.spread (E := entries) (fun _ _ _ => Ordered.spread) h

/-- **Any bounds of the entries** of an ordered tree are bounds of the tree. -/
theorem Ordered.rebound : {n : ℕ} → {t : KeyTree ι K V n} → {lo lo' : WithBot K} →
    {hi hi' : WithTop K} → Ordered t lo hi → (∀ e ∈ t.entries, Within lo' hi' e.1) →
    Ordered t lo' hi'
  | 0, _, _, _, _, _, h, hwithin => ⟨h.1, h.2.1, hwithin⟩
  | _ + 1, _, _, _, _, _, h, hwithin =>
    OrderedIn.rebound (E := entries) (fun _ _ _ => Ordered.spread)
      (fun _ _ _ _ _ => Ordered.rebound) h hwithin

/-! ### Decisions -/

instance decidableOrderedIn {O : T → WithBot K → WithTop K → Prop}
    [∀ t lo hi, Decidable (O t lo hi)] : (cs : List (K × T)) → (lo : WithBot K) →
    (hi : WithTop K) → Decidable (OrderedIn O cs lo hi)
  | [], _, _ => inferInstanceAs (Decidable False)
  | [c], lo, hi => inferInstanceAs (Decidable (O c.2 lo hi))
  | c :: c' :: cs, lo, hi =>
    have : Decidable (OrderedIn O (c' :: cs) c'.1 hi) := decidableOrderedIn (c' :: cs) c'.1 hi
    inferInstanceAs (Decidable (O c.2 lo c'.1 ∧ OrderedIn O (c' :: cs) c'.1 hi))

instance decidableWithin (lo : WithBot K) (hi : WithTop K) (k : K) : Decidable (Within lo hi k) :=
  inferInstanceAs (Decidable (lo ≤ k ∧ (k : WithTop K) < hi))

instance decidableSpread (es : List (K × V)) (lo : WithBot K) (hi : WithTop K) :
    Decidable (Spread es lo hi) :=
  have : Decidable (es ≠ []) := decidable_of_iff (es.isEmpty = false) (by cases es <;> simp)
  inferInstanceAs (Decidable (es ≠ [] ∧ _ ∧ ∀ e ∈ es, Within lo hi e.1))

instance decidableOrdered : {n : ℕ} → (t : KeyTree ι K V n) → (lo : WithBot K) →
    (hi : WithTop K) → Decidable (Ordered t lo hi)
  | 0, t, lo, hi => decidableSpread t.entries lo hi
  | n + 1, t, lo, hi =>
    have := fun (t : KeyTree ι K V n) lo hi => decidableOrdered t lo hi
    decidableOrderedIn (Node.children t) lo hi

end Ordered

/-! ## Leaves -/

/-- Every inner node has a child. -/
def Branches : {n : ℕ} → KeyTree ι K V n → Prop
  | 0, _ => True
  | _ + 1, t => Node.children t ≠ [] ∧ ∀ c ∈ Node.children t, Branches c.2

theorem Branches.leaves_ne_nil : {n : ℕ} → {t : KeyTree ι K V n} → Branches t → t.leaves ≠ []
  | 0, t, _ => List.cons_ne_nil t []
  | _ + 1, t, h => by
    obtain ⟨c, hc⟩ := List.exists_mem_of_ne_nil _ h.1
    obtain ⟨l, hl⟩ := List.exists_mem_of_ne_nil _ (h.2 c hc).leaves_ne_nil
    exact List.ne_nil_of_mem (List.mem_flatMap.mpr ⟨c, hc, hl⟩)

/-- The leaves are among the nodes, in this order. -/
theorem leaves_sublist_ids : {n : ℕ} → (t : KeyTree ι K V n) →
    (t.leaves.map Leaf.id).Sublist t.ids
  | 0, _ => List.Sublist.refl _
  | n + 1, t => by
    obtain ⟨id, cs, rfl⟩ := exists_node t
    rw [leaves_node, ids_node]
    refine List.Sublist.cons id ?_
    induction cs with
    | nil => exact List.Sublist.refl _
    | cons c cs ih =>
      rw [List.flatMap_cons, List.map_append, idsIn_cons]
      exact (leaves_sublist_ids c.2).append ih

theorem Sized.branches {b : Bounds} (hmin : ∀ n, 1 ≤ b.min (n + 1)) : {n : ℕ} →
    {t : KeyTree ι K V n} → Sized b t → Branches t
  | 0, _, _ => trivial
  | n + 1, _, h => ⟨List.ne_nil_of_length_pos ((hmin n).trans h.1.1),
      fun c hc => (h.2 c hc).branches hmin⟩

theorem Ordered.branches [LinearOrder K] : {n : ℕ} → {t : KeyTree ι K V n} → {lo : WithBot K} →
    {hi : WithTop K} → Ordered t lo hi → Branches t
  | 0, _, _, _, _ => trivial
  | _ + 1, _, _, _, h => by
    refine ⟨h.ne_nil, fun c hc => ?_⟩
    obtain ⟨A, B, hAB⟩ := List.append_of_mem hc
    rw [Ordered, hAB] at h
    exact (orderedIn_focus.mp h).2.1.branches

/-! ## Ways to a leaf -/

/-- A way from the root down to a leaf, where the bounds of the leaf satisfy a
predicate. -/
def Routes (P : WithBot K → WithTop K → Prop) :
    {n : ℕ} → KeyTree ι K V n → Leaf ι K V → WithBot K → WithTop K → Prop
  | 0, t, l, lo, hi => t = l ∧ P lo hi
  | n + 1, t, l, lo, hi => ∃ (A : List (K × KeyTree ι K V n)) (c : K × KeyTree ι K V n)
      (B : List (K × KeyTree ι K V n)), Node.children t = A ++ c :: B ∧
        Routes P c.2 l (start A c.1 lo) (stop B hi)

theorem Routes.mem_leaves {P : WithBot K → WithTop K → Prop} : {n : ℕ} → {t : KeyTree ι K V n} →
    {l : Leaf ι K V} → {lo : WithBot K} → {hi : WithTop K} → Routes P t l lo hi → l ∈ t.leaves
  | 0, _, _, _, _, h => List.mem_singleton.mpr h.1.symm
  | _ + 1, _, _, _, _, ⟨A, c, B, hcs, h⟩ => by
    refine List.mem_flatMap.mpr ⟨c, ?_, h.mem_leaves⟩
    rw [hcs]
    exact List.mem_append_right _ List.mem_cons_self

end KeyTree
