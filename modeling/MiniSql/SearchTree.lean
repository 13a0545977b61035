import MiniSql.KeyTree
import Mathlib.Data.List.Perm.Basic

/-!
# Search trees with leaves that may be empty

`KeyTree.Ordered` asks for leaves that are not empty, and gets the order of the
keys in the inner nodes from their entries. `Separated` asks for less: the
leaves may be empty, and the keys of the inner nodes are in order and within
the bounds of their node as the entries are.

The rest is about one more entry in such a tree. A child is replaced by one or
two others (`SeparatedIn.replace`), and a node that has become too large is cut
in two (`SeparatedIn.cut`); the key at the cut is above the lower bound, so it
has its place among the keys of the parent.
-/

namespace KeyTree

variable {ι K V T : Type}

/-! ## Children, cut and put together -/

section OrderedIn

variable {O : T → WithBot K → WithTop K → Prop} {lo : WithBot K} {hi : WithTop K}

/-- **Children before and from a child on.** -/
theorem orderedIn_append {A B : List (K × T)} {c : K × T} :
    OrderedIn O (A ++ c :: B) lo hi ↔
      OrderedBefore O A lo c.1 ∧ OrderedIn O (c :: B) (start A c.1 lo) hi := by
  rw [orderedIn_focus, orderedIn_cons]

/-- Children that satisfy another predicate. -/
theorem OrderedIn.imp {O' : T → WithBot K → WithTop K → Prop}
    (himp : ∀ t lo hi, O t lo hi → O' t lo hi) {cs : List (K × T)} (h : OrderedIn O cs lo hi) :
    OrderedIn O' cs lo hi := by
  induction cs generalizing lo with
  | nil => exact h
  | cons c cs ih =>
    cases cs with
    | nil => exact himp _ _ _ h
    | cons d cs => exact ⟨himp _ _ _ h.1, ih h.2⟩

end OrderedIn

variable [LinearOrder K] {n : ℕ} {lo lo' : WithBot K} {hi hi' : WithTop K}

/-- Children between two bounds, the keys between them being in order and
within the bounds too. The key of the first child is not looked at. -/
structure SeparatedIn (O : T → WithBot K → WithTop K → Prop) (cs : List (K × T))
    (lo : WithBot K) (hi : WithTop K) : Prop where
  children : OrderedIn O cs lo hi
  sorted : cs.tail.Pairwise (fun c d => c.1 < d.1)
  within : ∀ c ∈ cs.tail, Within lo hi c.1

/-- The entries of the leaves and the keys of the inner nodes are in order and
within the bounds that the keys above give them. -/
def Separated : {n : ℕ} → KeyTree ι K V n → WithBot K → WithTop K → Prop
  | 0, t, lo, hi => t.entries.Pairwise (fun e f => e.1 < f.1) ∧ ∀ e ∈ t.entries, Within lo hi e.1
  | _ + 1, t, lo, hi => SeparatedIn Separated (Node.children t) lo hi

/-! ## Bounds -/

section SeparatedIn

variable {O : T → WithBot K → WithTop K → Prop} {A B : List (K × T)} {c d : K × T}

/-- What is before a child, if there is anything. -/
def SeparatedBefore (O : T → WithBot K → WithTop K → Prop) (A : List (K × T)) (lo : WithBot K)
    (k : K) : Prop := A = [] ∨ SeparatedIn O A lo k

/-- The last children, if there are any. -/
def SeparatedAfter (O : T → WithBot K → WithTop K → Prop) : List (K × T) → WithTop K → Prop
  | [], _ => True
  | c :: cs, hi => SeparatedIn O (c :: cs) c.1 hi

/-- The bounds of a child lie within those of its node. -/
theorem SeparatedIn.bounds (h : SeparatedIn O (A ++ c :: B) lo hi) :
    lo ≤ start A c.1 lo ∧ stop B hi ≤ hi := by
  constructor
  · cases A with
    | nil => exact le_rfl
    | cons a A => exact (h.within c (List.mem_append_right A List.mem_cons_self)).1
  · cases B with
    | nil => exact le_rfl
    | cons b B =>
      refine (h.within b ?_).2.le
      cases A with
      | nil => exact List.mem_cons_self
      | cons a A => exact List.mem_append_right A (List.mem_cons_of_mem c List.mem_cons_self)

/-- The keys from a child on are above the key of the child. -/
theorem SeparatedIn.lt_of_mem (h : SeparatedIn O (A ++ c :: B) lo hi) (hA : A ≠ []) :
    ∀ d ∈ B, c.1 < d.1 := by
  obtain ⟨a, A, rfl⟩ := List.exists_cons_of_ne_nil hA
  exact (List.pairwise_cons.mp (h.sorted.sublist (List.sublist_append_right A _))).1

/-- The key of a child is above those before it. -/
theorem SeparatedIn.gt_of_mem (h : SeparatedIn O (A ++ c :: B) lo hi) :
    ∀ d ∈ A.tail, d.1 < c.1 := by
  cases A with
  | nil => exact fun d hd => absurd hd List.not_mem_nil
  | cons a A =>
    exact fun d hd => (List.pairwise_append.mp h.sorted).2.2 d hd c List.mem_cons_self

/-- **One child among its neighbours**, with what is on either side of it. -/
theorem SeparatedIn.focus (h : SeparatedIn O (A ++ c :: B) lo hi) :
    SeparatedBefore O A lo c.1 ∧ O c.2 (start A c.1 lo) (stop B hi) ∧ SeparatedAfter O B hi := by
  obtain ⟨hbefore, hc, hafter⟩ := orderedIn_focus.mp h.children
  refine ⟨hbefore.imp_right (fun hA => ⟨hA, ?_, fun d hd => ?_⟩), hc, ?_⟩
  · cases A with
    | nil => exact List.Pairwise.nil
    | cons a A => exact h.sorted.sublist (List.sublist_append_left A _)
  · refine ⟨(h.within d ?_).1, WithTop.coe_lt_coe.mpr (h.gt_of_mem d hd)⟩
    cases A with
    | nil => cases hd
    | cons a A => exact List.mem_append_left _ hd
  · cases B with
    | nil => trivial
    | cons b B =>
      have hsub : (b :: B).Sublist (A ++ c :: b :: B).tail := by
        cases A with
        | nil => exact List.Sublist.refl _
        | cons a A => exact (List.sublist_cons_self c _).trans (List.sublist_append_right A _)
      have hpair := List.pairwise_cons.mp (h.sorted.sublist hsub)
      refine ⟨hafter, hpair.2, fun d hd => ⟨WithBot.coe_le_coe.mpr (hpair.1 d hd).le, ?_⟩⟩
      exact (h.within d (hsub.subset (List.mem_cons_of_mem b hd))).2

/-- Without its first child. -/
theorem SeparatedIn.tail (h : SeparatedIn O (c :: d :: B) lo hi) : SeparatedIn O (d :: B) d.1 hi :=
  (SeparatedIn.focus (A := []) h).2.2

/-- **The entries of separated children** are in order and within the bounds. -/
theorem SeparatedIn.spread {E : T → List (K × V)}
    (hO : ∀ t lo hi, O t lo hi →
      (E t).Pairwise (fun e f => e.1 < f.1) ∧ ∀ e ∈ E t, Within lo hi e.1)
    {cs : List (K × T)} (h : SeparatedIn O cs lo hi) :
    (cs.flatMap (fun c => E c.2)).Pairwise (fun e f => e.1 < f.1) ∧
      ∀ e ∈ cs.flatMap (fun c => E c.2), Within lo hi e.1 := by
  induction cs generalizing lo with
  | nil => exact h.children.elim
  | cons c cs ih =>
    cases cs with
    | nil =>
      rw [List.flatMap_cons, List.flatMap_nil, List.append_nil]
      exact hO _ _ _ h.children
    | cons d cs =>
      obtain ⟨hpair, hwithin⟩ := hO _ _ _ h.children.1
      obtain ⟨hpair', hwithin'⟩ := ih h.tail
      have hd := h.within d List.mem_cons_self
      rw [List.flatMap_cons]
      refine ⟨List.pairwise_append.mpr ⟨hpair, hpair', fun e he f hf => ?_⟩, fun e he => ?_⟩
      · exact (WithTop.coe_lt_coe.mp (hwithin e he).2).trans_le
          (WithBot.coe_le_coe.mp (hwithin' f hf).1)
      · rcases List.mem_append.mp he with he | he
        · exact ⟨(hwithin e he).1, (hwithin e he).2.trans hd.2⟩
        · exact ⟨hd.1.trans (hwithin' e he).1, (hwithin' e he).2⟩

end SeparatedIn

/-- **The entries of a separated tree** are in order and within its bounds. -/
theorem Separated.spread : {n : ℕ} → {t : KeyTree ι K V n} → {lo : WithBot K} → {hi : WithTop K} →
    Separated t lo hi →
    t.entries.Pairwise (fun e f => e.1 < f.1) ∧ ∀ e ∈ t.entries, Within lo hi e.1
  | 0, _, _, _, h => h
  | _ + 1, _, _, _, h => SeparatedIn.spread (E := entries) (fun _ _ _ => Separated.spread) h

/-- A separated tree branches. -/
theorem Separated.branches : {n : ℕ} → {t : KeyTree ι K V n} → {lo : WithBot K} →
    {hi : WithTop K} → Separated t lo hi → Branches t
  | 0, _, _, _, _ => trivial
  | _ + 1, _, _, _, h => by
    refine ⟨h.children.ne_nil, fun c hc => ?_⟩
    obtain ⟨A, B, hAB⟩ := List.append_of_mem hc
    rw [Separated, hAB] at h
    exact h.focus.2.1.branches

/-- **A key within the bounds of a child** is above what is in the children before it, and
below what is in those after it. -/
theorem lt_entries_of_within {A B : List (K × KeyTree ι K V n)} {c : K × KeyTree ι K V n} {k : K}
    (h : SeparatedIn Separated (A ++ c :: B) lo hi)
    (hk : Within (start A c.1 lo) (stop B hi) k) :
    (∀ e ∈ A.flatMap (fun c => c.2.entries), e.1 < k) ∧
      ∀ e ∈ B.flatMap (fun c => c.2.entries), k < e.1 := by
  obtain ⟨hbefore, -, hafter⟩ := h.focus
  have hspread : ∀ (t : KeyTree ι K V n) (lo : WithBot K) (hi : WithTop K), Separated t lo hi →
      t.entries.Pairwise (fun e f => e.1 < f.1) ∧ ∀ e ∈ t.entries, Within lo hi e.1 :=
    fun _ _ _ => Separated.spread
  constructor
  · intro e hA
    cases A with
    | nil => cases hA
    | cons a A =>
      have hin := hbefore.resolve_left (List.cons_ne_nil a A)
      have hlt := ((hin.spread hspread).2 e hA).2
      exact (WithTop.coe_lt_coe.mp hlt).trans_le (WithBot.coe_le_coe.mp hk.1)
  · intro e hB
    cases B with
    | nil => cases hB
    | cons b B =>
      have hle := ((SeparatedIn.spread hspread hafter).2 e hB).1
      exact (WithTop.coe_lt_coe.mp hk.2).trans_le (WithBot.coe_le_coe.mp hle)

/-- It is in no other child. -/
theorem mem_entries_of_within {A B : List (K × KeyTree ι K V n)} {c : K × KeyTree ι K V n}
    {k : K} {v : V} (h : SeparatedIn Separated (A ++ c :: B) lo hi)
    (hk : Within (start A c.1 lo) (stop B hi) k) :
    (k, v) ∈ (A ++ c :: B).flatMap (fun c => c.2.entries) ↔ (k, v) ∈ c.2.entries := by
  obtain ⟨hbefore, hafter⟩ := lt_entries_of_within h hk
  rw [List.flatMap_append, List.flatMap_cons]
  refine ⟨fun hmem => ?_, fun hmem => List.mem_append_right _ (List.mem_append_left _ hmem)⟩
  rcases List.mem_append.mp hmem with hA | hmem
  · exact absurd (hbefore _ hA) (lt_irrefl k)
  · rcases List.mem_append.mp hmem with hc | hB
    · exact hc
    · exact absurd (hafter _ hB) (lt_irrefl k)

/-- A key within the bounds of a leaf is within those of the tree. -/
theorem Separated.within_of_routes {k : K} : {n : ℕ} → {t : KeyTree ι K V n} → {l : Leaf ι K V} →
    {lo : WithBot K} → {hi : WithTop K} → Separated t lo hi →
    Routes (fun lo hi => Within lo hi k) t l lo hi → Within lo hi k
  | 0, _, _, _, _, _, h => h.2
  | n + 1, t, _, lo, hi, hsep, ⟨A, c, B, hcs, h⟩ => by
    have hin : SeparatedIn Separated (Node.children t) lo hi := hsep
    rw [hcs] at hin
    have hchild := hin.focus.2.1.within_of_routes h
    exact ⟨hin.bounds.1.trans hchild.1, hchild.2.trans_le hin.bounds.2⟩

/-- **The entries around a leaf** whose bounds a key is within: those before it have smaller
keys, and those after it have greater ones. -/
theorem Separated.entries_of_routes {k : K} : {n : ℕ} → {t : KeyTree ι K V n} →
    {l : Leaf ι K V} → {lo : WithBot K} → {hi : WithTop K} → Separated t lo hi →
    Routes (fun lo hi => Within lo hi k) t l lo hi →
    ∃ P Q, t.entries = P ++ l.entries ++ Q ∧ (∀ e ∈ P, e.1 < k) ∧ ∀ e ∈ Q, k < e.1
  | 0, t, l, _, _, _, h => ⟨[], [], by rw [List.append_nil, h.1]; rfl, nofun, nofun⟩
  | n + 1, t, l, lo, hi, hsep, ⟨A, c, B, hcs, h⟩ => by
    have hin : SeparatedIn Separated (Node.children t) lo hi := hsep
    rw [hcs] at hin
    obtain ⟨P, Q, hentries, hP, hQ⟩ := hin.focus.2.1.entries_of_routes h
    obtain ⟨hA, hB⟩ := lt_entries_of_within hin (hin.focus.2.1.within_of_routes h)
    refine ⟨A.flatMap (fun c => c.2.entries) ++ P, Q ++ B.flatMap (fun c => c.2.entries),
      ?_, ?_, ?_⟩
    · show (Node.children t).flatMap (fun c => c.2.entries) = _
      rw [hcs, List.flatMap_append, List.flatMap_cons, hentries]
      simp only [List.append_assoc]
    · exact fun e he => (List.mem_append.mp he).elim (hA e) (hP e)
    · exact fun e he => (List.mem_append.mp he).elim (hQ e) (hB e)

/-- The entries of a leaf are in order. -/
theorem Separated.sorted_of_mem_leaves {t : KeyTree ι K V n} {l : Leaf ι K V}
    (h : Separated t lo hi) (hl : l ∈ t.leaves) :
    l.entries.Pairwise (fun e f => e.1 < f.1) := by
  obtain ⟨A, B, hleaves⟩ := List.append_of_mem hl
  refine h.spread.1.sublist ?_
  rw [entries_eq, hleaves, List.flatMap_append, List.flatMap_cons]
  exact (List.sublist_append_left _ _).trans (List.sublist_append_right _ _)

/-- There is a way to the leaf of an entry. -/
theorem Separated.routes_of_mem : {n : ℕ} → {t : KeyTree ι K V n} → {l : Leaf ι K V} →
    {lo : WithBot K} → {hi : WithTop K} → {e : K × V} → Separated t lo hi → l ∈ t.leaves →
    e ∈ l.entries → Routes (fun lo hi => Within lo hi e.1) t l lo hi
  | 0, t, l, _, _, e, h, hl, he => by
    obtain rfl : l = t := List.mem_singleton.mp hl
    exact ⟨rfl, h.2 e he⟩
  | n + 1, t, l, lo, hi, e, h, hl, he => by
    obtain ⟨c, hc, hlc⟩ := List.mem_flatMap.mp hl
    obtain ⟨A, B, hcs⟩ := List.append_of_mem hc
    have hin : SeparatedIn Separated (Node.children t) lo hi := h
    rw [hcs] at hin
    exact ⟨A, c, B, hcs, hin.focus.2.1.routes_of_mem hlc he⟩

/-- An ordered tree is separated. -/
theorem Ordered.separated : {n : ℕ} → {t : KeyTree ι K V n} → {lo : WithBot K} →
    {hi : WithTop K} → Ordered t lo hi → Separated t lo hi
  | 0, _, _, _, h => h.2
  | n + 1, t, lo, hi, h => by
    have hspread : ∀ (t : KeyTree ι K V n) (lo : WithBot K) (hi : WithTop K), Ordered t lo hi →
        Spread t.entries lo hi := fun _ _ _ => Ordered.spread
    have hkeys := OrderedIn.pairwise_tail hspread h
    refine ⟨OrderedIn.imp (fun _ _ _ => Ordered.separated) h, hkeys.2,
      fun c hc => ⟨(hkeys.1 c hc).le, ?_⟩⟩
    -- an entry of the child is above its key, and below the upper bound of the node
    obtain ⟨a, cs, hcs⟩ := List.exists_cons_of_ne_nil (OrderedIn.ne_nil h)
    rw [hcs, List.tail_cons] at hc
    obtain ⟨A, B, rfl⟩ := List.append_of_mem hc
    have hin : OrderedIn Ordered (Node.children t) lo hi := h
    rw [hcs, ← List.cons_append] at hin
    have hchild := (orderedIn_focus.mp hin).2.1.spread
    obtain ⟨e, he⟩ := List.exists_mem_of_ne_nil _ hchild.1
    have hmem : e ∈ ((a :: A) ++ c :: B).flatMap (fun c => c.2.entries) :=
      List.mem_flatMap.mpr ⟨c, List.mem_append_right _ List.mem_cons_self, he⟩
    have hle : (c.1 : WithTop K) ≤ e.1 :=
      WithTop.coe_le_coe.mpr (WithBot.coe_le_coe.mp (hchild.2.2 e he).1)
    exact hle.trans_lt ((hin.spread hspread).2.2 e hmem).2

/-! ## One more entry -/

/-- **An entry is put into a leaf** between the smaller and the greater keys. -/
theorem separated_insert {id : ι} {A B : List (K × V)} {e : K × V}
    (h : Separated (leaf id (A ++ B)) lo hi) (he : Within lo hi e.1) (hA : ∀ f ∈ A, f.1 < e.1)
    (hB : ∀ f ∈ B, e.1 < f.1) : Separated (leaf id (A ++ e :: B)) lo hi := by
  obtain ⟨hAs, hBs, hAB⟩ := List.pairwise_append.mp h.1
  refine ⟨List.pairwise_append.mpr ⟨hAs, List.pairwise_cons.mpr ⟨hB, hBs⟩, fun f hf g hg => ?_⟩,
    fun f hf => ?_⟩
  · rcases List.mem_cons.mp hg with rfl | hg
    · exact hA f hf
    · exact hAB f hf g hg
  · rcases List.mem_append.mp hf with hf | hf
    · exact h.2 f (List.mem_append_left B hf)
    · rcases List.mem_cons.mp hf with rfl | hf
      · exact he
      · exact h.2 f (List.mem_append_right A hf)

/-- **A leaf is cut in two.** If there is an entry before the cut, the key at
the cut is above the lower bound. -/
theorem separated_cut {id : ι} (id' : ι) {A B : List (K × V)} {e : K × V}
    (h : Separated (leaf id (A ++ e :: B)) lo hi) (hA : A ≠ []) :
    Separated (leaf id A) lo e.1 ∧ Separated (leaf id' (e :: B)) e.1 hi ∧ Within lo hi e.1 ∧
      lo < (e.1 : WithBot K) := by
  obtain ⟨hAs, hBs, hAB⟩ := List.pairwise_append.mp h.1
  have he : Within lo hi e.1 := h.2 e (List.mem_append_right A List.mem_cons_self)
  obtain ⟨f, hf⟩ := List.exists_mem_of_ne_nil A hA
  have hfe : f.1 < e.1 := hAB f hf e List.mem_cons_self
  refine ⟨⟨hAs, fun g hg => ⟨(h.2 g (List.mem_append_left _ hg)).1, ?_⟩⟩, ⟨hBs, fun g hg => ?_⟩,
    he, (h.2 f (List.mem_append_left _ hf)).1.trans_lt (WithBot.coe_lt_coe.mpr hfe)⟩
  · exact WithTop.coe_lt_coe.mpr (hAB g hg e List.mem_cons_self)
  · refine ⟨?_, (h.2 g (List.mem_append_right A hg)).2⟩
    rcases List.mem_cons.mp hg with rfl | hg
    · exact le_rfl
    · exact WithBot.coe_le_coe.mpr ((List.pairwise_cons.mp hBs).1 g hg).le

/-! ## One more child -/

section SeparatedIn

variable {O : T → WithBot K → WithTop K → Prop} {A B D : List (K × T)} {c d : K × T}

/-- The key of a child is within the bounds of its node, unless it is the first
one. -/
theorem SeparatedIn.within_key (h : SeparatedIn O (A ++ c :: B) lo hi) (hA : A ≠ []) :
    Within lo hi c.1 := by
  obtain ⟨a, A, rfl⟩ := List.exists_cons_of_ne_nil hA
  exact h.within c (List.mem_append_right A List.mem_cons_self)

/-- **A child is replaced** by one or more others between its bounds. The first
one takes its key, and the keys of the others are above its lower bound. -/
theorem SeparatedIn.replace (h : SeparatedIn O (A ++ c :: B) lo hi)
    (hD : SeparatedIn O (d :: D) (start A c.1 lo) (stop B hi)) (hkey : d.1 = c.1)
    (habove : ∀ e ∈ D, start A c.1 lo < (e.1 : WithBot K)) :
    SeparatedIn O (A ++ (d :: D ++ B)) lo hi := by
  obtain ⟨hbefore, -, hafter⟩ := orderedIn_focus.mp h.children
  obtain ⟨hlo, hhi⟩ := h.bounds
  have hlast : (D ++ B).Pairwise (fun c d => c.1 < d.1) := by
    have hB : (c :: B).tail.Pairwise (fun c d => c.1 < d.1) :=
      h.sorted.sublist (List.sublist_append_right A (c :: B)).tail
    refine List.pairwise_append.mpr ⟨hD.sorted, hB, fun e he f hf => ?_⟩
    cases B with
    | nil => cases hf
    | cons b B =>
      have hlt : e.1 < b.1 := WithTop.coe_lt_coe.mp (hD.within e he).2
      rcases List.mem_cons.mp hf with rfl | hf
      · exact hlt
      · exact hlt.trans ((List.pairwise_cons.mp hB).1 f hf)
  have hwithin : ∀ e ∈ D ++ B, Within lo hi e.1 := fun e he => by
    rcases List.mem_append.mp he with he | he
    · exact ⟨hlo.trans (hD.within e he).1, (hD.within e he).2.trans_le hhi⟩
    · refine h.within e ?_
      cases A with
      | nil => exact he
      | cons a A => exact List.mem_append_right A (List.mem_cons_of_mem c he)
  refine ⟨?_, ?_, fun e he => ?_⟩
  · rw [List.cons_append, orderedIn_append, hkey]
    refine ⟨hbefore, ?_⟩
    cases B with
    | nil =>
      rw [List.append_nil]
      exact hD.children
    | cons b B => exact orderedIn_append.mpr ⟨.inr hD.children, hafter⟩
  · cases A with
    | nil => exact hlast
    | cons a A =>
      have hA := List.pairwise_append.mp h.sorted
      have hfrom : (d :: (D ++ B)).Pairwise (fun c d => c.1 < d.1) := by
        refine List.pairwise_cons.mpr ⟨fun e he => ?_, hlast⟩
        rw [hkey]
        rcases List.mem_append.mp he with he | he
        · exact WithBot.coe_lt_coe.mp (habove e he)
        · exact h.lt_of_mem (List.cons_ne_nil a A) e he
      refine List.pairwise_append.mpr ⟨hA.1, hfrom, fun e he f hf => ?_⟩
      have hlt : e.1 < d.1 := hkey ▸ hA.2.2 e he c List.mem_cons_self
      rcases List.mem_cons.mp hf with rfl | hf
      · exact hlt
      · exact hlt.trans ((List.pairwise_cons.mp hfrom).1 f hf)
  · cases A with
    | nil => exact hwithin e he
    | cons a A =>
      rcases List.mem_append.mp he with he | he
      · exact h.within e (List.mem_append_left _ he)
      · rcases List.mem_cons.mp he with rfl | he
        · rw [hkey]
          exact h.within_key (List.cons_ne_nil a A)
        · exact hwithin e he

/-- **A list of children is cut in two.** If there is a key below the cut, the
key at the cut is above the lower bound. -/
theorem SeparatedIn.cut (h : SeparatedIn O (A ++ c :: B) lo hi) (hA : A.tail ≠ []) :
    SeparatedIn O A lo c.1 ∧ SeparatedIn O (c :: B) c.1 hi ∧ Within lo hi c.1 ∧
      lo < (c.1 : WithBot K) := by
  have hne : A ≠ [] := by
    rintro rfl
    exact hA rfl
  have hright := orderedIn_append.mp h.children
  obtain ⟨a, ha⟩ := List.exists_mem_of_ne_nil _ hA
  have hleft := h.focus.1.resolve_left hne
  obtain ⟨b, A, rfl⟩ := List.exists_cons_of_ne_nil hne
  refine ⟨hleft, ⟨hright.2, h.sorted.sublist ?_, fun d hd => ⟨?_, ?_⟩⟩, h.within_key hne, ?_⟩
  · exact (List.sublist_cons_self c B).trans (List.sublist_append_right A _)
  · exact WithBot.coe_le_coe.mpr (h.lt_of_mem hne d hd).le
  · exact (h.within d (List.mem_append_right A (List.mem_cons_of_mem c hd))).2
  · exact (hleft.within a ha).1.trans_lt (WithBot.coe_lt_coe.mpr (h.gt_of_mem a ha))

end SeparatedIn

end KeyTree
