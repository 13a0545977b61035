import MiniSql.Config
import Mathlib.Data.Finset.Sort
import Mathlib.Data.Prod.Lex

/-!
# AND and OR of conditions

`ExecuteConnector` of `executor/execute_engine.cpp`. Each operand leaves a
`std::set` of row ids, and two iterators walk over the two sets at once, in the
order of `RowId::operator<`. An iterator is what is left to walk over, so one
that has reached the end of its set has nothing to be read.

The loop for `and` looks at both ends before it reads. The loop for `or` reads
the second iterator before it asks whether that one is at its end.
-/

namespace MiniSql

namespace RowId

/-- `RowId::operator<`. -/
def isLess (r r' : RowId) : Bool :=
  if r.pageId < r'.pageId then true
  else if r.pageId = r'.pageId ∧ r.slotNum < r'.slotNum then true
  else false

/-- Row ids by page, then by slot. -/
def toKey (r : RowId) : ℤ ×ₗ ℕ := toLex (r.pageId, r.slotNum)

theorem toKey_injective : Function.Injective toKey := by
  rintro ⟨p, n⟩ ⟨q, m⟩ h
  obtain ⟨rfl, rfl⟩ := Prod.mk.inj (toLex.injective h)
  rfl

instance : LinearOrder RowId := LinearOrder.lift' toKey toKey_injective

/-- The order of the row ids is that of `operator<`. -/
theorem isLess_iff {r r' : RowId} : r.isLess r' ↔ r < r' := by
  show _ ↔ toKey r < toKey r'
  rw [toKey, toKey, Prod.Lex.toLex_lt_toLex, isLess]
  by_cases hlt : r.pageId < r'.pageId
  · rw [if_pos hlt]
    exact iff_of_true rfl (.inl hlt)
  · rw [if_neg hlt]
    by_cases heq : r.pageId = r'.pageId ∧ r.slotNum < r'.slotNum
    · rw [if_pos heq]
      exact iff_of_true rfl (.inr heq)
    · rw [if_neg heq]
      exact iff_of_false Bool.false_ne_true (fun h => h.elim hlt heq)

end RowId

/-- The texts of a connector. -/
inductive Connector
  | and
  | or
deriving DecidableEq

namespace Connector

/-! ## The loops -/

/-- The loop for `and`. -/
def andLoop : ℕ → List RowId → List RowId → Finset RowId → Option (Finset RowId)
  | 0, _, _, _ => none
  | rounds + 1, iter₁, iter₂, result =>
    if iter₁ = [] ∧ iter₂ = [] then some result
    else if iter₁ = [] then andLoop rounds iter₁ iter₂.tail result
    else if iter₂ = [] then andLoop rounds iter₁.tail iter₂ result
    else do
      let x ← iter₁.head?
      let y ← iter₂.head?
      if x = y then andLoop rounds iter₁.tail iter₂.tail (insert x result)
      else if x.isLess y then andLoop rounds iter₁.tail iter₂ result
      else andLoop rounds iter₁ iter₂.tail result

/-- `iter == end || *other < *iter`, where the end of one set stands on the
left. -/
def endsOrLess (iter other : List RowId) : Option Bool :=
  if iter = [] then some true
  else do
    let y ← other.head?
    let x ← iter.head?
    return y.isLess x

/-- The loop for `or`. -/
def orLoop : ℕ → List RowId → List RowId → Finset RowId → Option (Finset RowId)
  | 0, _, _, _ => none
  | rounds + 1, iter₁, iter₂, result =>
    if iter₁ = [] ∧ iter₂ = [] then some result
    else do
      if ← endsOrLess iter₁ iter₂ then
        let y ← iter₂.head?
        orLoop rounds iter₁ iter₂.tail (insert y result)
      else if ← endsOrLess iter₂ iter₁ then
        let x ← iter₁.head?
        orLoop rounds iter₁.tail iter₂ (insert x result)
      else
        let x ← iter₁.head?
        let y ← iter₂.head?
        if x = y then orLoop rounds iter₁.tail iter₂.tail (insert x result)
        else orLoop rounds iter₁ iter₂ result

/-- `ExecuteConnector`, on what its operands leave and answer: the set
`internal_result_rid_`, and whether the answer is `DB_SUCCESS`. -/
def executeConnector (rounds : ℕ) (connector : Connector)
    (first second : Option (Finset RowId × Bool)) : Option (Finset RowId × Bool) := do
  let (table₁, success) ← first
  if success then
    let (table₂, success) ← second
    if success then
      let iter₁ := table₁.sort (· ≤ ·)
      let iter₂ := table₂.sort (· ≤ ·)
      let result ← (match connector with
        | .and => andLoop rounds iter₁ iter₂ ∅
        | .or => orLoop rounds iter₁ iter₂ ∅)
      return (result, true)
    else return (table₂, false)
  else return (table₁, false)

/-! ## What the loops leave -/

variable {rounds : ℕ} {iter₁ iter₂ : List RowId} {result : Finset RowId}

/-- What stands before a sorted list is not in it. -/
theorem notMem_of_lt {x y : RowId} {l : List RowId} (hl : (y :: l).Pairwise (· < ·))
    (hxy : x < y) : x ∉ (y :: l).toFinset := by
  intro hx
  rcases List.mem_cons.mp (List.mem_toFinset.mp hx) with rfl | hx
  · exact lt_irrefl x hxy
  · exact lt_asymm hxy ((List.pairwise_cons.mp hl).1 x hx)

/-- **The loop for `and`** leaves what is in both sets. -/
theorem andLoop_eq (h₁ : iter₁.Pairwise (· < ·)) (h₂ : iter₂.Pairwise (· < ·))
    (hrounds : iter₁.length + iter₂.length < rounds) :
    andLoop rounds iter₁ iter₂ result =
      some (result ∪ (iter₁.toFinset ∩ iter₂.toFinset)) := by
  induction rounds generalizing iter₁ iter₂ result with
  | zero => exact absurd hrounds (Nat.not_lt_zero _)
  | succ rounds ih =>
    match iter₁, iter₂ with
    | [], [] =>
      rw [andLoop, if_pos ⟨rfl, rfl⟩, List.toFinset_nil, Finset.inter_empty, Finset.union_empty]
    | [], y :: iter₂ =>
      show andLoop rounds [] iter₂ result = _
      rw [ih h₁ (List.pairwise_cons.mp h₂).2 (Nat.lt_of_succ_lt_succ hrounds), List.toFinset_nil,
        Finset.empty_inter, Finset.empty_inter]
    | x :: iter₁, [] =>
      show andLoop rounds iter₁ [] result = _
      rw [ih (List.pairwise_cons.mp h₁).2 h₂ (by simp only [List.length_cons] at hrounds; omega),
        List.toFinset_nil, Finset.inter_empty, Finset.inter_empty]
    | x :: iter₁, y :: iter₂ =>
      have ht₁ := (List.pairwise_cons.mp h₁).2
      have ht₂ := (List.pairwise_cons.mp h₂).2
      simp only [List.length_cons] at hrounds
      show (if x = y then andLoop rounds iter₁ iter₂ (insert x result)
        else if x.isLess y then andLoop rounds iter₁ (y :: iter₂) result
        else andLoop rounds (x :: iter₁) iter₂ result) = _
      by_cases heq : x = y
      · subst heq
        rw [if_pos rfl, ih ht₁ ht₂ (by omega), List.toFinset_cons, List.toFinset_cons,
          ← Finset.insert_inter_distrib, Finset.insert_union, Finset.union_insert]
      · rw [if_neg heq]
        by_cases hlt : x < y
        · rw [if_pos (RowId.isLess_iff.mpr hlt),
            ih ht₁ h₂ (by simp only [List.length_cons]; omega), List.toFinset_cons (a := x),
            Finset.insert_inter_of_notMem (notMem_of_lt h₂ hlt)]
        · have hgt : y < x := lt_of_le_of_ne (not_lt.mp hlt) (Ne.symm heq)
          rw [if_neg (fun h => hlt (RowId.isLess_iff.mp h)),
            ih h₁ ht₂ (by simp only [List.length_cons]; omega), List.toFinset_cons (a := y),
            Finset.inter_insert_of_notMem (notMem_of_lt h₁ hgt)]

/-- The second set reaches at least as far as the first one. -/
def EndsLater (iter₁ iter₂ : List RowId) : Prop := ∀ x ∈ iter₁, ∃ y ∈ iter₂, x ≤ y

/-- **The loop for `or`** leaves what is in one of the sets, if the second one
reaches as far as the first one, and else reads behind its end. -/
theorem orLoop_eq (h₁ : iter₁.Pairwise (· < ·)) (h₂ : iter₂.Pairwise (· < ·)) :
    (EndsLater iter₁ iter₂ → iter₁.length + iter₂.length < rounds →
      orLoop rounds iter₁ iter₂ result = some (result ∪ (iter₁.toFinset ∪ iter₂.toFinset))) ∧
    (¬ EndsLater iter₁ iter₂ → orLoop rounds iter₁ iter₂ result = none) := by
  induction rounds generalizing iter₁ iter₂ result with
  | zero => exact ⟨fun _ h => absurd h (Nat.not_lt_zero _), fun _ => rfl⟩
  | succ rounds ih =>
    match iter₁, iter₂ with
    | [], [] =>
      refine ⟨fun _ _ => ?_, fun h => absurd (fun x hx => absurd hx List.not_mem_nil) h⟩
      rw [orLoop, if_pos ⟨rfl, rfl⟩, List.toFinset_nil, Finset.union_empty, Finset.union_empty]
    | [], y :: iter₂ =>
      have hempty : ∀ l, EndsLater [] l := fun l x hx => absurd hx List.not_mem_nil
      refine ⟨fun _ hrounds => ?_, fun h => absurd (hempty _) h⟩
      show orLoop rounds [] iter₂ (insert y result) = _
      rw [(ih h₁ (List.pairwise_cons.mp h₂).2).1 (hempty _) (Nat.lt_of_succ_lt_succ hrounds),
        List.toFinset_cons, Finset.union_insert, Finset.union_insert, Finset.insert_union]
    | x :: iter₁, [] =>
      -- The second iterator is read at its end.
      refine ⟨fun h => ?_, fun _ => rfl⟩
      obtain ⟨y, hy, -⟩ := h x List.mem_cons_self
      exact absurd hy List.not_mem_nil
    | x :: iter₁, y :: iter₂ =>
      have ht₁ := (List.pairwise_cons.mp h₁).2
      have ht₂ := (List.pairwise_cons.mp h₂).2
      have hstep : orLoop (rounds + 1) (x :: iter₁) (y :: iter₂) result =
          if y.isLess x then orLoop rounds (x :: iter₁) iter₂ (insert y result)
          else if x.isLess y then orLoop rounds iter₁ (y :: iter₂) (insert x result)
          else if x = y then orLoop rounds iter₁ iter₂ (insert x result)
          else orLoop rounds (x :: iter₁) (y :: iter₂) result := by
        rw [orLoop, if_neg (fun h => absurd h.1 (List.cons_ne_nil x iter₁))]
        rfl
      rw [hstep]
      simp only [List.length_cons]
      by_cases hgt : y < x
      · rw [if_pos (RowId.isLess_iff.mpr hgt)]
        have hsame : EndsLater (x :: iter₁) iter₂ ↔ EndsLater (x :: iter₁) (y :: iter₂) := by
          refine forall₂_congr (fun a ha => ?_)
          have hya : ¬ a ≤ y := by
            rcases List.mem_cons.mp ha with rfl | ha
            · exact not_le.mpr hgt
            · exact not_le.mpr (hgt.trans ((List.pairwise_cons.mp h₁).1 a ha))
          simp only [List.mem_cons, exists_eq_or_imp, hya, false_or]
        obtain ⟨hends, hnone⟩ := @ih _ _ (insert y result) h₁ ht₂
        refine ⟨fun h hrounds => ?_, fun h => hnone (mt hsame.mp h)⟩
        rw [hends (hsame.mpr h) (by simp only [List.length_cons]; omega),
          List.toFinset_cons (a := y), Finset.union_insert, Finset.union_insert,
          Finset.insert_union]
      · rw [if_neg (fun h => hgt (RowId.isLess_iff.mp h))]
        by_cases hlt : x < y
        · rw [if_pos (RowId.isLess_iff.mpr hlt)]
          have hsame : EndsLater iter₁ (y :: iter₂) ↔ EndsLater (x :: iter₁) (y :: iter₂) := by
            refine ⟨fun h => List.forall_mem_cons.mpr ⟨⟨y, List.mem_cons_self, hlt.le⟩, h⟩,
              fun h => (List.forall_mem_cons.mp h).2⟩
          obtain ⟨hends, hnone⟩ := @ih _ _ (insert x result) ht₁ h₂
          refine ⟨fun h hrounds => ?_, fun h => hnone (mt hsame.mp h)⟩
          rw [hends (hsame.mpr h) (by simp only [List.length_cons]; omega),
            List.toFinset_cons (a := x), Finset.insert_union, Finset.insert_union,
            Finset.union_insert]
        · have heq : x = y := le_antisymm (not_lt.mp hgt) (not_lt.mp hlt)
          subst heq
          rw [if_neg (fun h => hlt (RowId.isLess_iff.mp h)), if_pos rfl]
          have hsame : EndsLater iter₁ iter₂ ↔ EndsLater (x :: iter₁) (x :: iter₂) := by
            refine ⟨fun h => List.forall_mem_cons.mpr ⟨⟨x, List.mem_cons_self, le_rfl⟩,
              fun a ha => (h a ha).imp (fun b hb => ⟨List.mem_cons_of_mem x hb.1, hb.2⟩)⟩,
              fun h a ha => ?_⟩
            obtain ⟨b, hb, hab⟩ := (List.forall_mem_cons.mp h).2 a ha
            rcases List.mem_cons.mp hb with rfl | hb
            · exact absurd ((List.pairwise_cons.mp h₁).1 a ha) (not_lt.mpr hab)
            · exact ⟨b, hb, hab⟩
          obtain ⟨hends, hnone⟩ := @ih _ _ (insert x result) ht₁ ht₂
          refine ⟨fun h hrounds => ?_, fun h => hnone (mt hsame.mp h)⟩
          rw [hends (hsame.mpr h) (by omega), List.toFinset_cons, List.toFinset_cons,
            ← Finset.insert_union_distrib, Finset.insert_union, Finset.union_insert]

/-! ## The connector -/

/-- What a connector is for. -/
def combine : Connector → Finset RowId → Finset RowId → Finset RowId
  | .and, A, B => A ∩ B
  | .or, A, B => A ∪ B

/-- **The connector combines the sets**: with enough rounds it comes to its end
and leaves the intersection or the union. -/
def Combines (c : Connector) (A B : Finset RowId) : Prop :=
  ∃ rounds, executeConnector rounds c (some (A, true)) (some (B, true)) =
    some (c.combine A B, true)

/-- **When a connector combines the sets of its operands**: `and` always, and
`or` exactly where no row id of the first set is greater than all of the second
one. -/
theorem combines_iff (c : Connector) (A B : Finset RowId) :
    Combines c A B ↔ (c = .or → ∀ x ∈ A, ∃ y ∈ B, x ≤ y) := by
  have h₁ : (A.sort (· ≤ ·)).Pairwise (· < ·) := A.sortedLT_sort.pairwise
  have h₂ : (B.sort (· ≤ ·)).Pairwise (· < ·) := B.sortedLT_sort.pairwise
  cases c with
  | and =>
    refine ⟨fun _ => nofun,
      fun _ => ⟨(A.sort (· ≤ ·)).length + (B.sort (· ≤ ·)).length + 1, ?_⟩⟩
    show (andLoop _ _ _ ∅).bind (fun result => some (result, true)) = _
    rw [andLoop_eq h₁ h₂ (Nat.lt_succ_self _), Finset.sort_toFinset, Finset.sort_toFinset,
      Finset.empty_union]
    rfl
  | or =>
    have hends : EndsLater (A.sort (· ≤ ·)) (B.sort (· ≤ ·)) ↔ ∀ x ∈ A, ∃ y ∈ B, x ≤ y := by
      simp only [EndsLater, Finset.mem_sort]
    refine ⟨fun ⟨rounds, h⟩ _ => hends.mp (Classical.not_not.mp (fun hnot => ?_)), fun h =>
      ⟨(A.sort (· ≤ ·)).length + (B.sort (· ≤ ·)).length + 1, ?_⟩⟩
    · change (orLoop rounds _ _ ∅).bind (fun result => some (result, true)) = _ at h
      rw [(orLoop_eq h₁ h₂).2 hnot] at h
      cases h
    · show (orLoop _ _ _ ∅).bind (fun result => some (result, true)) = _
      rw [(orLoop_eq h₁ h₂).1 (hends.mpr (h rfl)) (Nat.lt_succ_self _), Finset.sort_toFinset,
        Finset.sort_toFinset, Finset.empty_union]
      rfl

/-- **A row of the first set alone**: `or` reads the end of the second set. -/
theorem not_combines : ¬ ∀ (c : Connector) (A B : Finset RowId), Combines c A B := by
  intro h
  obtain ⟨rounds, hrun⟩ := h .or {⟨2, 0⟩} ∅
  unfold executeConnector at hrun
  simp only [Option.bind_eq_bind, Option.bind_some, if_true, Finset.sort_singleton,
    Finset.sort_empty] at hrun
  cases rounds with
  | zero => cases hrun
  | succ rounds => cases hrun

end Connector

end MiniSql
