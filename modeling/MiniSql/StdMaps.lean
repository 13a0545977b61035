import Mathlib.Data.List.Basic
import Mathlib.Logic.Function.Basic

/-!
# Maps with `emplace` and `erase`

The two kinds of map of the C++ library, as far as a program that only looks
up, emplaces, erases and walks them can tell: an `UnorderedMap` answers
look-ups, an `OrderedMap` is walked in the order of its keys. Emplacing a key
that is there changes nothing in either of them.

A walk that emplaces what it meets in an ordered map builds the map again
(`OrderedMap.emplaceAll_of_sorted`).
-/

variable {κ ν : Type}

/-! ## Maps without an order -/

/-- `std::unordered_map`, by what a look-up finds. -/
abbrev UnorderedMap (κ ν : Type) := κ → Option ν

namespace UnorderedMap

variable [DecidableEq κ] {m : UnorderedMap κ ν} {k k' : κ} {v w : ν}

/-- The map without entries. -/
def empty : UnorderedMap κ ν := fun _ => none

/-- `emplace`: no entry is overwritten. -/
def emplace (m : UnorderedMap κ ν) (k : κ) (v : ν) : UnorderedMap κ ν :=
  if (m k).isSome then m else Function.update m k (some v)

/-- `erase`. -/
def erase (m : UnorderedMap κ ν) (k : κ) : UnorderedMap κ ν := Function.update m k none

/-- What a look-up finds after a new key has been emplaced. -/
theorem emplace_eq_some (hk : m k = none) :
    m.emplace k v k' = some w ↔ m k' = some w ∨ k' = k ∧ w = v := by
  rw [emplace, hk, Option.isSome_none, if_neg Bool.false_ne_true]
  by_cases hkk : k' = k
  · rw [hkk, Function.update_self, hk]
    refine ⟨fun h => .inr ⟨rfl, (Option.some.inj h).symm⟩, ?_⟩
    rintro (h | ⟨-, rfl⟩)
    · exact absurd h.symm (Option.some_ne_none w)
    · rfl
  · rw [Function.update_of_ne hkk]
    exact ⟨.inl, fun h => h.resolve_right (fun h' => hkk h'.1)⟩

/-- What a look-up finds that did not find it before is the entry. -/
theorem of_emplace_eq_some (h : m.emplace k v k' = some w) : m k' = some w ∨ k' = k ∧ w = v := by
  by_cases hk : (m k).isSome
  · rw [emplace, if_pos hk] at h
    exact .inl h
  · exact (emplace_eq_some (Option.not_isSome_iff_eq_none.mp hk)).mp h

/-- What a look-up finds after a key has been erased. -/
theorem erase_eq_some : m.erase k k' = some w ↔ m k' = some w ∧ k' ≠ k := by
  rw [erase]
  by_cases hkk : k' = k
  · rw [hkk, Function.update_self]
    exact ⟨fun h => absurd h.symm (Option.some_ne_none w), fun h => absurd rfl h.2⟩
  · rw [Function.update_of_ne hkk]
    exact ⟨fun h => ⟨h, hkk⟩, And.left⟩

/-! ### Maps of maps -/

section Nested

variable {κ' : Type} [DecidableEq κ'] {n : UnorderedMap κ (UnorderedMap κ' ν)} {i j : κ'}

omit [DecidableEq κ] [DecidableEq κ'] in
/-- Look up two keys. -/
def findIn (n : UnorderedMap κ (UnorderedMap κ' ν)) (k : κ) (i : κ') : Option ν := (n k).bind (· i)

/-- `emplace` in the inner map, which is made if it is not there. -/
def emplaceIn (n : UnorderedMap κ (UnorderedMap κ' ν)) (k : κ) (i : κ') (v : ν) :
    UnorderedMap κ (UnorderedMap κ' ν) :=
  Function.update n k (some (((n k).getD empty).emplace i v))

/-- `erase` in the inner map. -/
def eraseIn (n : UnorderedMap κ (UnorderedMap κ' ν)) (k : κ) (i : κ') :
    UnorderedMap κ (UnorderedMap κ' ν) :=
  Function.update n k ((n k).map (·.erase i))

omit [DecidableEq κ] [DecidableEq κ'] in
theorem getD_eq_findIn : ((n k).getD empty) i = findIn n k i := by
  unfold findIn
  cases n k <;> rfl

theorem findIn_emplaceIn (h : findIn n k i = none) :
    findIn (emplaceIn n k i v) k' j = some w ↔
      findIn n k' j = some w ∨ k' = k ∧ j = i ∧ w = v := by
  by_cases hk : k' = k
  · subst hk
    have hi : ((n k').getD empty) i = none := getD_eq_findIn.trans h
    rw [emplaceIn, findIn, Function.update_self, Option.bind_some, emplace_eq_some hi,
      getD_eq_findIn]
    exact or_congr_right ⟨fun h' => ⟨rfl, h'⟩, And.right⟩
  · rw [emplaceIn, findIn, Function.update_of_ne hk]
    exact ⟨.inl, fun h' => h'.resolve_right (fun h' => hk h'.1)⟩

theorem findIn_eraseIn :
    findIn (eraseIn n k i) k' j = some w ↔ findIn n k' j = some w ∧ ¬(k' = k ∧ j = i) := by
  by_cases hk : k' = k
  · subst hk
    rw [eraseIn, findIn, Function.update_self]
    unfold findIn
    cases n k' with
    | none => exact ⟨fun h => absurd h.symm (Option.some_ne_none w), And.left⟩
    | some m =>
      show m.erase i j = some w ↔ m j = some w ∧ _
      rw [erase_eq_some]
      exact and_congr_right (fun _ => not_congr ⟨fun h => ⟨rfl, h⟩, And.right⟩)
  · rw [eraseIn, findIn, Function.update_of_ne hk]
    exact ⟨fun h => ⟨h, fun h' => hk h'.1⟩, And.left⟩

end Nested

end UnorderedMap

/-! ## Maps that are walked in the order of their keys -/

/-- `std::map` with numbers as keys, as the list of the entries in the order in
which they are walked. -/
abbrev OrderedMap (ν : Type) := List (ℕ × ν)

namespace OrderedMap

variable {m l : OrderedMap ν} {k : ℕ} {v : ν} {e : ℕ × ν}

/-- `emplace`: no entry is overwritten. -/
def emplace (k : ℕ) (v : ν) : OrderedMap ν → OrderedMap ν
  | [] => [(k, v)]
  | e :: m => if k < e.1 then (k, v) :: e :: m else if k = e.1 then e :: m else e :: emplace k v m

/-- `erase`. -/
def erase (k : ℕ) (m : OrderedMap ν) : OrderedMap ν := m.filter (fun e => e.1 ≠ k)

/-- The entries of a list, emplaced one after the other. -/
def emplaceAll (l : List (ℕ × ν)) : OrderedMap ν := l.foldl (fun m e => emplace e.1 e.2 m) []

theorem length_emplace_le (k : ℕ) (v : ν) (m : OrderedMap ν) :
    (emplace k v m).length ≤ m.length + 1 := by
  induction m with
  | nil => exact Nat.le_refl _
  | cons e m ih =>
    unfold emplace
    split
    · exact Nat.le_refl _
    · split
      · exact Nat.le_succ _
      · exact Nat.succ_le_succ ih

/-- No more entries than have been emplaced. -/
theorem length_emplaceAll_le (l : List (ℕ × ν)) : (emplaceAll l).length ≤ l.length := by
  have hall : ∀ (l : List (ℕ × ν)) (m : OrderedMap ν),
      (l.foldl (fun m e => emplace e.1 e.2 m) m).length ≤ m.length + l.length := by
    intro l
    induction l with
    | nil => exact fun _ => Nat.le_refl _
    | cons e l ih =>
      intro m
      have hrest := ih (emplace e.1 e.2 m)
      have hone := length_emplace_le e.1 e.2 m
      rw [List.foldl_cons, List.length_cons]
      omega
  have hempty := hall l []
  rwa [List.length_nil, Nat.zero_add] at hempty

/-- The keys of a map stand in their order. -/
def Sorted (m : OrderedMap ν) : Prop := m.Pairwise (fun e e' => e.1 < e'.1)

/-- A key above all others goes to the end. -/
theorem emplace_of_lt (h : ∀ e ∈ m, e.1 < k) : emplace k v m = m ++ [(k, v)] := by
  induction m with
  | nil => rfl
  | cons e m ih =>
    have hlt : e.1 < k := h e List.mem_cons_self
    rw [emplace, if_neg (Nat.lt_asymm hlt), if_neg (Nat.ne_of_gt hlt),
      ih (fun e' he' => h e' (List.mem_cons_of_mem e he')), List.cons_append]

/-- Emplacing the entries of a map in their order builds the map. -/
theorem emplaceAll_of_sorted (h : Sorted m) : emplaceAll m = m := by
  have hall : ∀ (l done : OrderedMap ν), Sorted (done ++ l) →
      l.foldl (fun m e => emplace e.1 e.2 m) done = done ++ l := by
    intro l
    induction l with
    | nil => exact fun done _ => (List.append_nil done).symm
    | cons e l ih =>
      intro done hs
      have hlt : ∀ e' ∈ done, e'.1 < e.1 := fun e' he' =>
        (List.pairwise_append.mp hs).2.2 e' he' e List.mem_cons_self
      rw [List.append_cons] at hs ⊢
      rw [List.foldl_cons, emplace_of_lt hlt]
      exact ih (done ++ [e]) hs
  exact hall m [] h

theorem sorted_append (hm : Sorted m) (h : ∀ e ∈ m, e.1 < k) : Sorted (m ++ [(k, v)]) :=
  List.pairwise_append.mpr ⟨hm, List.pairwise_singleton _ _, fun e he e' he' => by
    rw [List.mem_singleton.mp he']
    exact h e he⟩

/-- An entry that was not there is the one that is emplaced. -/
theorem of_mem_emplace (h : e ∈ emplace k v m) : e = (k, v) ∨ e ∈ m := by
  induction m with
  | nil => exact .inl (List.mem_singleton.mp h)
  | cons e' m ih =>
    unfold emplace at h
    split at h
    · exact List.mem_cons.mp h
    · split at h
      · exact .inr h
      · rcases List.mem_cons.mp h with rfl | h
        · exact .inr List.mem_cons_self
        · exact (ih h).imp id (List.mem_cons_of_mem e')

theorem sorted_emplace (hm : Sorted m) : Sorted (emplace k v m) := by
  induction m with
  | nil => exact List.pairwise_singleton _ _
  | cons e' m ih =>
    obtain ⟨hhead, htail⟩ := List.pairwise_cons.mp hm
    unfold emplace
    split
    · rename_i hlt
      refine List.pairwise_cons.mpr ⟨fun e he => ?_, hm⟩
      rcases List.mem_cons.mp he with rfl | he
      · exact hlt
      · exact Nat.lt_trans hlt (hhead e he)
    · rename_i hle
      split
      · exact hm
      · rename_i hne
        refine List.pairwise_cons.mpr ⟨fun e he => ?_, ih htail⟩
        rcases of_mem_emplace he with rfl | he
        · show e'.1 < k
          omega
        · exact hhead e he

theorem sorted_erase (hm : Sorted m) : Sorted (erase k m) := hm.filter _

theorem mem_erase : e ∈ erase k m ↔ e ∈ m ∧ e.1 ≠ k := by
  rw [erase, List.mem_filter, decide_eq_true_iff]

end OrderedMap
