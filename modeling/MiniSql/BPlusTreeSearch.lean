import MiniSql.BPlusTreeStored
import MiniSql.SearchTree

/-!
# Search in a stored tree

The binary searches of `KeyIndex` and `Lookup` find the place of a key in an
array that is in order, and `FindLeafPage` then finds the leaf whose bounds
the key is within. Where nothing is known of the order, the search still ends
in a leaf of the tree if it ends at all.
-/

namespace MiniSql

variable {K V α : Type} [LinearOrder K]

/-- Entries in order, by their places. -/
theorem lt_of_pairwise {es : List (K × α)} (h : es.Pairwise (fun e f => e.1 < f.1)) {i j : ℕ}
    {e f : K × α} (hij : i < j) (he : es[i]? = some e) (hf : es[j]? = some f) : e.1 < f.1 := by
  obtain ⟨hi, rfl⟩ := List.getElem?_eq_some_iff.mp he
  obtain ⟨hj, rfl⟩ := List.getElem?_eq_some_iff.mp hf
  exact List.pairwise_iff_getElem.mp h i j hi hj hij

namespace LeafPage

/-- **The loop of `KeyIndex`** ends between the smaller keys and the others. -/
theorem keyIndexLoop_spec {es : List (K × V)} (h : es.Pairwise (fun e f => e.1 < f.1)) {key : K}
    {rounds st ed : ℕ} (hle : st ≤ ed) (hed : ed ≤ es.length) (hrounds : ed - st ≤ rounds)
    (hbefore : ∀ i e, i < st → es[i]? = some e → e.1 < key)
    (hafter : ∀ i e, ed ≤ i → es[i]? = some e → key ≤ e.1) :
    keyIndexLoop es key rounds st ed ≤ es.length ∧
      ∀ i e, es[i]? = some e → (i < keyIndexLoop es key rounds st ed ↔ e.1 < key) := by
  induction rounds generalizing st ed with
  | zero =>
    have hr : keyIndexLoop es key 0 st ed = ed := rfl
    rw [hr]
    refine ⟨hed, fun i e he => ⟨fun hi => hbefore i e (by omega) he, fun hlt => ?_⟩⟩
    by_contra hi
    exact absurd hlt (not_lt.mpr (hafter i e (not_lt.mp hi) he))
  | succ rounds ih =>
    by_cases hlt : st < ed
    · have hmid : (ed - 1 - st) / 2 + st < ed := by omega
      have hm := List.getElem?_eq_getElem (hmid.trans_le hed)
      have hloop : keyIndexLoop es key (rounds + 1) st ed =
          if es[(ed - 1 - st) / 2 + st]?.any (fun e => key ≤ e.1) then
            keyIndexLoop es key rounds st ((ed - 1 - st) / 2 + st)
          else keyIndexLoop es key rounds ((ed - 1 - st) / 2 + st + 1) ed := if_pos hlt
      rw [hloop, hm, Option.any_some]
      split
      · rename_i hkey
        refine ih ?_ ?_ ?_ hbefore (fun i e hi he => ?_)
        · exact Nat.le_add_left st _
        · exact hmid.le.trans hed
        · omega
        have hkey := of_decide_eq_true hkey
        rcases Nat.eq_or_lt_of_le hi with rfl | hi
        · rw [hm] at he
          cases he
          exact hkey
        · exact hkey.trans (lt_of_pairwise h hi hm he).le
      · rename_i hkey
        refine ih ?_ hed ?_ (fun i e hi he => ?_) hafter
        · exact hmid
        · omega
        have hkey := not_le.mp (fun hc => hkey (decide_eq_true hc))
        rcases Nat.eq_or_lt_of_le (Nat.lt_succ_iff.mp hi) with rfl | hi
        · rw [hm] at he
          cases he
          exact hkey
        · exact (lt_of_pairwise h hi he hm).trans hkey
    · have hloop : keyIndexLoop es key (rounds + 1) st ed = ed := if_neg hlt
      rw [hloop]
      refine ⟨hed, fun i e he => ⟨fun hi => hbefore i e (by omega) he, fun hlt' => ?_⟩⟩
      by_contra hi
      exact absurd hlt' (not_lt.mpr (hafter i e (not_lt.mp hi) he))

/-- **`KeyIndex`** cuts the array between the smaller keys and the others. -/
theorem keyIndex_spec {p : LeafPage K V} (h : p.array.Pairwise (fun e f => e.1 < f.1)) (key : K) :
    ∃ A B, p.array = A ++ B ∧ A.length = p.keyIndex key ∧ (∀ e ∈ A, e.1 < key) ∧
      ∀ e ∈ B, key ≤ e.1 := by
  obtain ⟨hle, hcut⟩ := keyIndexLoop_spec h (Nat.zero_le _) le_rfl
    (Nat.sub_le p.array.length 0) (fun i e hi => absurd hi (Nat.not_lt_zero i))
    (fun i e hi he => absurd (List.getElem?_eq_some_iff.mp he).1 (not_lt.mpr hi))
  change p.keyIndex key ≤ _ at hle
  change ∀ i e, p.array[i]? = some e → (i < p.keyIndex key ↔ _) at hcut
  refine ⟨p.array.take (p.keyIndex key), p.array.drop (p.keyIndex key),
    (List.take_append_drop ..).symm, List.length_take_of_le hle, fun e he => ?_, fun e he => ?_⟩
  · obtain ⟨i, hi⟩ := List.mem_iff_getElem?.mp he
    have hlt : i < p.keyIndex key := by
      have := (List.getElem?_eq_some_iff.mp hi).1
      rw [List.length_take_of_le hle] at this
      exact this
    rw [List.getElem?_take_of_lt hlt] at hi
    exact (hcut i e hi).mp hlt
  · obtain ⟨i, hi⟩ := List.mem_iff_getElem?.mp he
    rw [List.getElem?_drop] at hi
    exact not_lt.mp (fun hc => absurd ((hcut _ e hi).mpr hc) (by omega))

/-- **`Lookup`** finds the value of a key in a leaf that is in order. -/
theorem lookup_eq_some {p : LeafPage K V}
    (h : p.array.Pairwise (fun e f => e.1 < f.1)) {key : K} {v : V} :
    p.lookup key = some v ↔ (key, v) ∈ p.array := by
  obtain ⟨A, B, harray, hA, hlt, hle⟩ := p.keyIndex_spec h key
  have hread : p.array[p.keyIndex key]? = B.head? := by
    rw [harray, ← hA, List.getElem?_append_right le_rfl, Nat.sub_self, List.head?_eq_getElem?]
  have hmem : (key, v) ∈ p.array ↔ (key, v) ∈ B := by
    rw [harray, List.mem_append]
    exact or_iff_right (fun hin => lt_irrefl key (hlt _ hin))
  rw [lookup, hread, hmem]
  cases B with
  | nil => exact iff_of_false nofun nofun
  | cons e B =>
    show (if e.1 = key then some e.2 else none) = some v ↔ _
    by_cases he : e.1 = key
    · have hpair : (e :: B).Pairwise (fun e f => e.1 < f.1) :=
        h.sublist (harray ▸ List.sublist_append_right A _)
      rw [if_pos he, Option.some.injEq, List.mem_cons]
      refine ⟨fun hv => .inl (Prod.ext he.symm hv.symm), fun hin => ?_⟩
      rcases hin with hin | hin
      · rw [← hin]
      · exact absurd ((List.pairwise_cons.mp hpair).1 _ hin) (not_lt.mpr he.ge)
    · rw [if_neg he]
      have hpair : (e :: B).Pairwise (fun e f => e.1 < f.1) :=
        h.sublist (harray ▸ List.sublist_append_right A _)
      refine iff_of_false nofun (fun hin => ?_)
      rcases List.mem_cons.mp hin with hin | hin
      · exact he (congrArg Prod.fst hin).symm
      · have hlt := (List.pairwise_cons.mp hpair).1 _ hin
        exact absurd hlt (not_lt.mpr (hle e List.mem_cons_self))

/-- What `Lookup` finds is in the leaf, whatever the order. -/
theorem mem_of_lookup {p : LeafPage K V} {key : K} {v : V} (h : p.lookup key = some v) :
    (key, v) ∈ p.array := by
  unfold lookup at h
  split at h
  · cases h
  · rename_i e he
    split at h
    · rename_i hkey
      cases h
      exact hkey ▸ List.mem_of_getElem? he
    · cases h

end LeafPage

namespace InternalPage

/-- **The loop of `Lookup`** ends at the last key that is not greater. -/
theorem lookupLoop_spec {cs : List (K × PageId)}
    (h : ∀ i j c d, 1 ≤ i → i < j → cs[i]? = some c → cs[j]? = some d → c.1 < d.1) {key : K}
    {rounds left right : ℕ} (hpos : 1 ≤ left) (hle : left ≤ right) (hright : right ≤ cs.length)
    (hrounds : right - left ≤ rounds)
    (hbefore : ∀ i c, 1 ≤ i → i < left → cs[i]? = some c → c.1 ≤ key)
    (hafter : ∀ i c, right ≤ i → cs[i]? = some c → key < c.1) :
    lookupLoop cs key rounds left right < right ∧
      (∀ c, 1 ≤ lookupLoop cs key rounds left right →
        cs[lookupLoop cs key rounds left right]? = some c → c.1 ≤ key) ∧
      ∀ i c, lookupLoop cs key rounds left right < i → cs[i]? = some c → key < c.1 := by
  induction rounds generalizing left right with
  | zero =>
    refine ⟨by simp only [lookupLoop]; omega, fun c h1 => hbefore _ c h1 ?_, fun i c hi => ?_⟩
    · simp only [lookupLoop]
      omega
    · simp only [lookupLoop] at hi
      exact hafter i c (by omega)
  | succ rounds ih =>
    unfold lookupLoop
    by_cases hlt : left < right
    · rw [if_pos hlt]
      have hmid : left + (right - 1 - left) / 2 < right := by omega
      have hm := List.getElem?_eq_getElem (hmid.trans_le hright)
      simp only [hm]
      split
      · rename_i hkey
        refine ⟨hmid, fun c _ hc => ?_, fun i c hi hc => ?_⟩
        · rw [hm] at hc
          cases hc
          exact hkey.le
        · rw [← hkey]
          exact h _ _ _ _ (by omega) hi hm hc
      · split
        · rename_i hne hkey
          refine ih ?_ hmid hright ?_ (fun i c h1 hi hc => ?_) hafter
          · omega
          · omega
          rcases Nat.eq_or_lt_of_le (Nat.lt_succ_iff.mp hi) with rfl | hi
          · rw [hm] at hc
            cases hc
            exact hkey.le
          · exact ((h _ _ _ _ h1 hi hc hm).trans hkey).le
        · rename_i hne hkey
          have hkey := lt_of_le_of_ne (not_lt.mp hkey) (Ne.symm hne)
          have hafter' : ∀ i c, left + (right - 1 - left) / 2 ≤ i → cs[i]? = some c →
              key < c.1 := by
            intro i c hi hc
            rcases Nat.eq_or_lt_of_le hi with rfl | hi
            · rw [hm] at hc
              cases hc
              exact hkey
            · exact hkey.trans (h _ _ _ _ (by omega) hi hm hc)
          obtain ⟨hlt', hrest⟩ := ih hpos (Nat.le_add_right left _) (hmid.le.trans hright)
            (by omega) hbefore hafter'
          exact ⟨hlt'.trans hmid, hrest⟩
    · rw [if_neg hlt]
      refine ⟨by omega, fun c h1 => hbefore _ c h1 (by omega), fun i c hi => hafter i c (by omega)⟩

/-- **`Lookup`** finds the child whose bounds the key is within. -/
theorem lookup_spec {p : InternalPage K} (hne : p.array ≠ [])
    (h : p.array.tail.Pairwise (fun c d => c.1 < d.1)) (key : K) :
    ∃ A c B, p.array = A ++ c :: B ∧ p.lookup key = some c.2 ∧ (A ≠ [] → c.1 ≤ key) ∧
      ∀ d ∈ B.head?, key < d.1 := by
  unfold lookup
  split
  · rename_i harr
    exact absurd harr hne
  · rename_i c harr
    exact ⟨[], c, [], harr, rfl, nofun, nofun⟩
  · rename_i c c₁ cs harr
    split
    · rename_i hkey
      refine ⟨[], c, c₁ :: cs, harr, rfl, nofun, ?_⟩
      rintro d ⟨⟩
      exact hkey
    split
    · rename_i hlast
      obtain ⟨e, he, hkey⟩ := (Option.any_eq_true _ _).mp hlast
      obtain ⟨A, hA⟩ := List.getLast?_eq_some_iff.mp he
      refine ⟨A, e, [], hA, ?_, fun _ => of_decide_eq_true hkey, nofun⟩
      rw [valueAt, size, hA, List.length_append, List.length_singleton, Nat.add_sub_cancel,
        List.getElem?_append_right le_rfl, Nat.sub_self]
      rfl
    · have htail : ∀ i j c d, 1 ≤ i → i < j → p.array[i]? = some c → p.array[j]? = some d →
          c.1 < d.1 := by
        intro i j c d hi hij hc hd
        refine lt_of_pairwise h (i := i - 1) (j := j - 1) (by omega) ?_ ?_
        · rw [List.getElem?_tail, Nat.sub_add_cancel hi, hc]
        · rw [List.getElem?_tail, Nat.sub_add_cancel (hi.trans hij.le), hd]
      have hpos : 1 ≤ p.array.length := List.length_pos_of_ne_nil hne
      obtain ⟨j, hj, hlt, hle, hgt⟩ : ∃ j, lookupLoop p.array key p.size 1 p.size = j ∧
          j < p.array.length ∧ (∀ c, 1 ≤ j → p.array[j]? = some c → c.1 ≤ key) ∧
          ∀ i c, j < i → p.array[i]? = some c → key < c.1 :=
        ⟨_, rfl, lookupLoop_spec htail (K := K) le_rfl hpos le_rfl
          (Nat.sub_le p.array.length 1) (fun i c h1 hi => absurd h1 (by omega))
          (fun i c hi hc => absurd (List.getElem?_eq_some_iff.mp hc).1 (not_lt.mpr hi))⟩
      rw [hj]
      have hget := List.getElem?_eq_getElem hlt
      refine ⟨p.array.take j, p.array[j], p.array.drop (j + 1), ?_, ?_, fun hA => ?_, ?_⟩
      · rw [← List.drop_eq_getElem_cons hlt, List.take_append_drop]
      · rw [valueAt, hget]
        rfl
      · refine hle _ (Nat.one_le_iff_ne_zero.mpr (fun e => hA ?_)) hget
        rw [e, List.take_zero]
      · intro d hd
        rw [List.head?_drop] at hd
        exact hgt _ d (Nat.lt_succ_self j) hd

/-- `Lookup` finds a child, whatever the keys are. -/
theorem exists_of_lookup {p : InternalPage K} {key : K} {id : PageId}
    (h : p.lookup key = some id) : ∃ c ∈ p.array, c.2 = id := by
  have hvalue : ∀ i, p.valueAt i = some id → ∃ c ∈ p.array, c.2 = id := by
    intro i hi
    obtain ⟨c, hc, hid⟩ := Option.map_eq_some_iff.mp hi
    exact ⟨c, List.mem_of_getElem? hc, hid⟩
  unfold lookup at h
  split at h
  · cases h
  · rename_i c harr
    cases h
    exact ⟨c, harr ▸ List.mem_singleton_self c, rfl⟩
  · rename_i c c₁ cs harr
    split at h
    · cases h
      exact ⟨c, harr ▸ List.mem_cons_self, rfl⟩
    · split at h
      · exact hvalue _ h
      · exact hvalue _ h

/-- The loop of `Lookup` in an array that need not be in order: if the second key
is not greater, it ends after the first child and at a key that is not
greater. -/
theorem lookupLoop_le {cs : List (K × PageId)} {key : K}
    (hone : ∀ c, cs[1]? = some c → c.1 ≤ key) {rounds left right : ℕ} (hpos : 1 ≤ left)
    (hle : left ≤ right) (hright : right ≤ cs.length) (hrounds : right - left ≤ rounds)
    (htwo : 2 ≤ left ∨ 2 ≤ right)
    (hbefore : 2 ≤ left → ∃ c, cs[left - 1]? = some c ∧ c.1 ≤ key) :
    1 ≤ lookupLoop cs key rounds left right ∧
      ∃ c, cs[lookupLoop cs key rounds left right]? = some c ∧ c.1 ≤ key := by
  induction rounds generalizing left right with
  | zero =>
    have hleft : 2 ≤ left := by omega
    exact ⟨Nat.le_sub_one_of_lt hleft, hbefore hleft⟩
  | succ rounds ih =>
    unfold lookupLoop
    by_cases hlt : left < right
    · rw [if_pos hlt]
      obtain ⟨mid, hmid⟩ : ∃ mid, mid = left + (right - 1 - left) / 2 := ⟨_, rfl⟩
      have hmidlt : mid < right := by omega
      have hm := List.getElem?_eq_getElem (hmidlt.trans_le hright)
      simp only [← hmid, hm]
      split
      · rename_i hkey
        exact ⟨by omega, _, hm, hkey.le⟩
      · split
        · rename_i hkey
          refine ih (Nat.succ_le_succ (Nat.zero_le mid)) hmidlt hright (by omega)
            (.inl (by omega)) (fun _ => ⟨_, ?_, hkey.le⟩)
          rw [Nat.add_sub_cancel]
          exact hm
        · rename_i hne hkey
          have hgt := lt_of_le_of_ne (not_lt.mp hkey) (Ne.symm hne)
          have hmid1 : mid ≠ 1 := by
            rintro rfl
            exact absurd (hone _ hm) (not_le.mpr hgt)
          exact ih hpos (by omega) (hmidlt.le.trans hright) (by omega) (by omega) hbefore
    · rw [if_neg hlt]
      have hleft : 2 ≤ left := by omega
      exact ⟨Nat.le_sub_one_of_lt hleft, hbefore hleft⟩

/-- **`Lookup` in a page whose keys need not be in order**: a key below the second
one goes to the first child, another one to a child after it whose key is not
greater, and to the last child if its key is not greater. -/
theorem lookup_cases {p : InternalPage K} {c c₁ : K × PageId} {cs : List (K × PageId)}
    (harray : p.array = c :: c₁ :: cs) (key : K) : (key < c₁.1 ∧ p.lookup key = some c.2) ∨
      (c₁.1 ≤ key ∧ ∃ d ∈ c₁ :: cs, d.1 ≤ key ∧ p.lookup key = some d.2 ∧
        ∀ e, (c₁ :: cs).getLast? = some e → e.1 ≤ key → d = e) := by
  have hlookup : p.lookup key = if key < c₁.1 then some c.2
      else if p.array.getLast?.any (fun e => e.1 ≤ key) then p.valueAt (p.size - 1)
      else p.valueAt (lookupLoop p.array key p.size 1 p.size) := by
    rw [lookup, harray]
  obtain ⟨e, hlast⟩ : ∃ e, (c₁ :: cs).getLast? = some e := ⟨_, List.getLast?_cons⟩
  have hlast' : p.array.getLast? = some e := by
    rw [harray, List.getLast?_cons_cons, hlast]
  rcases lt_or_ge key c₁.1 with hkey | hkey
  · exact .inl ⟨hkey, hlookup.trans (if_pos hkey)⟩
  · refine .inr ⟨hkey, ?_⟩
    rw [if_neg (not_lt.mpr hkey), hlast', Option.any_some] at hlookup
    by_cases he : e.1 ≤ key
    · rw [if_pos (decide_eq_true he)] at hlookup
      have hget : p.array[p.size - 1]? = some e := by
        rw [← hlast', List.getLast?_eq_getElem?]
        rfl
      refine ⟨e, List.mem_of_getLast? hlast, he, ?_, fun e' he' _ => ?_⟩
      · rw [hlookup, valueAt, hget]
        rfl
      · rw [hlast] at he'
        cases he'
        rfl
    · rw [if_neg (fun hc => he (of_decide_eq_true hc))] at hlookup
      have hsize : 2 ≤ p.array.length := by
        rw [harray]
        exact Nat.succ_le_succ (Nat.succ_le_succ (Nat.zero_le _))
      have hone : ∀ d, p.array[1]? = some d → d.1 ≤ key := by
        intro d hd
        rw [harray] at hd
        cases hd
        exact hkey
      obtain ⟨hj, d, hd, hle⟩ := lookupLoop_le hone (K := K) le_rfl (Nat.one_le_of_lt hsize) le_rfl
        (Nat.sub_le _ 1) (.inr hsize) (fun h => absurd h (by decide))
      obtain ⟨j, hj'⟩ := Nat.exists_eq_add_of_le' hj
      refine ⟨d, ?_, hle, ?_, fun e' he' hle' => ?_⟩
      · rw [hj', harray] at hd
        exact List.mem_of_getElem? hd
      · rw [hlookup, valueAt]
        show Option.map Prod.snd
          p.array[lookupLoop p.array key p.array.length 1 p.array.length]? = _
        rw [hd]
        rfl
      · rw [hlast] at he'
        cases he'
        exact absurd hle' he

/-- There is one child only whose bounds a key is within. -/
theorem eq_of_cut {A A' B B' : List (K × α)} {c c' : K × α} {key : K}
    (h : (A ++ c :: B).tail.Pairwise (fun c d => c.1 < d.1))
    (heq : A ++ c :: B = A' ++ c' :: B') (hB : ∀ d ∈ B.head?, key < d.1)
    (hA' : A' ≠ [] → c'.1 ≤ key) (hle : A.length ≤ A'.length) : A = A' ∧ c = c' ∧ B = B' := by
  obtain ⟨as, rfl, has⟩ | ⟨as, rfl, has⟩ := List.append_eq_append_iff.mp heq
  · cases as with
    | nil => exact ⟨(List.append_nil A).symm, List.cons.inj has⟩
    | cons a as =>
      obtain ⟨rfl, rfl⟩ := List.cons.inj has
      have hkey : c'.1 ≤ key := hA' (List.append_ne_nil_of_right_ne_nil A (List.cons_ne_nil c as))
      cases as with
      | nil => exact absurd hkey (not_le.mpr (hB c' rfl))
      | cons d as =>
        have hpair : (d :: as ++ c' :: B').Pairwise (fun c d => c.1 < d.1) := by
          refine h.sublist ?_
          cases A with
          | nil => exact List.Sublist.refl _
          | cons a A => exact (List.sublist_cons_self _ _).trans (List.sublist_append_right A _)
        have hlt : d.1 < c'.1 :=
          (List.pairwise_cons.mp hpair).1 c' (List.mem_append_right _ List.mem_cons_self)
        exact absurd (hkey.trans_lt (hB d rfl)) (not_lt.mpr hlt.le)
  · rw [List.length_append] at hle
    have hnil : as = [] := List.length_eq_zero_iff.mp (by omega)
    rw [hnil] at has ⊢
    obtain ⟨rfl, rfl⟩ := List.cons.inj has
    exact ⟨List.append_nil A', rfl, rfl⟩

/-- **`Lookup` of a key within the bounds of a child** finds the child. -/
theorem lookup_eq {p : InternalPage K} {A B : List (K × PageId)} {c : K × PageId} {key : K}
    (h : p.array.tail.Pairwise (fun c d => c.1 < d.1)) (heq : p.array = A ++ c :: B)
    (hA : A ≠ [] → c.1 ≤ key) (hB : ∀ d ∈ B.head?, key < d.1) : p.lookup key = some c.2 := by
  have hne : p.array ≠ [] := heq ▸ List.append_ne_nil_of_right_ne_nil A (List.cons_ne_nil c B)
  obtain ⟨A', c', B', heq', hlookup, hA', hB'⟩ := lookup_spec hne h key
  rw [hlookup]
  rcases le_total A.length A'.length with hle | hle
  · rw [(eq_of_cut (heq ▸ h) (heq.symm.trans heq') hB hA' hle).2.1]
  · rw [(eq_of_cut (heq' ▸ h) (heq'.symm.trans heq) hB' hA hle).2.1]

end InternalPage

namespace BPlusTree

open KeyTree

variable {n : ℕ} {cfg : TreeConfig} {s : BPlusTree K V} {t : PageTree K V n} {parent next : PageId}
  {lo : WithBot K} {hi : WithTop K} {key : K} {rounds : ℕ}

/-- The bounds of a child, by the pages of its neighbours. -/
theorem within_child {A B : List (K × PageTree K V n)} {c : K × PageTree K V n}
    (h : Within lo hi key) :
    Within (start A c.1 lo) (stop B hi) key ↔
      (A ≠ [] → c.1 ≤ key) ∧ ∀ d ∈ B.head?, key < d.1 := by
  refine and_congr ?_ ?_
  · cases A with
    | nil => exact iff_of_true h.1 nofun
    | cons a A =>
      exact WithBot.coe_le_coe.trans ⟨fun hle _ => hle, fun himp => himp (List.cons_ne_nil a A)⟩
  · cases B with
    | nil => exact iff_of_true h.2 nofun
    | cons b B =>
      refine WithTop.coe_lt_coe.trans ⟨fun hlt d hd => ?_, fun hall => hall b rfl⟩
      cases hd
      exact hlt

/-- **The step of the search** into the child whose bounds the key is within. -/
theorem findLeafFrom_step {id : PageId} {A B : List (K × PageTree K V n)} {c : K × PageTree K V n}
    {p : InternalPage K} (hpage : s.pages id = some (.internal p))
    (harray : p.array = (A ++ c :: B).map (fun c => (c.1, c.2.id)))
    (hsorted : (A ++ c :: B).tail.Pairwise (fun c d => c.1 < d.1)) (hkey : Within lo hi key)
    (hchild : Within (start A c.1 lo) (stop B hi) key) :
    findLeafFrom s key false (rounds + 1) id = findLeafFrom s key false rounds c.2.id := by
  obtain ⟨hA, hB⟩ := (within_child hkey).mp hchild
  have hlookup : p.lookup key = some c.2.id := by
    refine InternalPage.lookup_eq (A := A.map (fun c => (c.1, c.2.id)))
      (B := B.map (fun c => (c.1, c.2.id))) (c := (c.1, c.2.id)) ?_ ?_ (fun hne => hA ?_) ?_
    · rw [harray, ← List.map_tail, List.pairwise_map]
      exact hsorted
    · rw [harray, List.map_append, List.map_cons]
    · rintro rfl
      exact hne rfl
    · intro d hd
      rw [List.head?_map] at hd
      obtain ⟨e, he, rfl⟩ := Option.map_eq_some_iff.mp hd
      exact hB e he
  have hrun : findLeafFrom s key false (rounds + 1) id =
      (p.lookup key).bind (findLeafFrom s key false rounds) := by
    rw [findLeafFrom, hpage]
    rfl
  rw [hrun, hlookup]
  rfl

/-- The step of the search in an ordered tree. -/
theorem findLeafFrom_node {id : PageId} {A B : List (K × PageTree K V n)} {c : K × PageTree K V n}
    (hroot : s.pages id = some (rootPage cfg (node id (A ++ c :: B)) parent next))
    (hord : OrderedIn Ordered (A ++ c :: B) lo hi) (hkey : Within lo hi key)
    (hchild : Within (start A c.1 lo) (stop B hi) key) :
    findLeafFrom s key false (rounds + 1) id = findLeafFrom s key false rounds c.2.id :=
  findLeafFrom_step hroot rfl (hord.pairwise_tail (E := entries) (fun _ _ _ => Ordered.spread)).2
    hkey hchild

/-- **A search ends in a leaf of the tree**; where the tree is ordered, its
bounds are bounds of the key. -/
theorem routes_of_findLeafFrom {good : Prop} {leaf : LeafPage K V} :
    {n : ℕ} → {t : PageTree K V n} → {parent next : PageId} → {lo : WithBot K} → {hi : WithTop K} →
    {rounds : ℕ} → Stored cfg s.pages t parent next →
    (good → Ordered t lo hi ∧ Within lo hi key) →
    findLeafFrom s key false rounds t.id = some leaf →
    ∃ l, Routes (fun lo hi => good → Within lo hi key) t l lo hi ∧
      s.pages l.id = some (.leaf leaf)
  | _, _, _, _, _, _, 0, _, _, h => by cases h
  | 0, t, _, _, _, _, _ + 1, hstored, hord, h => by
    refine ⟨t, ⟨rfl, fun hg => (hord hg).2⟩, ?_⟩
    rw [findLeafFrom, hstored.root] at h
    cases h
    exact hstored
  | n + 1, t, parent, _, lo, hi, rounds + 1, hstored, hord, h => by
    obtain ⟨id, cs, rfl⟩ := exists_node t
    obtain ⟨A, c, B, rfl, hbounds, hrest⟩ : ∃ A c B, cs = A ++ c :: B ∧
        (good → Ordered c.2 (start A c.1 lo) (stop B hi) ∧
          Within (start A c.1 lo) (stop B hi) key) ∧
        findLeafFrom s key false rounds c.2.id = some leaf := by
      by_cases hg : good
      · obtain ⟨hO, hW⟩ := hord hg
        obtain ⟨A, c, B, rfl, hchild⟩ := OrderedIn.exists_child hO hW
        refine ⟨A, c, B, rfl, fun _ => ⟨(orderedIn_focus.mp hO).2.1, hchild⟩, ?_⟩
        rw [← findLeafFrom_node hstored.root hO hW hchild]
        exact h
      · rw [findLeafFrom, hstored.root] at h
        obtain ⟨child, hlookup, hrest⟩ := Option.bind_eq_some_iff.mp h
        obtain ⟨e, he, rfl⟩ := InternalPage.exists_of_lookup hlookup
        obtain ⟨c, hc, rfl⟩ := List.mem_map.mp he
        obtain ⟨A, B, hAB⟩ := List.append_of_mem hc
        exact ⟨A, c, B, hAB, fun hg' => absurd hg' hg, hrest⟩
    obtain ⟨next', hc⟩ := hstored.2.of_mem (List.mem_append_right A (List.mem_cons_self (a := c)))
    obtain ⟨l, hroutes, hpage⟩ := routes_of_findLeafFrom hc hbounds hrest
    exact ⟨l, ⟨A, c, B, rfl, hroutes⟩, hpage⟩

/-! ## The leaf of a key -/

/-- The pages hold the tree, whatever parents and next pages they have. -/
def Laid (pages : PageId → Option (BPlusTreePage K V)) : {n : ℕ} → PageTree K V n → Prop
  | 0, t => ∃ p : LeafPage K V, pages t.id = some (.leaf p) ∧ p.array = t.entries
  | _ + 1, t => (∃ p : InternalPage K, pages t.id = some (.internal p) ∧
      p.array = (Node.children t).map (fun c => (c.1, c.2.id))) ∧
        ∀ c ∈ Node.children t, Laid pages c.2

omit [LinearOrder K] in
/-- The pages of the leaves. -/
theorem Laid.of_mem_leaves {pages : PageId → Option (BPlusTreePage K V)} : {n : ℕ} →
    {t : PageTree K V n} → {l : Leaf PageId K V} → Laid pages t → l ∈ t.leaves →
    ∃ p : LeafPage K V, pages l.id = some (.leaf p) ∧ p.array = l.entries
  | 0, _, _, h, hl => by
    rw [List.mem_singleton.mp hl]
    exact h
  | _ + 1, _, _, h, hl => by
    obtain ⟨c, hc, hl⟩ := List.mem_flatMap.mp hl
    exact (h.2 c hc).of_mem_leaves hl

omit [LinearOrder K] in
/-- A stored tree is held by its pages. -/
theorem Stored.laid {pages : PageId → Option (BPlusTreePage K V)} : {n : ℕ} →
    {t : PageTree K V n} → {parent next : PageId} → Stored cfg pages t parent next → Laid pages t
  | 0, _, _, _, h => ⟨_, h, rfl⟩
  | _ + 1, _, _, _, h => ⟨⟨_, h.1, rfl⟩, fun _ hc => (h.2.of_mem hc).elim (fun _ => Stored.laid)⟩

/-- **The search in a separated tree** ends in a leaf whose bounds the key is
within, and this is the leaf that has its entry. -/
theorem exists_leaf_of_separated : {n : ℕ} → {t : PageTree K V n} → {lo : WithBot K} →
    {hi : WithTop K} → {rounds : ℕ} → Laid s.pages t → Separated t lo hi → Within lo hi key →
    n < rounds → ∃ l leaf, findLeafFrom s key false rounds t.id = some leaf ∧
      s.pages l.id = some (.leaf leaf) ∧ leaf.array = l.entries ∧
      Routes (fun lo hi => Within lo hi key) t l lo hi ∧
      ∀ v, (key, v) ∈ t.entries ↔ (key, v) ∈ l.entries
  | _, _, _, _, 0, _, _, _, h => absurd h (Nat.not_lt_zero _)
  | 0, t, _, _, _ + 1, hlaid, _, hkey, _ => by
    obtain ⟨p, hp, harray⟩ := hlaid
    refine ⟨t, p, ?_, hp, harray, ⟨rfl, hkey⟩, fun _ => Iff.rfl⟩
    rw [findLeafFrom, hp]
  | n + 1, t, lo, hi, rounds + 1, hlaid, hsep, hkey, h => by
    obtain ⟨id, cs, rfl⟩ := exists_node t
    obtain ⟨⟨p, hp, harray⟩, hchildren⟩ := hlaid
    obtain ⟨A, c, B, rfl, hchild⟩ := OrderedIn.exists_child hsep.children hkey
    obtain ⟨l, leaf, hrun, hpage, hentries, hroutes, hmem⟩ := exists_leaf_of_separated
      (hchildren c (List.mem_append_right A List.mem_cons_self)) hsep.focus.2.1 hchild
      (Nat.lt_of_succ_lt_succ h)
    refine ⟨l, leaf, ?_, hpage, hentries, ⟨A, c, B, rfl, hroutes⟩, fun v => ?_⟩
    · exact (findLeafFrom_step hp harray hsep.sorted hkey hchild).trans hrun
    · exact (mem_entries_of_within hsep hchild).trans (hmem v)

/-- **A search in an ordered tree succeeds.** -/
theorem exists_findLeafFrom {n : ℕ} {t : PageTree K V n} {parent next : PageId} {lo : WithBot K}
    {hi : WithTop K} {rounds : ℕ} (hstored : Stored cfg s.pages t parent next)
    (hord : Ordered t lo hi) (hkey : Within lo hi key) (hrounds : n < rounds) :
    ∃ leaf, findLeafFrom s key false rounds t.id = some leaf := by
  obtain ⟨-, leaf, hleaf, -⟩ :=
    exists_leaf_of_separated hstored.laid hord.separated hkey hrounds
  exact ⟨leaf, hleaf⟩

end BPlusTree

end MiniSql
