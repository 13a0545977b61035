import MiniSql.TablePage

/-!
# What a slotted page is for

A slotted page stands for a list of slots, each of them free or with a tuple
that is live or marked as deleted. The operations of a page are given here on
such a list, for tuples of any type of which the size is known. Memory has no
part in it: a tuple fits while the tuples, the header and eight bytes for
each slot stay within the page.

An operation changes no slot other than the one it is about
(`getElem?_insertTuple_of_ne` and the lemmas after it). `SlotMap.step` puts
the operations together for tuples that are bytes.
-/

namespace MiniSql

/-- Tuples that take a known number of bytes. -/
class Sized (α : Type) where
  /-- `GetSerializedSize`. -/
  size : α → ℕ

instance : Sized Tuple := ⟨Tuple.size⟩

/-- A slot. -/
inductive Slot (α : Type)
  | free
  | live (t : α)
  | marked (t : α)
deriving DecidableEq

namespace Slot

variable {α : Type}

/-- Is the slot free? -/
def isFree : Slot α → Bool
  | free => true
  | _ => false

/-- Is there a live tuple in the slot? -/
def isLive : Slot α → Bool
  | live _ => true
  | _ => false

/-- The tuple in the slot, if there is one, satisfies a condition. -/
def Holds (P : α → Prop) : Slot α → Prop
  | free => True
  | live t => P t
  | marked t => P t

/-- The slot with another representation of its tuple. -/
def map {β : Type} (f : α → β) : Slot α → Slot β
  | free => free
  | live t => live (f t)
  | marked t => marked (f t)

@[simp] theorem isLive_map {β : Type} (f : α → β) (s : Slot α) :
    (s.map f).isLive = s.isLive := by
  cases s <;> rfl

theorem isLive_iff {s : Slot α} : s.isLive = true ↔ ∃ t, s = live t := by
  cases s with
  | live t => exact iff_of_true rfl ⟨t, rfl⟩
  | free | marked t => exact iff_of_false nofun nofun

theorem isFree_iff {s : Slot α} : s.isFree = true ↔ s = free := by
  cases s with
  | free => exact iff_of_true rfl rfl
  | live t | marked t => exact iff_of_false nofun nofun

/-- The number of bytes that a slot takes at the end of the page. -/
def len [Sized α] : Slot α → ℕ
  | free => 0
  | live t => Sized.size t
  | marked t => Sized.size t

end Slot

namespace SlotMap

section Operations

variable {α : Type} [Sized α]

/-- The bytes that all slots take. -/
def used (slots : List (Slot α)) : ℕ := (slots.map Slot.len).sum

/-- The free space between the slot directory and the tuples. -/
def room (slots : List (Slot α)) : ℕ := pageSize - used slots - 24 - 8 * slots.length

/-- Put a tuple into the first free slot, else into a new one. -/
def insertTuple (slots : List (Slot α)) (row : α) : List (Slot α) × Option ℕ :=
  if room slots < Sized.size row + 8 then (slots, none)
  else
    let i := slots.findIdx Slot.isFree
    (if i = slots.length then slots ++ [.live row] else slots.set i (.live row), some i)

/-- Give a live tuple new contents: `-1` where there is none, `0` where they
do not fit, else `1`, with the old tuple. -/
def updateTuple (slots : List (Slot α)) (row : α) (i : ℕ) : List (Slot α) × ℤ × Option α :=
  match slots[i]? with
  | some (.live old) =>
    if room slots + Sized.size old < Sized.size row then (slots, 0, none)
    else (slots.set i (.live row), 1, some old)
  | _ => (slots, -1, none)

/-- Mark a live tuple as deleted. -/
def markDelete (slots : List (Slot α)) (i : ℕ) : List (Slot α) × Bool :=
  match slots[i]? with
  | some (.live t) => (slots.set i (.marked t), true)
  | _ => (slots, false)

/-- Make a marked tuple live again. Nothing where there is no such slot. -/
def rollbackDelete (slots : List (Slot α)) (i : ℕ) : Option (List (Slot α)) :=
  match slots[i]? with
  | none => none
  | some (.marked t) => some (slots.set i (.live t))
  | some _ => some slots

/-- Free a slot. Nothing where there is no tuple. -/
def applyDelete (slots : List (Slot α)) (i : ℕ) : Option (List (Slot α)) :=
  match slots[i]? with
  | none => none
  | some .free => none
  | some _ => some (slots.set i .free)

/-- The tuple of a live slot. -/
def getTuple (slots : List (Slot α)) (i : ℕ) : Option α :=
  match slots[i]? with
  | some (.live t) => some t
  | _ => none

end Operations

/-- One call, on the page with the given id. Nothing where it asserts what
does not hold. -/
def step (pageId : PageId) (slots : List (Slot Tuple)) :
    TableCall → Option (List (Slot Tuple) × TableAnswer)
  | .insertTuple row =>
    let r := insertTuple slots row
    some (r.1, .inserted (r.2.map (fun i => ⟨pageId, i⟩)))
  | .updateTuple row rid =>
    if rid = invalidRowId then none
    else
      let r := updateTuple slots row rid.slotNum
      some (r.1, .updated r.2.1 (r.2.2.map Tuple.bytes))
  | .markDelete rid =>
    let r := markDelete slots rid.slotNum
    some (r.1, .marked r.2)
  | .rollbackDelete rid => (rollbackDelete slots rid.slotNum).map (fun s => (s, .done))
  | .applyDelete rid => (applyDelete slots rid.slotNum).map (fun s => (s, .done))
  | .getTuple rid =>
    if rid = invalidRowId then none
    else some (slots, .got ((getTuple slots rid.slotNum).map Tuple.bytes))

/-! ## An operation is about one slot -/

section Frame

variable {α : Type} [Sized α] {slots slots' : List (Slot α)} {i j : ℕ} {row : α}

omit [Sized α] in
/-- A new last slot changes no other one. -/
theorem getElem?_concat_ne {s : Slot α} (h : j ≠ slots.length) :
    (slots ++ [s])[j]? = slots[j]? := by
  rcases Nat.lt_or_gt_of_ne h with hlt | hgt
  · exact List.getElem?_append_left hlt
  · have hout : (slots ++ [s]).length ≤ j := by
      rw [List.length_append, List.length_singleton]
      exact hgt
    rw [List.getElem?_eq_none hout, List.getElem?_eq_none (Nat.le_of_lt hgt)]

/-- The slot that an insertion takes was not in use, and has the tuple
after it. -/
theorem insertTuple_eq_some (h : insertTuple slots row = (slots', some i)) :
    ¬ room slots < Sized.size row + 8 ∧ (slots[i]? = none ∨ slots[i]? = some .free) ∧
      slots'[i]? = some (.live row) ∧ ∀ j, j ≠ i → slots'[j]? = slots[j]? := by
  unfold insertTuple at h
  by_cases hfull : room slots < Sized.size row + 8
  · rw [if_pos hfull] at h
    cases h
  rw [if_neg hfull] at h
  obtain ⟨hslots, hi⟩ := Prod.mk.inj h
  have hi : slots.findIdx Slot.isFree = i := Option.some.inj hi
  rw [hi] at hslots
  refine ⟨hfull, ?_⟩
  by_cases hlen : i = slots.length
  · rw [if_pos hlen] at hslots
    subst hslots
    refine ⟨.inl (List.getElem?_eq_none (le_of_eq hlen.symm)), ?_, fun j hj => ?_⟩
    · rw [hlen, List.getElem?_append_right le_rfl, Nat.sub_self]
      rfl
    · exact getElem?_concat_ne (by omega)
  · rw [if_neg hlen] at hslots
    subst hslots
    have hlt : i < slots.length :=
      lt_of_le_of_ne (hi ▸ List.findIdx_le_length) hlen
    have hfree : slots[i].isFree = true := by
      have hget := @List.findIdx_getElem _ Slot.isFree slots (by omega)
      simpa only [hi] using hget
    exact ⟨.inr (by rw [List.getElem?_eq_getElem hlt, Slot.isFree_iff.mp hfree]),
      List.getElem?_set_self hlt, fun j hj => List.getElem?_set_ne (Ne.symm hj)⟩

theorem getElem?_insertTuple_of_ne {r : Option ℕ} (h : insertTuple slots row = (slots', r))
    (hj : r ≠ some j) : slots'[j]? = slots[j]? := by
  cases r with
  | some i => exact (insertTuple_eq_some h).2.2.2 j (fun e => hj (congrArg some e.symm))
  | none =>
    unfold insertTuple at h
    split at h
    · cases h
      rfl
    · cases h

theorem getElem?_updateTuple_of_ne (hj : i ≠ j) :
    (updateTuple slots row i).1[j]? = slots[j]? := by
  unfold updateTuple
  split
  · split
    · rfl
    · exact List.getElem?_set_ne hj
  · rfl

omit [Sized α] in
theorem getElem?_markDelete_of_ne (hj : i ≠ j) : (markDelete slots i).1[j]? = slots[j]? := by
  unfold markDelete
  split
  · exact List.getElem?_set_ne hj
  · rfl

omit [Sized α] in
/-- What has been marked is not live. -/
theorem getTuple_markDelete : getTuple (markDelete slots i).1 i = none := by
  unfold markDelete
  split
  · rename_i t ht
    rw [getTuple, List.getElem?_set_self (List.getElem?_eq_some_iff.mp ht).1]
  · rename_i hno
    unfold getTuple
    split
    · rename_i t ht
      exact absurd ht (hno t)
    · rfl

omit [Sized α] in
/-- What has been freed is not live. -/
theorem getTuple_applyDelete (h : applyDelete slots i = some slots') :
    getTuple slots' i = none := by
  unfold applyDelete at h
  split at h
  · cases h
  · cases h
  · rename_i s hno hs
    cases h
    rw [getTuple, List.getElem?_set_self (List.getElem?_eq_some_iff.mp hs).1]

omit [Sized α] in
theorem getElem?_rollbackDelete_of_ne (h : rollbackDelete slots i = some slots') (hj : i ≠ j) :
    slots'[j]? = slots[j]? := by
  unfold rollbackDelete at h
  split at h
  · cases h
  · cases h
    exact List.getElem?_set_ne hj
  · cases h
    rfl

omit [Sized α] in
theorem getElem?_applyDelete_of_ne (h : applyDelete slots i = some slots') (hj : i ≠ j) :
    slots'[j]? = slots[j]? := by
  unfold applyDelete at h
  split at h
  · cases h
  · cases h
  · cases h
    exact List.getElem?_set_ne hj

end Frame

/-- The slot that a call is about; an insertion is about the slot it
answers. -/
def target : TableCall → TableAnswer → Option ℕ
  | .insertTuple _, .inserted (some rid) => some rid.slotNum
  | .insertTuple _, _ => none
  | .updateTuple _ rid, _ => some rid.slotNum
  | .markDelete rid, _ => some rid.slotNum
  | .rollbackDelete rid, _ => some rid.slotNum
  | .applyDelete rid, _ => some rid.slotNum
  | .getTuple _, _ => none

/-- **A call leaves every other slot as it is.** -/
theorem step_getElem? {pageId : PageId} {slots slots' : List (Slot Tuple)} {call : TableCall}
    {a : TableAnswer} (h : step pageId slots call = some (slots', a)) {j : ℕ}
    (hj : target call a ≠ some j) : slots'[j]? = slots[j]? := by
  cases call with
  | insertTuple row =>
    cases h
    have hins : insertTuple slots row = (_, (insertTuple slots row).2) := rfl
    refine getElem?_insertTuple_of_ne hins (fun e => hj ?_)
    rw [e]
    rfl
  | updateTuple row rid =>
    simp only [step] at h
    split at h
    · cases h
    · cases h
      exact getElem?_updateTuple_of_ne (fun e => hj (congrArg some e))
  | markDelete rid =>
    cases h
    exact getElem?_markDelete_of_ne (fun e => hj (congrArg some e))
  | rollbackDelete rid =>
    obtain ⟨s, hs, hr⟩ := Option.map_eq_some_iff.mp h
    cases hr
    exact getElem?_rollbackDelete_of_ne hs (fun e => hj (congrArg some e))
  | applyDelete rid =>
    obtain ⟨s, hs, hr⟩ := Option.map_eq_some_iff.mp h
    cases hr
    exact getElem?_applyDelete_of_ne hs (fun e => hj (congrArg some e))
  | getTuple rid =>
    simp only [step] at h
    split at h
    · cases h
    · cases h
      rfl

/-! ## What the tuples satisfy -/

/-- The row that a call puts into a slot satisfies a condition. -/
def Inserts (P : Tuple → Prop) : TableCall → Prop
  | .insertTuple row => P row
  | .updateTuple row _ => P row
  | _ => True

section Holds

variable {α : Type} {P : α → Prop} {slots slots' : List (Slot α)} {i : ℕ} {row : α}

theorem holds_set (h : ∀ s ∈ slots, s.Holds P) {x : Slot α} (hx : x.Holds P) :
    ∀ s ∈ slots.set i x, s.Holds P := fun s hs =>
  (List.mem_or_eq_of_mem_set hs).elim (h s) (fun heq => heq ▸ hx)

theorem holds_insertTuple [Sized α] {r : Option ℕ} (hs : insertTuple slots row = (slots', r))
    (h : ∀ s ∈ slots, s.Holds P) (hrow : P row) : ∀ s ∈ slots', s.Holds P := by
  unfold insertTuple at hs
  split at hs
  · cases hs
    exact h
  · obtain ⟨hslots, -⟩ := Prod.mk.inj hs
    rw [← hslots]
    split
    · intro s hmem
      rcases List.mem_append.mp hmem with hmem | hmem
      · exact h s hmem
      · exact List.mem_singleton.mp hmem ▸ hrow
    · exact holds_set h hrow

/-- **A call keeps a condition on the tuples** if the row that it puts into a
slot satisfies it. -/
theorem holds_step {P : Tuple → Prop} {pageId : PageId} {slots slots' : List (Slot Tuple)}
    {call : TableCall} {a : TableAnswer} (hs : step pageId slots call = some (slots', a))
    (h : ∀ s ∈ slots, s.Holds P) (hcall : Inserts P call) : ∀ s ∈ slots', s.Holds P := by
  cases call with
  | insertTuple row =>
    cases hs
    exact holds_insertTuple Prod.mk.eta.symm h hcall
  | updateTuple row rid =>
    simp only [step, updateTuple] at hs
    split at hs
    · cases hs
    · cases hs
      split
      · split
        · exact h
        · exact holds_set h hcall
      · exact h
  | markDelete rid =>
    cases hs
    show ∀ s ∈ (markDelete slots rid.slotNum).1, _
    unfold markDelete
    split
    · rename_i t ht
      have ht : P t := h (.live t) (List.mem_of_getElem? ht)
      exact holds_set h ht
    · exact h
  | rollbackDelete rid =>
    obtain ⟨s, hroll, hr⟩ := Option.map_eq_some_iff.mp hs
    cases hr
    unfold rollbackDelete at hroll
    split at hroll
    · cases hroll
    · rename_i t ht
      have ht : P t := h (.marked t) (List.mem_of_getElem? ht)
      cases hroll
      exact holds_set h ht
    · cases hroll
      exact h
  | applyDelete rid =>
    obtain ⟨s, happly, hr⟩ := Option.map_eq_some_iff.mp hs
    cases hr
    unfold applyDelete at happly
    split at happly
    · cases happly
    · cases happly
    · cases happly
      exact holds_set h trivial
  | getTuple rid =>
    simp only [step] at hs
    split at hs
    · cases hs
    · cases hs
      exact h

end Holds

/-! ## The bytes that the slots take -/

section Used

variable {α : Type} [Sized α] {slots : List (Slot α)} {i : ℕ} {s old : Slot α}

/-- The length of the tuple in a slot. -/
def lenAt (slots : List (Slot α)) (i : ℕ) : ℕ := (slots[i]?.map Slot.len).getD 0

theorem lenAt_of_getElem? (h : slots[i]? = some s) : lenAt slots i = s.len := by
  rw [lenAt, h]
  rfl

theorem lenAt_of_le (h : slots.length ≤ i) : lenAt slots i = 0 := by
  rw [lenAt, List.getElem?_eq_none h]
  rfl

theorem lenAt_set_self (h : i < slots.length) : lenAt (slots.set i s) i = s.len :=
  lenAt_of_getElem? (List.getElem?_set_self h)

theorem lenAt_set_ne {j : ℕ} (h : j ≠ i) : lenAt (slots.set i s) j = lenAt slots j := by
  rw [lenAt, List.getElem?_set_ne (Ne.symm h), lenAt]

theorem used_append : used (slots ++ [s]) = used slots + s.len := by
  simp only [used, List.map_append, List.sum_append, List.map_cons, List.map_nil,
    List.sum_singleton]

/-- What a slot takes is part of what all slots take. -/
theorem used_set (h : slots[i]? = some old) :
    used (slots.set i s) + old.len = used slots + s.len := by
  induction slots generalizing i with
  | nil => cases h
  | cons x xs ih =>
    cases i with
    | zero =>
      cases h
      show s.len + used xs + old.len = old.len + used xs + s.len
      omega
    | succ i =>
      have hxs := ih h
      show x.len + used (xs.set i s) + old.len
        = x.len + used xs + s.len
      omega

theorem len_le_used (h : slots[i]? = some s) : s.len ≤ used slots := by
  have hset := used_set (s := .free) h
  have hzero : (Slot.free : Slot α).len = 0 := rfl
  omega

end Used

end SlotMap

end MiniSql
