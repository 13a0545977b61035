import MiniSql.Config
import Mathlib.Data.Finset.Basic
import Mathlib.Data.List.Nodup
import Mathlib.Data.Finset.Card

/-!
# The LRU replacer

`LRUReplacer` of `buffer/lru_replacer.cpp`: the frames that may be evicted,
the most recently unpinned one first. The source keeps a list, a map from
frames to their node in the list and a count; the map is modelled by its
keys, since the node it holds for a frame is the one that stores the frame,
and erasing that node is `List.erase`.

`WellFormed` says that the three describe one duplicate-free set of frames
below the capacity. Every operation keeps it, and in a well-formed replacer
each of them is a plain list operation (`lruList_pin`, `lruList_unpin`,
`victim_eq`).
-/

namespace MiniSql

/-- `frame_id_t`. -/
abbrev FrameId := ℕ

/-- `LRUReplacer`. -/
structure LruReplacer where
  /-- `max_size_` -/
  maxSize : ℕ
  /-- `in_size_` -/
  inSize : ℕ
  /-- `lru_list_`, the front first -/
  lruList : List FrameId
  /-- the keys of `map_` -/
  map : Finset FrameId

namespace LruReplacer

/-- The constructor. -/
def init (numPages : ℕ) : LruReplacer := ⟨numPages, 0, [], ∅⟩

/-- `LRUReplacer::Victim`: the frame at the back of the list, if any. -/
def victim (r : LruReplacer) : LruReplacer × Option FrameId :=
  if r.inSize = 0 then (r, none)
  else match r.lruList.getLast? with
    | none => (r, none)
    | some f =>
      (⟨r.maxSize, r.inSize - 1, r.lruList.erase f, r.map.erase f⟩, some f)

/-- `LRUReplacer::Pin`. -/
def pin (r : LruReplacer) (f : FrameId) : LruReplacer :=
  if f ∈ r.map then ⟨r.maxSize, r.inSize - 1, r.lruList.erase f, r.map.erase f⟩ else r

/-- `LRUReplacer::Unpin`. -/
def unpin (r : LruReplacer) (f : FrameId) : LruReplacer :=
  if f ∈ r.map ∨ r.maxSize ≤ r.inSize then r
  else ⟨r.maxSize, r.inSize + 1, f :: r.lruList, insert f r.map⟩

/-- The list, the map and the count describe one duplicate-free set of
frames, each below the capacity. -/
structure WellFormed (r : LruReplacer) : Prop where
  nodup : r.lruList.Nodup
  map_eq : r.map = r.lruList.toFinset
  inSize_eq : r.inSize = r.lruList.length
  lt_maxSize : ∀ f ∈ r.lruList, f < r.maxSize

theorem wellFormed_init (n : ℕ) : (init n).WellFormed :=
  ⟨List.nodup_nil, rfl, rfl, nofun⟩

namespace WellFormed

variable {r : LruReplacer}

theorem mem_map (h : r.WellFormed) {f : FrameId} : f ∈ r.map ↔ f ∈ r.lruList := by
  rw [h.map_eq, List.mem_toFinset]

/-- Taking a tracked frame out of list, map and count keeps them in step. -/
theorem erase (h : r.WellFormed) {f : FrameId} (hf : f ∈ r.lruList) :
    (⟨r.maxSize, r.inSize - 1, r.lruList.erase f, r.map.erase f⟩ : LruReplacer).WellFormed where
  nodup := h.nodup.erase f
  map_eq := by
    ext g
    rw [Finset.mem_erase, h.mem_map, List.mem_toFinset, h.nodup.mem_erase_iff]
  inSize_eq := by
    show r.inSize - 1 = _
    rw [h.inSize_eq, List.length_erase_of_mem hf]
  lt_maxSize := fun g hg => h.lt_maxSize g (List.mem_of_mem_erase hg)

theorem pin (h : r.WellFormed) (f : FrameId) : (r.pin f).WellFormed := by
  unfold LruReplacer.pin
  split
  · rename_i hf
    exact h.erase (h.mem_map.mp hf)
  · exact h

/-- An untracked frame below the capacity always finds room. -/
theorem inSize_lt (h : r.WellFormed) {f : FrameId} (hf : f < r.maxSize)
    (hmem : f ∉ r.lruList) : r.inSize < r.maxSize := by
  have hnd : (f :: r.lruList).Nodup := List.nodup_cons.mpr ⟨hmem, h.nodup⟩
  have hsub : (f :: r.lruList).toFinset ⊆ Finset.range r.maxSize := by
    intro g hg
    rw [List.mem_toFinset, List.mem_cons] at hg
    rw [Finset.mem_range]
    exact hg.elim (fun e => e ▸ hf) (h.lt_maxSize g)
  have hcard := Finset.card_le_card hsub
  rw [List.toFinset_card_of_nodup hnd, Finset.card_range, List.length_cons] at hcard
  rw [h.inSize_eq]
  omega

theorem unpin (h : r.WellFormed) {f : FrameId} (hf : f < r.maxSize) :
    (r.unpin f).WellFormed := by
  unfold LruReplacer.unpin
  split
  · exact h
  · rename_i hn
    have hmem : f ∉ r.lruList := fun hm => hn (.inl (h.mem_map.mpr hm))
    refine ⟨List.nodup_cons.mpr ⟨hmem, h.nodup⟩, ?_, ?_, ?_⟩
    · show insert f r.map = _
      rw [h.map_eq, List.toFinset_cons]
    · show r.inSize + 1 = _
      rw [h.inSize_eq, List.length_cons]
    · rintro g (_ | ⟨_, hg⟩)
      · exact hf
      · exact h.lt_maxSize g hg

/-- In a well-formed replacer `pin` takes the frame out of the list. -/
theorem lruList_pin (h : r.WellFormed) (f : FrameId) :
    (r.pin f).lruList = r.lruList.erase f := by
  unfold LruReplacer.pin
  split
  · rfl
  · rename_i hf
    exact (List.erase_of_not_mem (fun hm => hf (h.mem_map.mpr hm))).symm

theorem mem_pin (h : r.WellFormed) {f g : FrameId} :
    g ∈ (r.pin f).lruList ↔ g ≠ f ∧ g ∈ r.lruList := by
  rw [h.lruList_pin, h.nodup.mem_erase_iff]

/-- In a well-formed replacer `unpin` puts the frame at the front of the
list, unless it is there already. -/
theorem lruList_unpin (h : r.WellFormed) {f : FrameId} (hf : f < r.maxSize) :
    (r.unpin f).lruList = if f ∈ r.lruList then r.lruList else f :: r.lruList := by
  by_cases hmem : f ∈ r.lruList
  · rw [if_pos hmem, LruReplacer.unpin, if_pos (.inl (h.mem_map.mpr hmem))]
  · have hn : ¬ (f ∈ r.map ∨ r.maxSize ≤ r.inSize) := by
      rintro (hm | hle)
      · exact hmem (h.mem_map.mp hm)
      · exact absurd (h.inSize_lt hf hmem) (by omega)
    rw [if_neg hmem, LruReplacer.unpin, if_neg hn]

theorem mem_unpin (h : r.WellFormed) {f g : FrameId} (hf : f < r.maxSize) :
    g ∈ (r.unpin f).lruList ↔ g = f ∨ g ∈ r.lruList := by
  rw [h.lruList_unpin hf]
  split
  · rename_i hm
    exact ⟨.inr, fun hg => hg.elim (fun e => e ▸ hm) id⟩
  · exact List.mem_cons

/-- **What `victim` does** in a well-formed replacer: it fails exactly when
nothing is tracked, and otherwise pins the frame at the back. -/
theorem victim_eq (h : r.WellFormed) :
    (r.lruList = [] ∧ r.victim = (r, none)) ∨
    ∃ f, r.lruList.getLast? = some f ∧ r.victim = (r.pin f, some f) := by
  unfold LruReplacer.victim
  rcases hl : r.lruList.getLast? with _ | f
  · have hnil := List.getLast?_eq_none_iff.mp hl
    refine .inl ⟨hnil, if_pos ?_⟩
    rw [h.inSize_eq, hnil, List.length_nil]
  · have hmem : f ∈ r.lruList := List.mem_of_getLast? hl
    have hpin : r.pin f = ⟨r.maxSize, r.inSize - 1, r.lruList.erase f, r.map.erase f⟩ :=
      if_pos (h.mem_map.mpr hmem)
    refine .inr ⟨f, rfl, ?_⟩
    rw [hpin, if_neg]
    rw [h.inSize_eq]
    exact fun h0 => List.ne_nil_of_mem hmem (List.length_eq_zero_iff.mp h0)

end WellFormed

@[simp] theorem maxSize_pin (r : LruReplacer) (f : FrameId) :
    (r.pin f).maxSize = r.maxSize := by
  unfold pin
  split <;> rfl

@[simp] theorem maxSize_unpin (r : LruReplacer) (f : FrameId) :
    (r.unpin f).maxSize = r.maxSize := by
  unfold unpin
  split <;> rfl

end LruReplacer

end MiniSql
