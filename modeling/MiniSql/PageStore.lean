import MiniSql.Config
import Mathlib.Data.List.Nodup
import Mathlib.Data.List.Perm.Subperm
import Mathlib.Logic.Function.Basic

/-!
# A store of pages

The buffer pool manager as a client sees it whose pages are kept: what has
been written to a page is on it until the page is deleted. `NewPage` gives an
id that is not in use, with the bytes of its page reset; which id it is, is up
to the disk manager and stands in the call.
-/

namespace MiniSql

/-- The buffer pool manager, as a client sees it whose pages are kept. -/
structure PageStore where
  /-- The ids in use. -/
  allocated : List PageId
  /-- The bytes of each page. -/
  data : PageId → Bytes.Mem

namespace PageStore

/-- `NewPage`, when it gives this id. -/
def newPage (p : PageStore) (id : PageId) : Option PageStore :=
  if id ∉ p.allocated ∧ 0 ≤ id ∧ id < 2 ^ 31 then
    some ⟨id :: p.allocated, Function.update p.data id (fun _ => 0)⟩
  else none

/-- `DeletePage`: the id may be given away again. -/
def deletePage (p : PageStore) (id : PageId) : PageStore :=
  { p with allocated := p.allocated.erase id }

/-- `FetchPage`, of a page in use. -/
def fetchPage (p : PageStore) (id : PageId) : Option Bytes.Mem :=
  if id ∈ p.allocated then some (p.data id) else none

/-- The bytes of a page are written. -/
def writePage (p : PageStore) (id : PageId) (page : Bytes.Mem) : PageStore :=
  { p with data := Function.update p.data id page }

/-- There are no more pages than page ids. -/
theorem length_le_of_nodup {ids : List PageId} (hnodup : ids.Nodup)
    (hrange : ∀ q ∈ ids, 0 ≤ q ∧ q < 2 ^ 31) : ids.length ≤ 2 ^ 31 := by
  have hinj : (ids.map Int.toNat).Nodup := by
    refine hnodup.map_on (fun a ha b hb hab => ?_)
    have hra : (0 : ℤ) ≤ a := (hrange a ha).1
    have hrb : (0 : ℤ) ≤ b := (hrange b hb).1
    omega
  have hsub : ids.map Int.toNat ⊆ List.range (2 ^ 31) := by
    intro n hn
    obtain ⟨q, hq, rfl⟩ := List.mem_map.mp hn
    have hr : (0 : ℤ) ≤ q ∧ (q : ℤ) < 2 ^ 31 := hrange q hq
    exact List.mem_range.mpr (by omega)
  have hle := (hinj.subperm hsub).length_le
  rwa [List.length_map, List.length_range] at hle

variable {p p' : PageStore} {id q : PageId} {page : Bytes.Mem}

theorem newPage_eq_some (h : p.newPage id = some p') :
    (id ∉ p.allocated ∧ 0 ≤ id ∧ id < 2 ^ 31) ∧ p'.allocated = id :: p.allocated ∧
      ∀ q ≠ id, p'.data q = p.data q := by
  unfold newPage at h
  split at h
  · rename_i hid
    cases h
    exact ⟨hid, rfl, fun q hq => Function.update_of_ne hq ..⟩
  · cases h

theorem fetchPage_eq_some : p.fetchPage id = some page ↔ id ∈ p.allocated ∧ p.data id = page := by
  unfold fetchPage
  split
  · rename_i hid
    exact ⟨fun h => ⟨hid, Option.some.inj h⟩, fun h => by rw [h.2]⟩
  · rename_i hid
    exact ⟨nofun, fun h => absurd h.1 hid⟩

@[simp] theorem allocated_writePage : (p.writePage id page).allocated = p.allocated := rfl

theorem data_writePage_self : (p.writePage id page).data id = page := Function.update_self ..

theorem data_writePage_of_ne (h : q ≠ id) : (p.writePage id page).data q = p.data q :=
  Function.update_of_ne h ..

end PageStore

end MiniSql
