import MiniSql.BPlusTreeMoves
import MiniSql.TreeClimb

/-!
# The shape of a tree in the store

`Shaped` says what the pages of a tree are like whatever keys are in them: all
leaves are at the same depth, every page is listed by one page, which it has as its
parent, the leaves are chained from left to right, and the sizes are between
`GetMinSize` and `GetMaxSize`. Some pages may be short, as one page is while the
tree is being balanced.

A step that replaces a subtree by another one keeps the shape if the subtree has it
and nothing else changes (`Shaped.refill`).
-/

namespace MiniSql

variable {K V : Type}

namespace BPlusTree

open KeyTree

variable {m n : ℕ} {cfg : TreeConfig} {s s' : BPlusTree K V}
  {pages : PageId → Option (BPlusTreePage K V)} {t t' : PageTree K V m}
  {C : Context PageId K V m n} {parent next : PageId} {short short' : List PageId}

/-! ## Changes around a hole -/

/-- A step in a hole is a step of the whole tree. -/
theorem Changes.fill (h : Changes s s' t.ids t'.ids) (hnodup : (C.fill t).ids.Nodup)
    (halloc : ∀ p ∈ (C.fill t).ids, p ∈ s.allocated) :
    Changes s s' (C.fill t).ids (C.fill t').ids :=
  h.frame C.ids (fun _ => C.mem_ids_fill) (fun _ => C.mem_ids_fill)
    (fun p hp => ⟨halloc p (C.mem_ids_fill.mpr (.inl hp)), (C.nodup_fill.mp hnodup).2.2 p hp⟩)

/-- The root page id is not looked at. -/
theorem Changes.withRoot {old new : List PageId} (h : Changes s s' old new) :
    Changes s { s' with rootPageId := s.rootPageId } old new :=
  ⟨rfl, h.same, h.none, h.fresh, h.allocated⟩

/-- A subtree that is written anew. -/
theorem Rewrites.changes (h : Rewrites cfg s s' t t' parent next)
    (halloc : ∀ p ∈ t.ids, p ∈ s.allocated) : Changes s s' t.ids t'.ids :=
  (changes_within halloc h.same h.allocated h.root).congr (fun _ => Iff.rfl)
    (fun _ => h.ids.mem_iff)

theorem holeParent_inner {i : PageId} {A B : List (K × PageTree K V m)} {k : K} : {n : ℕ} →
    (C : Context PageId K V (m + 1) n) → {parent : PageId} →
    holeParent (C.inner i A k B) parent = i
  | _, .hole, _ => rfl
  | _, .node _ _ _ C _, _ => holeParent_inner C

theorem holeNext_inner {i : PageId} {A B : List (K × PageTree K V m)} {k : K} : {n : ℕ} →
    (C : Context PageId K V (m + 1) n) → {next : PageId} →
    holeNext (C.inner i A k B) next = firstOf B (holeNext C next)
  | _, .hole, _ => rfl
  | _, .node _ _ _ C _, _ => holeNext_inner C

/-- The parent of the hole is a node around it, if there is one. -/
theorem holeParent_cases : {n : ℕ} → (C : Context PageId K V m n) → (parent : PageId) →
    (n = m ∧ C ≍ (Context.hole : Context PageId K V m m)) ∨ holeParent C parent ∈ C.ids
  | _, .hole, _ => .inl ⟨rfl, HEq.rfl⟩
  | _, .node i A k C B, _ => by
    refine .inr ?_
    show holeParent C i ∈ _
    rcases holeParent_cases C i with ⟨rfl, hC⟩ | hmem
    · rw [eq_of_heq hC]
      exact List.mem_cons_self
    · exact List.mem_cons_of_mem i (List.mem_append_right _ (List.mem_append_left _ hmem))

/-! ## Trees with a shape -/

/-- **The shape of a tree.** Its pages are stored, each with the parent that lists it and
the leaves chained up to `next`, which is not a page of the tree. Every page but the root
has as many entries or children as `GetMinSize` and `GetMaxSize` say, the root has an entry
or two children, and only the given pages may be short of this. -/
structure Shaped (cfg : TreeConfig) (short : List PageId) (s : BPlusTree K V)
    (t : PageTree K V n) (next : PageId) : Prop where
  root : t.id = s.rootPageId
  stored : Stored cfg s.pages t invalidPageId next
  nodup : t.ids.Nodup
  allocated : ∀ id ∈ t.ids, id ∈ s.allocated
  valid : invalidPageId ∉ t.ids
  sized : SizedBut cfg.bounds (t.id :: short) t
  least : t.id ∈ short ∨ cfg.least.min n ≤ t.size
  outside : next ∈ s.allocated ∧ next ∉ t.ids ∧ s.pages next = none

/-- Every page has what it needs to be searched. -/
theorem Shaped.branches {t : PageTree K V n} (h : Shaped cfg [] s t next) : Branches t := by
  have hmin : ∀ m, 1 ≤ cfg.bounds.min (m + 1) := fun _ => Nat.succ_pos _
  have hpos : 1 ≤ t.size := by
    refine le_trans ?_ (h.least.resolve_left List.not_mem_nil)
    cases n with
    | zero => exact le_rfl
    | succ n => exact Nat.le_succ 1
  refine h.sized.branches hmin hpos (fun p hp hc => ?_)
  exact id_notMem_below h.nodup (List.mem_singleton.mp hc ▸ hp)

/-- **The leaf that a search ends at** is one of the tree, whatever the keys are. -/
theorem Shaped.routes_of_findLeafPage [LinearOrder K] {t : PageTree K V n} {key : K}
    {leaf : LeafPage K V} (h : Shaped cfg short s t next)
    (hfind : s.findLeafPage key false = some leaf) :
    ∃ l, Routes (fun lo hi => False → Within lo hi key) t l ⊥ ⊤ ∧
      s.pages l.id = some (.leaf leaf) := by
  rw [findLeafPage, ← h.root] at hfind
  exact routes_of_findLeafFrom h.stored False.elim hfind

/-- **A change of the whole tree**, with another root perhaps. -/
theorem Shaped.changed {t : PageTree K V n} (h : Shaped cfg short s t next)
    (hchanges : Changes s { s' with rootPageId := s.rootPageId } t.ids t'.ids)
    (hroot : t'.id = s'.rootPageId) (hstored : Stored cfg s'.pages t' invalidPageId next)
    (hnodup : t'.ids.Nodup) (hsized : SizedBut cfg.bounds (t'.id :: short') t')
    (hleast : t'.id ∈ short' ∨ cfg.least.min m ≤ t'.size) : Shaped cfg short' s' t' next where
  root := hroot
  stored := hstored
  nodup := hnodup
  allocated p hp := hchanges.mem_allocated hp
  valid hp := (hchanges.fresh _ hp).elim h.valid (fun hnew => absurd hnew.2 (by decide))
  sized := hsized
  least := hleast
  outside := by
    obtain ⟨halloc, hnot, hnone⟩ := h.outside
    exact ⟨hchanges.mem_allocated_of_notMem halloc hnot, hchanges.notMem_new halloc hnot,
      (hchanges.same next halloc hnot).trans hnone⟩

/-- The root has enough entries or children, whatever is in the hole. -/
theorem least_fill {t t' : PageTree K V m} (hsub : ∀ i ∈ C.ids, i ∈ short → i ∈ short')
    (h : (C.fill t).id ∈ short ∨ cfg.least.min n ≤ (C.fill t).size)
    (ht' : t'.id ∈ short' ∨ cfg.least.min m ≤ t'.size) :
    (C.fill t').id ∈ short' ∨ cfg.least.min n ≤ (C.fill t').size := by
  cases C with
  | hole => exact ht'
  | node i A k C B =>
    have hlength : (A ++ (k, C.fill t') :: B).length = (A ++ (k, C.fill t) :: B).length := by
      rw [List.length_append, List.length_append]
      rfl
    refine h.imp (hsub i List.mem_cons_self) (fun hsize => ?_)
    rw [Context.fill_node, size_node, hlength]
    exact hsize

/-- **Another subtree in the hole.** -/
theorem Shaped.refill (h : Shaped cfg short s (C.fill t) next)
    (hchanges : Changes s s' t.ids t'.ids)
    (hid : t'.id = t.id) (hfirst : t'.first = t.first)
    (hstored : Stored cfg s'.pages t' (holeParent C invalidPageId) (holeNext C next))
    (hnodup : t'.ids.Nodup) (hsized : SizedBut cfg.bounds ((C.fill t).id :: short') t')
    (hsub : ∀ i ∈ C.ids, i ∈ short → i ∈ short')
    (hleast : t'.id ∈ short' ∨ cfg.least.min m ≤ t'.size) :
    Shaped cfg short' s' (C.fill t') next := by
  obtain ⟨hCn, -, hdisj⟩ := C.nodup_fill.mp h.nodup
  have hin : ∀ p ∈ C.ids, p ∈ s.allocated := fun p hp =>
    h.allocated p (C.mem_ids_fill.mpr (.inl hp))
  have hroot : (C.fill t').id = (C.fill t).id := C.id_fill hid
  refine h.changed (hchanges.fill h.nodup h.allocated).withRoot ?_ ?_ ?_ ?_
    (least_fill hsub h.least hleast)
  · rw [hroot, h.root, ← hchanges.root]
  · exact Stored.refill hid hfirst h.stored (fun p hp => hchanges.same p (hin p hp) (hdisj p hp))
      hstored
  · exact C.nodup_fill.mpr ⟨hCn, hnodup, fun p hp => hchanges.notMem_new (hin p hp) (hdisj p hp)⟩
  · rw [hroot]
    exact SizedBut.refill hsized h.sized (fun i hi hc => List.mem_cons.mpr
      ((List.mem_cons.mp hc).imp_right (hsub i hi)))

/-- A subtree is the whole tree, or it has a parent and is below the root. -/
theorem Shaped.hole_or_below (h : Shaped cfg short s (C.fill t) next) :
    (n = m ∧ C ≍ (Context.hole : Context PageId K V m m)) ∨
      (holeParent C invalidPageId ≠ invalidPageId ∧ (C.fill t).id ≠ t.id) := by
  refine (holeParent_cases C invalidPageId).imp_right (fun hmem => ⟨fun hc => ?_, fun hc => ?_⟩)
  · exact h.valid (C.mem_ids_fill.mpr (.inl (hc ▸ hmem)))
  · cases C with
    | hole => cases hmem
    | node i A k C B =>
      obtain ⟨-, -, hdisj⟩ := (Context.node i A k C B).nodup_fill.mp h.nodup
      have hi : i = t.id := hc
      exact hdisj i List.mem_cons_self (hi ▸ t.id_mem_ids)

/-- The sizes of a page that is not short. -/
theorem Shaped.min_le (h : Shaped cfg short s (C.fill t) next) (hout : t.id ∉ short)
    (after : PageId) : (rootPage cfg t (holeParent C invalidPageId) after).minSize ≤ t.size := by
  rcases h.hole_or_below with ⟨rfl, hC⟩ | ⟨hparent, hne⟩
  · obtain rfl := eq_of_heq hC
    rw [holeParent, minSize_root]
    exact h.least.resolve_left hout
  · rw [minSize_rootPage hparent]
    exact h.sized.hole.root.1.resolve_left (fun hc =>
      (List.mem_cons.mp hc).elim (fun hc => hne hc.symm) hout)

/-- **No page is short any more**, if the one that might be has the size that it needs. -/
theorem Shaped.settle (h : Shaped cfg [t.id] s (C.fill t) next) {after : PageId}
    (hsize : (rootPage cfg t (holeParent C invalidPageId) after).minSize ≤ t.size) :
    Shaped cfg [] s (C.fill t) next := by
  obtain ⟨-, ht, hdisj⟩ := C.nodup_fill.mp h.nodup
  have hroot : t.id ∈ [(C.fill t).id] ∨ cfg.bounds.min m ≤ t.size := by
    rcases h.hole_or_below with ⟨rfl, hC⟩ | ⟨hparent, -⟩
    · obtain rfl := eq_of_heq hC
      exact .inl (List.mem_singleton_self _)
    · rw [minSize_rootPage hparent] at hsize
      exact .inr hsize
  have hbelow : ∀ i, i ≠ t.id → i ∈ [(C.fill t).id, t.id] → i ∈ [(C.fill t).id] := fun i hi hc =>
    List.mem_singleton.mpr ((List.mem_pair.mp hc).resolve_right hi)
  refine { h with sized := ?_, least := ?_ }
  · refine SizedBut.refill (h.sized.hole.of_root hroot (fun i hi => hbelow i ?_)) h.sized
      (fun i hi => hbelow i ?_)
    · exact fun hc => id_notMem_below ht (hc ▸ hi)
    · exact fun hc => hdisj i hi (hc ▸ t.id_mem_ids)
  · rcases h.hole_or_below with ⟨rfl, hC⟩ | ⟨-, hne⟩
    · obtain rfl := eq_of_heq hC
      rw [holeParent, minSize_root] at hsize
      exact .inr hsize
    · exact .inr (h.least.resolve_left (fun hc => hne (List.mem_singleton.mp hc)))

end BPlusTree

end MiniSql
