import MiniSql.BPlusTreeSearch

/-!
# The chain of the leaves

The leaves of a stored tree are chained from left to right: the next page of a
leaf is the leaf after it (`Stored.chained`). The search for the leftmost leaf
ends at the head of the chain.
-/

namespace MiniSql.BPlusTree

open KeyTree

variable {K V : Type} {n : ℕ} {cfg : TreeConfig} {s : BPlusTree K V}
  {pages : PageId → Option (BPlusTreePage K V)} {t : PageTree K V n}
  {cs : List (K × PageTree K V n)} {id parent next : PageId}

/-- The head of a chain of leaves, or what comes after it. -/
def headId : List (Leaf PageId K V) → PageId → PageId
  | [], next => next
  | l :: _, _ => l.id

/-- Leaf pages that are chained one to the other, the last one to a given
page. -/
def Chained (pages : PageId → Option (BPlusTreePage K V)) :
    List (Leaf PageId K V) → PageId → Prop
  | [], _ => True
  | l :: ls, next => (∃ p : LeafPage K V, pages l.id = some (.leaf p) ∧ p.pageId = l.id ∧
      p.array = l.entries ∧ p.nextPageId = headId ls next) ∧ Chained pages ls next

theorem headId_append {ls ms : List (Leaf PageId K V)} :
    headId (ls ++ ms) next = headId ls (headId ms next) := by
  cases ls <;> rfl

theorem chained_append {ls ms : List (Leaf PageId K V)} :
    Chained pages (ls ++ ms) next ↔ Chained pages ls (headId ms next) ∧ Chained pages ms next := by
  induction ls with
  | nil => exact (and_iff_right trivial).symm
  | cons l ls ih =>
    show (∃ p : LeafPage K V, _ ∧ _ ∧ _ ∧ _ = headId (ls ++ ms) next) ∧ Chained _ (ls ++ ms) _ ↔ _
    rw [ih, headId_append, ← and_assoc]
    rfl

/-- The page of a leaf in a chain. -/
theorem Chained.of_mem {ls : List (Leaf PageId K V)} (h : Chained pages ls next)
    {l : Leaf PageId K V} (hl : l ∈ ls) :
    ∃ p : LeafPage K V, pages l.id = some (.leaf p) ∧ p.pageId = l.id ∧ p.array = l.entries := by
  obtain ⟨A, B, rfl⟩ := List.append_of_mem hl
  obtain ⟨p, hp, hid, harray, -⟩ := (chained_append.mp h).2.1
  exact ⟨p, hp, hid, harray⟩

/-- The first leaf is the head of the chain. -/
theorem headId_leaves : {n : ℕ} → {t : PageTree K V n} → {next : PageId} → Branches t →
    headId t.leaves next = t.first
  | 0, _, _, _ => rfl
  | n + 1, t, _, h => by
    obtain ⟨id, cs, rfl⟩ := exists_node t
    cases cs with
    | nil => exact absurd rfl h.1
    | cons c cs =>
      rw [leaves_node, List.flatMap_cons, headId_append, first_node_cons]
      exact headId_leaves (h.2 c List.mem_cons_self)

theorem headId_leavesIn (h : ∀ c ∈ cs, Branches c.2) :
    headId (cs.flatMap (fun c => c.2.leaves)) next = firstOf cs next := by
  cases cs with
  | nil => rfl
  | cons c cs =>
    rw [List.flatMap_cons, headId_append]
    exact headId_leaves (h c List.mem_cons_self)

/-- **The leaves of a stored tree are chained** from left to right. -/
theorem Stored.chained : {n : ℕ} → {t : PageTree K V n} → {parent next : PageId} →
    Stored cfg pages t parent next → Branches t → Chained pages t.leaves next
  | 0, t, _, _, h, _ => ⟨⟨_, h, rfl, rfl, rfl⟩, trivial⟩
  | n + 1, t, _, next, h, hb => by
    obtain ⟨id, cs, rfl⟩ := exists_node t
    have hin : ∀ ds : List (K × PageTree K V n), (∀ c ∈ ds, Branches c.2) →
        StoredUnder cfg pages id ds next →
        Chained pages (ds.flatMap (fun c => c.2.leaves)) next := by
      intro ds hds hstored
      induction ds with
      | nil => trivial
      | cons c ds ih =>
        have htail := fun d hd => hds d (List.mem_cons_of_mem c hd)
        rw [List.flatMap_cons, chained_append, headId_leavesIn htail]
        exact ⟨hstored.1.chained (hds c List.mem_cons_self), ih htail hstored.2⟩
    exact hin cs hb.2 h.2

/-- **The search for the leftmost leaf** ends at the first leaf. -/
theorem pageId_of_findLeafFrom_leftMost [LinearOrder K] {key : K} {leaf : LeafPage K V} :
    {n : ℕ} → {t : PageTree K V n} → {parent next : PageId} → {rounds : ℕ} →
    Stored cfg s.pages t parent next →
    findLeafFrom s key true rounds t.id = some leaf → leaf.pageId = t.first
  | _, _, _, _, 0, _, h => by cases h
  | 0, _, _, _, _ + 1, hstored, h => by
    rw [findLeafFrom, hstored.root] at h
    cases h
    rfl
  | n + 1, t, _, _, rounds + 1, hstored, h => by
    obtain ⟨id, cs, rfl⟩ := exists_node t
    rw [findLeafFrom, hstored.root] at h
    cases cs with
    | nil => cases h
    | cons c cs =>
      have hc : Stored cfg s.pages c.2 id _ := hstored.2.1
      have hfirst : leaf.pageId = c.2.first := pageId_of_findLeafFrom_leftMost hc h
      exact hfirst

end MiniSql.BPlusTree
