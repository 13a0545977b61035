import MiniSql.BPlusTreeFind
import MiniSql.IndexIterator

/-!
# The lower bound of a key

`Begin(key)` goes to the leaf in which the search for the key ends, and there to the first
entry whose key is not smaller. Where the leaf has no such entry, the iterator is behind the
last one: it does not go on to the next leaf, though the entry may be there.

That is so for the keys in the gap between two leaves only, above what the one has and below
the key that separates them (`Scannable.standsOnLowerBound_iff`).
-/

namespace MiniSql

open KeyTree

variable {K V : Type} [LinearOrder K]

/-- The first entry of a list in order that is not below a key. -/
theorem head?_eq_some_iff {P R : List (K × V)} {key : K} {e : K × V}
    (h : (P ++ R).Pairwise (fun e f => e.1 < f.1)) (hP : ∀ e ∈ P, e.1 < key)
    (hR : ∀ e ∈ R, key ≤ e.1) : R.head? = some e ↔
      e ∈ P ++ R ∧ key ≤ e.1 ∧ ∀ f ∈ P ++ R, key ≤ f.1 → e.1 ≤ f.1 := by
  have hmem : ∀ f ∈ P ++ R, key ≤ f.1 → f ∈ R := fun f hf hkey =>
    (List.mem_append.mp hf).resolve_left (fun hp => absurd (hP f hp) (not_lt.mpr hkey))
  have hsorted := (List.pairwise_append.mp h).2.1
  constructor
  · intro hhead
    obtain ⟨R', rfl⟩ := List.head?_eq_some_iff.mp hhead
    refine ⟨List.mem_append_right P List.mem_cons_self, hR e List.mem_cons_self, ?_⟩
    intro f hf hkey
    rcases List.mem_cons.mp (hmem f hf hkey) with rfl | hf
    · exact le_rfl
    · exact ((List.pairwise_cons.mp hsorted).1 f hf).le
  · rintro ⟨he, hkey, hleast⟩
    have heR := hmem e he hkey
    cases R with
    | nil => cases heR
    | cons r R =>
      have hle : e.1 ≤ r.1 :=
        hleast r (List.mem_append_right P List.mem_cons_self) (hR r List.mem_cons_self)
      rcases List.mem_cons.mp heR with rfl | he
      · rfl
      · exact absurd ((List.pairwise_cons.mp hsorted).1 e he) (not_lt.mpr hle)

namespace BPlusTree

/-- `Begin(key)`. In an empty tree it points to no page. -/
def beginAt (t : BPlusTree K V) (key : K) : Option IndexIterator :=
  if t.isEmpty then some ⟨invalidPageId, 0⟩
  else (t.findLeafPage key false).map (fun leaf => ⟨leaf.pageId, leaf.keyIndex key⟩)

variable {n : ℕ} {s : BPlusTree K V} {t : PageTree K V n} {key : K}

/-- **A searchable tree for iterators**: the leaves have their own ids. -/
structure Scannable (s : BPlusTree K V) (t : PageTree K V n) : Prop extends Searchable s t where
  pageId : ∀ l ∈ t.leaves, ∀ p, s.pages l.id = some (.leaf p) → p.pageId = l.id

/-- **The lower bound**: `Begin(key)` gives an iterator that reads the first entry of the tree
whose key is not smaller, and that reads nothing where there is none. -/
def StandsOnLowerBound (s : BPlusTree K V) (t : PageTree K V n) (key : K) : Prop :=
  ∃ it, s.beginAt key = some it ∧ ∀ e, it.item s = some e ↔
    e ∈ t.entries ∧ key ≤ e.1 ∧ ∀ f ∈ t.entries, key ≤ f.1 → e.1 ≤ f.1

/-- **A key in a gap** between two leaves: the leaf whose bounds it is within has smaller keys
only, and the tree has a key that is not smaller. -/
def InGap (t : PageTree K V n) (key : K) : Prop :=
  ∃ l, Routes (fun lo hi => Within lo hi key) t l ⊥ ⊤ ∧ (∀ e ∈ l.entries, e.1 < key) ∧
    ∃ e ∈ t.entries, key ≤ e.1

/-- **Where `Begin(key)` is**: among the entries it is before those of the leaf that are not
smaller, which come before all others that are not. -/
theorem Scannable.beginAt_eq (h : Scannable s t) (key : K) :
    ∃ l P A B Q it, (∀ l', Routes (fun lo hi => Within lo hi key) t l' ⊥ ⊤ ↔ l' = l) ∧
      l.entries = A ++ B ∧ t.entries = (P ++ A) ++ (B ++ Q) ∧ (∀ e ∈ P ++ A, e.1 < key) ∧
      (∀ e ∈ B ++ Q, key ≤ e.1) ∧ s.beginAt key = some it ∧ it.item s = B.head? := by
  obtain ⟨l, leaf, hfind, hpage, harray, hl, hway, -⟩ := h.findLeafPage_eq key
  obtain ⟨P, Q, hentries, hP, hQ⟩ := h.separated.entries_of_routes ((hway l).mpr rfl)
  have hsorted : leaf.array.Pairwise (fun e f => e.1 < f.1) := by
    rw [harray]
    exact h.separated.sorted_of_mem_leaves hl
  obtain ⟨A, B, hcut, hA, hlt, hle⟩ := leaf.keyIndex_spec hsorted key
  have hempty : s.isEmpty = false := decide_eq_false h.valid
  refine ⟨l, P, A, B, Q, ⟨leaf.pageId, leaf.keyIndex key⟩, hway, harray ▸ hcut, ?_, ?_, ?_, ?_, ?_⟩
  · rw [hentries, ← harray, hcut]
    simp only [List.append_assoc]
  · exact fun e he => (List.mem_append.mp he).elim (hP e) (hlt e)
  · exact fun e he => (List.mem_append.mp he).elim (hle e) (fun he => (hQ e he).le)
  · rw [beginAt, hempty, if_neg Bool.false_ne_true, hfind]
    rfl
  · rw [IndexIterator.item, h.pageId l hl leaf hpage, fetchLeaf, hpage]
    show leaf.array[leaf.keyIndex key]? = _
    rw [hcut, ← hA, List.getElem?_append_right le_rfl, Nat.sub_self, List.head?_eq_getElem?]

/-- **`Begin(key)` is right** exactly for the keys that are not in a gap between two leaves. -/
theorem Scannable.standsOnLowerBound_iff (h : Scannable s t) (key : K) :
    StandsOnLowerBound s t key ↔ ¬ InGap t key := by
  obtain ⟨l, P, A, B, Q, it, hway, hl, hentries, hlt, hle, hbegin, hitem⟩ := h.beginAt_eq key
  have hsorted := h.separated.spread.1
  rw [hentries] at hsorted
  have hfirst := fun e => head?_eq_some_iff (e := e) hsorted hlt hle
  have hgap : InGap t key ↔ B = [] ∧ Q ≠ [] := by
    constructor
    · rintro ⟨l', hroutes, hsmall, e, he, hkey⟩
      rw [(hway l').mp hroutes, hl] at hsmall
      have hB : B = [] := List.eq_nil_iff_forall_not_mem.mpr (fun f hf =>
        (hsmall f (List.mem_append_right A hf)).not_ge (hle f (List.mem_append_left Q hf)))
      rw [hentries] at he
      have hQ := (List.mem_append.mp he).resolve_left
        (fun hc => absurd (hlt e hc) (not_lt.mpr hkey))
      rw [hB] at hQ
      exact ⟨hB, List.ne_nil_of_mem hQ⟩
    · rintro ⟨rfl, hQ⟩
      obtain ⟨q, hq⟩ := List.exists_mem_of_ne_nil Q hQ
      refine ⟨l, (hway l).mpr rfl, fun e he => ?_, q, ?_, hle q hq⟩
      · rw [hl, List.append_nil] at he
        exact hlt e (List.mem_append_right P he)
      · rw [hentries]
        exact List.mem_append_right _ hq
  have hstands : StandsOnLowerBound s t key ↔ B.head? = (B ++ Q).head? := by
    rw [StandsOnLowerBound, hbegin, hentries]
    simp only [Option.some.injEq, exists_eq_left', hitem, ← hfirst]
    exact ⟨Option.ext, fun hsame e => by rw [hsame]⟩
  rw [hstands, hgap]
  cases B with
  | nil =>
    cases Q with
    | nil => exact iff_of_true rfl (fun hc => hc.2 rfl)
    | cons q Q => exact iff_of_false nofun (fun hc => hc ⟨rfl, List.cons_ne_nil q Q⟩)
  | cons b B => exact iff_of_true rfl nofun

/-! ## A gap -/

/-- A tree of two leaves, with the key 5 between them. -/
def gapped : PageTree ℕ ℕ 1 :=
  node 4 [(0, leaf 2 [(1, 10), (2, 20)]), (5, leaf 3 [(5, 50), (6, 60), (7, 70)])]

/-- Its pages. -/
def gappedPages : BPlusTree ℕ ℕ where
  rootPageId := 4
  pages id :=
    if id = 2 then some (.leaf ⟨2, 4, 3, 4, [(1, 10), (2, 20)]⟩)
    else if id = 3 then some (.leaf ⟨3, 4, invalidPageId, 4, [(5, 50), (6, 60), (7, 70)]⟩)
    else if id = 4 then some (.internal ⟨4, invalidPageId, 4, [(0, 2), (5, 3)]⟩)
    else none
  allocated := [4, 3, 2, 1, 0]

theorem documented_gapped : Documented (.above 4 4) gappedPages gapped where
  root := rfl
  stored := ⟨rfl, rfl, rfl, trivial⟩
  nodup := by decide
  ordered := by
    refine ⟨⟨nofun, by decide, fun e he => ⟨bot_le, ?_⟩⟩, nofun, by decide, fun e he => ⟨?_, ?_⟩⟩
    · exact WithTop.coe_lt_coe.mpr
        ((by decide : ∀ e ∈ [(1, 10), (2, 20)], e.1 < 5) e he)
    · exact WithBot.coe_le_coe.mpr
        ((by decide : ∀ e ∈ [(5, 50), (6, 60), (7, 70)], 5 ≤ e.1) e he)
    · exact WithTop.coe_lt_top e.1

theorem scannable_gapped : Scannable gappedPages gapped where
  root := rfl
  laid := documented_gapped.stored.laid
  nodup := documented_gapped.nodup
  allocated := by decide
  valid := by decide
  separated := documented_gapped.ordered.separated
  pageId l hl p hp := by
    rcases List.mem_pair.mp hl with rfl | rfl
    · cases hp
      rfl
    · cases hp
      rfl

/-- The key 6 is in no gap. -/
theorem standsOnLowerBound_gapped : StandsOnLowerBound gappedPages gapped 6 := by
  refine (scannable_gapped.standsOnLowerBound_iff 6).mpr ?_
  rintro ⟨l, hroutes, hsmall, -⟩
  rcases List.mem_pair.mp hroutes.mem_leaves with rfl | rfl
  · have hsix : (⟨3, [(5, 50), (6, 60), (7, 70)]⟩ : Leaf PageId ℕ ℕ) = ⟨2, [(1, 10), (2, 20)]⟩ :=
      routes_unique scannable_gapped.separated
        (scannable_gapped.separated.routes_of_mem (e := (6, 60)) (List.mem_cons_of_mem _
          (List.mem_singleton_self _)) (by decide)) hroutes
    cases hsix
  · exact absurd (hsmall (6, 60) (by decide)) (lt_irrefl 6)

/-- **The key 3 is in the gap**: nothing can be read from `Begin(3)`, though the tree has the
key 5. -/
theorem not_standsOnLowerBound : ¬ ∀ (n : ℕ) (s : BPlusTree ℕ ℕ) (t : PageTree ℕ ℕ n) (key : ℕ),
    Documented (.above 4 4) s t → Scannable s t → t.entries ≠ [] →
    StandsOnLowerBound s t key := by
  intro hall
  obtain ⟨it, hbegin, hitem⟩ :=
    hall 1 gappedPages gapped 3 documented_gapped scannable_gapped nofun
  have hit : gappedPages.beginAt 3 = some ⟨2, 2⟩ := rfl
  cases hit.symm.trans hbegin
  have hfive := (hitem (5, 50)).mpr (by decide)
  cases hfive

end BPlusTree

end MiniSql
