import MiniSql.IndexIterator
import Mathlib.Data.List.Perm.Subperm

/-!
# What a scan visits

The loop from `Begin` to `End` of a well-formed tree stops, and it has then
visited the entries up to, but without, `End` (`Holds.scan_eq`). `End` is
where the search for the last key in the root ends: in a root that is a leaf
this is the last entry, else it is the last entry of the first leaf below the
last child of the root. The entries from there on (`KeyTree.atEnd`) are not
visited.

`GetValue` finds the values of all keys (`Holds.getValue_eq_some`).
-/

namespace KeyTree

variable {ι K V : Type} {n : ℕ}

/-- The leaves below the last child of the root, or the root that is a leaf. -/
def lastLeaves : {n : ℕ} → KeyTree ι K V n → List (Leaf ι K V)
  | 0, t => [t]
  | _ + 1, t => ((Node.children t).getLast?.map (fun c => c.2.leaves)).getD []

/-- The last entry of the first of these leaves, and all entries after it. -/
def atEnd (t : KeyTree ι K V n) : List (K × V) :=
  match t.lastLeaves with
  | [] => []
  | e :: ls => e.entries.drop (e.entries.length - 1) ++ ls.flatMap Leaf.entries

/-- The leaves of an ordered tree have entries. -/
theorem Ordered.leaf_ne_nil [LinearOrder K] : {n : ℕ} → {t : KeyTree ι K V n} →
    {lo : WithBot K} → {hi : WithTop K} → Ordered t lo hi → ∀ l ∈ t.leaves, l.entries ≠ []
  | 0, t, _, _, h, l, hl => by
    rw [List.mem_singleton.mp hl]
    exact h.1
  | n + 1, t, _, _, h, l, hl => by
    obtain ⟨c, hc, hlc⟩ := List.mem_flatMap.mp hl
    obtain ⟨A, B, hAB⟩ := List.append_of_mem hc
    rw [Ordered, hAB] at h
    exact (orderedIn_focus.mp h).2.1.leaf_ne_nil l hlc

end KeyTree

namespace MiniSql

namespace BPlusTree

open KeyTree

variable {K V : Type} {n : ℕ} {cfg : TreeConfig} {s : BPlusTree K V} {t : PageTree K V n}
  {next : PageId}

/-! ## The loop -/

section Scan

variable [LinearOrder K]

/-- A round that does not stop. -/
theorem scanFrom_succ {stop it it' : IndexIterator} {f : K × V} (hend : s.endOf = some stop)
    (hne : it ≠ stop) (hitem : it.item s = some f) (hnext : it.next s = some it') {rounds : ℕ} :
    s.scanFrom (rounds + 1) it = (s.scanFrom rounds it').map (fun rest => f :: rest) := by
  have hround : s.scanFrom (rounds + 1) it = s.endOf.bind (fun stop =>
      if it = stop then some []
      else (it.item s).bind (fun f => (it.next s).bind (fun it' =>
        (s.scanFrom rounds it').bind (fun rest => some (f :: rest))))) := rfl
  rw [hround, hend, Option.bind_some, if_neg hne, hitem, Option.bind_some, hnext, Option.bind_some]
  exact (Option.map_eq_bind ..).symm

/-- The loop at its end. -/
theorem scanFrom_stop {stop : IndexIterator} (hend : s.endOf = some stop) {rounds : ℕ} :
    s.scanFrom (rounds + 1) stop = some [] := by
  unfold scanFrom
  rw [hend, Option.bind_eq_bind, Option.bind_some, if_pos rfl]

/-- The number of rounds that are allowed for has no part in what a loop
visits. -/
theorem scanFrom_unique {rounds rounds' : ℕ} {it : IndexIterator} {visited visited' : List (K × V)}
    (h : s.scanFrom rounds it = some visited) (h' : s.scanFrom rounds' it = some visited') :
    visited = visited' := by
  induction rounds generalizing rounds' it visited visited' with
  | zero => cases h
  | succ rounds ih =>
    cases rounds' with
    | zero => cases h'
    | succ rounds' =>
      obtain ⟨stop, hend, -⟩ := Option.bind_eq_some_iff.mp h
      rcases scanFrom_cases hend h with ⟨rfl, rfl⟩ | ⟨hne, f, it₁, rest, hf, hit, hrest, rfl⟩
      · rw [scanFrom_stop hend] at h'
        exact Option.some.inj h'
      · rw [scanFrom_succ hend hne hf hit] at h'
        obtain ⟨rest', hrest', rfl⟩ := Option.map_eq_some_iff.mp h'
        rw [ih hrest hrest']

end Scan

variable {e l : Leaf PageId K V} {ls A : List (Leaf PageId K V)}

/-- What the iterator reads in a leaf of a chain. -/
theorem item_of_chained (hchain : Chained s.pages (l :: ls) next) (i : ℕ) :
    IndexIterator.item s ⟨l.id, i⟩ = l.entries[i]? := by
  obtain ⟨⟨p, hp, -, harray, -⟩, -⟩ := hchain
  rw [IndexIterator.item, fetchLeaf, hp, ← harray]
  rfl

/-- Within a leaf it goes to the next entry. -/
theorem next_of_lt (hchain : Chained s.pages (l :: ls) next) {i : ℕ}
    (hi : i + 1 < l.entries.length) :
    IndexIterator.next s ⟨l.id, i⟩ = some ⟨l.id, (i + 1 : ℕ)⟩ := by
  obtain ⟨⟨p, hp, -, harray, -⟩, -⟩ := hchain
  rw [IndexIterator.next, fetchLeaf, hp]
  show (if (p.array.length : ℤ) ≤ (i : ℤ) + 1 then _ else _) = _
  rw [harray, if_neg (by omega)]
  rfl

/-- From the last entry of a leaf it goes to the next leaf. -/
theorem next_of_last {l' : Leaf PageId K V} (hchain : Chained s.pages (l :: l' :: ls) next)
    (hvalid : l'.id ≠ invalidPageId) {i : ℕ} (hi : i + 1 = l.entries.length) :
    IndexIterator.next s ⟨l.id, i⟩ = some ⟨l'.id, (0 : ℕ)⟩ := by
  obtain ⟨⟨p, hp, -, harray, hafter⟩, ⟨p', hp', hid', -, -⟩, -⟩ := hchain
  have hafter : p.nextPageId = l'.id := hafter
  rw [IndexIterator.next, fetchLeaf, hp]
  show (if (p.array.length : ℤ) ≤ (i : ℤ) + 1 then _ else _) = _
  rw [harray, if_pos (by omega), hafter, if_neg hvalid, fetchLeaf, hp']
  show some (IndexIterator.mk p'.pageId 0) = _
  rw [hid']
  rfl

variable [LinearOrder K]

/-- **The loop in the last leaf that it gets to.** -/
theorem exists_scanFrom_end (hend : s.endOf = some ⟨e.id, (e.entries.length : ℤ) - 1⟩)
    (hchain : Chained s.pages (e :: ls) next) {k i : ℕ} (hi : i + k + 1 = e.entries.length) :
    ∃ rounds, s.scanFrom rounds ⟨e.id, i⟩ = some (e.entries.dropLast.drop i) := by
  induction k generalizing i with
  | zero =>
    have hit : (⟨e.id, i⟩ : IndexIterator) = ⟨e.id, (e.entries.length : ℤ) - 1⟩ :=
      congrArg (IndexIterator.mk e.id) (by omega)
    refine ⟨1, ?_⟩
    rw [hit, scanFrom_stop hend, List.drop_of_length_le (by rw [List.length_dropLast]; omega)]
  | succ k ih =>
    obtain ⟨rounds, hrest⟩ := ih (i := i + 1) (by omega)
    have hlt : i < e.entries.dropLast.length := by
      rw [List.length_dropLast]
      omega
    have hne : (⟨e.id, i⟩ : IndexIterator) ≠ ⟨e.id, (e.entries.length : ℤ) - 1⟩ := fun hit => by
      have hindex := (IndexIterator.mk.inj hit).2
      omega
    have hread : e.entries[i]? = some e.entries.dropLast[i] := by
      rw [List.getElem_dropLast, List.getElem?_eq_getElem]
    refine ⟨rounds + 1, ?_⟩
    rw [scanFrom_succ hend hne ((item_of_chained hchain i).trans hread)
      (next_of_lt hchain (by omega)), hrest, Option.map_some, ← List.drop_eq_getElem_cons]

/-- **The loop in a leaf before it.** -/
theorem exists_scanFrom_leaf {l' : Leaf PageId K V}
    (hend : s.endOf = some ⟨e.id, (e.entries.length : ℤ) - 1⟩) (hne : l.id ≠ e.id)
    (hchain : Chained s.pages (l :: l' :: ls) next) (hvalid : l'.id ≠ invalidPageId)
    {rest : List (K × V)} (hrest : ∃ rounds, s.scanFrom rounds ⟨l'.id, (0 : ℕ)⟩ = some rest)
    {k i : ℕ} (hi : i + k + 1 = l.entries.length) :
    ∃ rounds, s.scanFrom rounds ⟨l.id, i⟩ = some (l.entries.drop i ++ rest) := by
  induction k generalizing i with
  | zero =>
    obtain ⟨rounds, hrest⟩ := hrest
    have hlt : i < l.entries.length := by omega
    refine ⟨rounds + 1, ?_⟩
    rw [scanFrom_succ hend (fun hit => hne (IndexIterator.mk.inj hit).1)
      ((item_of_chained hchain i).trans (List.getElem?_eq_getElem hlt))
      (next_of_last hchain hvalid (by omega)), hrest, Option.map_some,
      List.drop_eq_getElem_cons hlt, List.drop_of_length_le (by omega)]
    rfl
  | succ k ih =>
    obtain ⟨rounds, hlater⟩ := ih (i := i + 1) (by omega)
    have hlt : i < l.entries.length := by omega
    refine ⟨rounds + 1, ?_⟩
    rw [scanFrom_succ hend (fun hit => hne (IndexIterator.mk.inj hit).1)
      ((item_of_chained hchain i).trans (List.getElem?_eq_getElem hlt))
      (next_of_lt hchain (by omega)), hlater, Option.map_some, List.drop_eq_getElem_cons hlt]
    rfl

/-- **The loop along a chain of leaves** visits what is before the last entry
of the leaf in which it ends. -/
theorem exists_scanFrom (hend : s.endOf = some ⟨e.id, (e.entries.length : ℤ) - 1⟩)
    (hchain : Chained s.pages (A ++ e :: ls) next) (hnodup : ((A ++ e :: ls).map Leaf.id).Nodup)
    (hvalid : ∀ l ∈ A ++ e :: ls, l.id ≠ invalidPageId)
    (hentries : ∀ l ∈ A ++ e :: ls, l.entries ≠ []) :
    ∃ rounds, s.scanFrom rounds ⟨headId (A ++ e :: ls) next, (0 : ℕ)⟩ =
      some (A.flatMap Leaf.entries ++ e.entries.dropLast) := by
  have hpos : ∀ l ∈ A ++ e :: ls, 0 + (l.entries.length - 1) + 1 = l.entries.length := by
    intro l hl
    have := List.length_pos_of_ne_nil (hentries l hl)
    omega
  induction A with
  | nil => exact exists_scanFrom_end hend hchain (hpos e List.mem_cons_self)
  | cons a A ih =>
    obtain ⟨hnot, hnodup'⟩ := List.nodup_cons.mp hnodup
    have htail : ∀ l ∈ A ++ e :: ls, l ∈ a :: A ++ e :: ls := fun l => List.mem_cons_of_mem a
    obtain ⟨l', ls', hls'⟩ := List.exists_cons_of_ne_nil
      (List.append_ne_nil_of_right_ne_nil A (List.cons_ne_nil e ls))
    have hrest := ih hchain.2 hnodup' (fun l hl => hvalid l (htail l hl))
      (fun l hl => hentries l (htail l hl)) (fun l hl => hpos l (htail l hl))
    have hae : a.id ≠ e.id := fun hid =>
      hnot (hid ▸ List.mem_map_of_mem (List.mem_append_right A List.mem_cons_self))
    have hl' : l' ∈ A ++ e :: ls := hls' ▸ List.mem_cons_self
    rw [List.cons_append, hls'] at hchain
    rw [hls'] at hrest
    have hscan := exists_scanFrom_leaf hend hae hchain (hvalid l' (htail l' hl')) hrest
      (hpos a List.mem_cons_self)
    rw [List.drop_zero] at hscan
    rw [List.flatMap_cons, List.append_assoc]
    exact hscan

/-! ## Where the searches end -/

/-- **The search for a lower bound of a tree** ends in the first leaf. -/
theorem leaf_of_findLeafFrom_lower {key : K} {leaf : LeafPage K V} :
    {n : ℕ} → {t : PageTree K V n} → {parent next : PageId} → {hi : WithTop K} → {rounds : ℕ} →
    Stored cfg s.pages t parent next → Ordered t key hi →
    findLeafFrom s key false rounds t.id = some leaf →
    ∃ e ls, t.leaves = e :: ls ∧ s.pages e.id = some (.leaf leaf)
  | _, _, _, _, _, 0, _, _, h => by cases h
  | 0, t, _, _, _, _ + 1, hstored, _, h => by
    refine ⟨t, [], rfl, ?_⟩
    rw [findLeafFrom, hstored.root] at h
    cases h
    exact hstored
  | n + 1, t, _, _, hi, rounds + 1, hstored, hord, h => by
    obtain ⟨id, cs, rfl⟩ := exists_node t
    obtain ⟨c, cs, rfl⟩ := List.exists_cons_of_ne_nil (OrderedIn.ne_nil hord)
    have hwithin : ∀ {m : ℕ} {u : PageTree K V m} {hi' : WithTop K}, Ordered u key hi' →
        Within key hi' key := by
      intro m u hi' hu
      obtain ⟨e, he⟩ := List.exists_mem_of_ne_nil _ hu.spread.1
      have hbounds := hu.spread.2.2 e he
      exact ⟨le_rfl, (WithTop.coe_le_coe.mpr (WithBot.coe_le_coe.mp hbounds.1)).trans_lt hbounds.2⟩
    have hc : Ordered c.2 key (stop cs hi) := (orderedIn_focus (A := []).mp hord).2.1
    rw [findLeafFrom_node (A := []) hstored.root hord (hwithin hord) (hwithin hc)] at h
    obtain ⟨e, ls, hls, hpage⟩ := leaf_of_findLeafFrom_lower hstored.2.1 hc h
    refine ⟨e, ls ++ cs.flatMap (fun c => c.2.leaves), ?_, hpage⟩
    rw [leaves_node, List.flatMap_cons, hls, List.cons_append]

/-- The search for the leftmost leaf succeeds. -/
theorem exists_findLeafFrom_leftMost {key : K} : {n : ℕ} → {t : PageTree K V n} →
    {parent next : PageId} → {rounds : ℕ} → Stored cfg s.pages t parent next → Branches t →
    n < rounds → ∃ leaf, findLeafFrom s key true rounds t.id = some leaf
  | _, _, _, _, 0, _, _, h => absurd h (Nat.not_lt_zero _)
  | 0, _, _, _, _ + 1, hstored, _, _ => by
    rw [findLeafFrom, hstored.root]
    exact ⟨_, rfl⟩
  | n + 1, t, _, _, rounds + 1, hstored, hb, h => by
    obtain ⟨id, cs, rfl⟩ := exists_node t
    obtain ⟨c, cs, rfl⟩ := List.exists_cons_of_ne_nil hb.1
    rw [findLeafFrom, hstored.root]
    exact exists_findLeafFrom_leftMost hstored.2.1 (hb.2 c List.mem_cons_self)
      (Nat.lt_of_succ_lt_succ h)

/-- **The search for a key** ends in the leaf that has its value. -/
theorem lookup_of_findLeafFrom {key : K} {leaf : LeafPage K V} {v : V} :
    {n : ℕ} → {t : PageTree K V n} → {parent next : PageId} → {lo : WithBot K} →
    {hi : WithTop K} → {rounds : ℕ} → Stored cfg s.pages t parent next → Ordered t lo hi →
    Within lo hi key → findLeafFrom s key false rounds t.id = some leaf →
    (leaf.lookup key = some v ↔ (key, v) ∈ t.entries)
  | _, _, _, _, _, _, 0, _, _, _, h => by cases h
  | 0, t, _, _, _, _, _ + 1, hstored, hord, _, h => by
    rw [findLeafFrom, hstored.root] at h
    cases h
    exact LeafPage.lookup_eq_some hord.2.1
  | n + 1, t, _, _, lo, hi, rounds + 1, hstored, hord, hkey, h => by
    obtain ⟨id, cs, rfl⟩ := exists_node t
    obtain ⟨A, c, B, rfl, hchild⟩ := OrderedIn.exists_child hord hkey
    obtain ⟨next', hc⟩ := hstored.2.of_mem (List.mem_append_right A (List.mem_cons_self (a := c)))
    rw [findLeafFrom_node hstored.root hord hkey hchild] at h
    rw [lookup_of_findLeafFrom hc (orderedIn_focus.mp hord).2.1 hchild h]
    exact (mem_entries_of_within hord.separated hchild).symm

/-! ## Well-formed trees -/

/-- A tree that is not empty, in the store: the keys are in order and separate
the pages, the leaves are chained, and an inner root has two children. -/
structure Holds (cfg : TreeConfig) (s : BPlusTree K V) (t : PageTree K V n) (next : PageId) :
    Prop where
  root : t.id = s.rootPageId
  stored : Stored cfg s.pages t invalidPageId next
  nodup : t.ids.Nodup
  allocated : ∀ id ∈ t.ids, id ∈ s.allocated
  valid : invalidPageId ∉ t.ids
  ordered : Ordered t ⊥ ⊤
  branching : 0 < n → 2 ≤ t.size

/-- The searches have rounds enough. -/
theorem Holds.height_lt (h : Holds cfg s t next) : n < s.allocated.length := by
  obtain ⟨l, hl⟩ := List.exists_mem_of_ne_nil _ h.ordered.branches.leaves_ne_nil
  exact (height_lt_length_ids hl).trans_le (List.subperm_of_subset h.nodup h.allocated).length_le

/-- **`GetValue`** of every key. -/
theorem Holds.getValue_eq_some (h : Holds cfg s t next) (key : K) :
    ∃ found, s.getValue key = some found ∧ ∀ v, found = some v ↔ (key, v) ∈ t.entries := by
  have hkey : Within ⊥ ⊤ key := ⟨bot_le, WithTop.coe_lt_top key⟩
  obtain ⟨leaf, hleaf⟩ := exists_findLeafFrom h.stored h.ordered hkey h.height_lt
  have hempty : s.isEmpty = false := by
    rw [isEmpty, ← h.root]
    exact decide_eq_false (fun hid => h.valid (hid ▸ t.id_mem_ids))
  refine ⟨leaf.lookup key, ?_, fun v => lookup_of_findLeafFrom h.stored h.ordered hkey hleaf⟩
  rw [getValue, hempty, if_neg Bool.false_ne_true, findLeafPage, ← h.root, hleaf]
  rfl

/-- **`End`** is the last entry of the first leaf below the last child of the
root. -/
theorem Holds.endOf_eq (h : Holds cfg s t next) : ∃ A e ls, t.leaves = A ++ e :: ls ∧
    t.lastLeaves = e :: ls ∧ s.endOf = some ⟨e.id, (e.entries.length : ℤ) - 1⟩ := by
  have hkey : ∀ key : K, Within ⊥ ⊤ key := fun key => ⟨bot_le, WithTop.coe_lt_top key⟩
  obtain ⟨rounds, hrounds⟩ := Nat.exists_eq_add_of_lt h.height_lt
  have hfind : ∀ key, s.findLeafPage key false =
      findLeafFrom s key false (n + rounds + 1) t.id := fun key => by
    rw [findLeafPage, hrounds, h.root]
  have hchain := h.stored.chained h.ordered.branches
  have hpages := h.stored.root
  have hord := h.ordered
  obtain ⟨key, A, e, ls, leaf, hlast, hleaves, hlastLeaves, hsearch, hpage⟩ :
      ∃ key A e ls leaf, lastKey (rootPage cfg t invalidPageId next) = some key ∧
        t.leaves = A ++ e :: ls ∧ t.lastLeaves = e :: ls ∧
        findLeafFrom s key false (n + rounds + 1) t.id = some leaf ∧
        s.pages e.id = some (.leaf leaf) := by
    cases n with
    | zero =>
      obtain ⟨es, f, hes⟩ : ∃ es f, t.entries = es ++ [f] :=
        ⟨_, _, (List.dropLast_append_getLast hord.1).symm⟩
      refine ⟨f.1, [], t, [], _, ?_, rfl, rfl, ?_, hpages⟩
      · show (t.entries[t.entries.length - 1]?).map Prod.fst = _
        rw [hes, List.length_append, List.length_singleton, Nat.add_sub_cancel,
          List.getElem?_concat_length]
        rfl
      · rw [findLeafFrom, hpages]
        rfl
    | succ n =>
      obtain ⟨id, cs, rfl⟩ := exists_node t
      have hcs : cs ≠ [] := OrderedIn.ne_nil hord
      obtain ⟨A, c, rfl⟩ : ∃ A c, cs = A ++ [c] :=
        ⟨_, _, (List.dropLast_append_getLast hcs).symm⟩
      have hA : A ≠ [] := by
        rintro rfl
        exact absurd (h.branching (Nat.succ_pos n)) (Nat.not_succ_le_self 1)
      have hstart : start A c.1 (⊥ : WithBot K) = c.1 := by
        obtain ⟨a, A', rfl⟩ := List.exists_cons_of_ne_nil hA
        rfl
      have hc : Ordered c.2 c.1 ⊤ := hstart ▸ (orderedIn_focus.mp hord).2.1
      have hchild : Within (start A c.1 ⊥) (stop ([] : List (K × PageTree K V n)) ⊤) c.1 :=
        ⟨hstart.le, WithTop.coe_lt_top c.1⟩
      have hstep : findLeafFrom s c.1 false (n + 1 + rounds + 1) id =
          findLeafFrom s c.1 false (n + 1 + rounds) c.2.id :=
        findLeafFrom_node hpages hord (hkey c.1) hchild
      obtain ⟨next', hstored⟩ := h.stored.2.of_mem (List.mem_append_right A List.mem_cons_self)
      obtain ⟨leaf, hleaf⟩ : ∃ leaf, findLeafFrom s c.1 false (n + 1 + rounds) c.2.id = some leaf :=
        exists_findLeafFrom hstored hc ⟨le_rfl, WithTop.coe_lt_top c.1⟩ (by omega)
      obtain ⟨e, ls, hls, hpage⟩ := leaf_of_findLeafFrom_lower hstored hc hleaf
      refine ⟨c.1, A.flatMap (fun c => c.2.leaves), e, ls, leaf, ?_, ?_, ?_, ?_, hpage⟩
      · show (((A ++ [c]).map (fun c => (c.1, c.2.id)))[((A ++ [c]).map _).length - 1]?).map _ = _
        rw [List.map_append, List.length_append, List.map_singleton, List.length_singleton,
          Nat.add_sub_cancel, List.getElem?_concat_length]
        rfl
      · rw [leaves_node, List.flatMap_append, List.flatMap_singleton, hls]
      · show ((A ++ [c]).getLast?.map (fun c => c.2.leaves)).getD [] = _
        rw [List.getLast?_concat]
        exact hls
      · exact hstep.trans hleaf
  refine ⟨A, e, ls, hleaves, hlastLeaves, ?_⟩
  obtain ⟨p, hp, hid, harray⟩ := hchain.of_mem
    (hleaves ▸ List.mem_append_right A List.mem_cons_self)
  rw [hpage] at hp
  cases hp
  rw [endOf, ← h.root, hpages, Option.bind_eq_bind, Option.bind_some, hlast, Option.bind_eq_bind,
    Option.bind_some, hfind, hsearch, Option.bind_eq_bind, Option.bind_some, LeafPage.size, hid,
    harray]
  rfl

/-- **`Begin`** is the first entry of the first leaf. -/
theorem Holds.begin_eq [Inhabited K] (h : Holds cfg s t next) : s.begin = some ⟨t.first, 0⟩ := by
  obtain ⟨leaf, hleaf⟩ : ∃ leaf, findLeafFrom s default true s.allocated.length t.id = some leaf :=
    exists_findLeafFrom_leftMost h.stored h.ordered.branches h.height_lt
  rw [begin, findLeafPage, ← h.root, hleaf, Option.map_some,
    pageId_of_findLeafFrom_leftMost h.stored hleaf]

/-- **A scan of a well-formed tree** stops, and it has then visited the
entries before the end. -/
theorem Holds.exists_scan [Inhabited K] (h : Holds cfg s t next) :
    ∃ visited, visited ++ t.atEnd = t.entries ∧ ∃ rounds, s.scan rounds = some visited := by
  obtain ⟨A, e, ls, hleaves, hlast, hend⟩ := h.endOf_eq
  have hmem : ∀ l ∈ t.leaves, l.id ≠ invalidPageId := fun l hl hid =>
    h.valid (hid ▸ id_mem_ids_of_mem_leaves hl)
  have hentries := h.ordered.leaf_ne_nil
  have hchain := h.stored.chained h.ordered.branches
  have hnodup := h.nodup.sublist t.leaves_sublist_ids
  have hhead : headId t.leaves next = t.first := headId_leaves h.ordered.branches
  rw [hleaves] at hmem hentries hchain hnodup hhead
  obtain ⟨rounds, hscan⟩ := exists_scanFrom hend hchain hnodup hmem hentries
  refine ⟨A.flatMap Leaf.entries ++ e.entries.dropLast, ?_, rounds, ?_⟩
  · rw [entries_eq, hleaves, List.flatMap_append, List.flatMap_cons, atEnd, hlast,
      List.append_assoc]
    show _ ++ (_ ++ (e.entries.drop (e.entries.length - 1) ++ _)) = _
    rw [← List.append_assoc e.entries.dropLast, List.dropLast_eq_take, List.take_append_drop]
  · rw [scan, h.begin_eq, Option.bind_some, ← hhead]
    exact hscan

/-- What a scan has visited when it stops. -/
theorem Holds.scan_eq [Inhabited K] (h : Holds cfg s t next) {rounds : ℕ}
    {visited : List (K × V)} (hscan : s.scan rounds = some visited) :
    visited ++ t.atEnd = t.entries := by
  obtain ⟨visited', hsplit, rounds', hscan'⟩ := h.exists_scan
  rw [scan, h.begin_eq, Option.bind_some] at hscan hscan'
  rw [scanFrom_unique hscan hscan', hsplit]

/-- What a tree may hold: nothing, or a tree of pages. -/
inductive Contents (K V : Type)
  | empty
  | tree {n : ℕ} (t : PageTree K V n)

/-- All entries. -/
def Contents.entries : Contents K V → List (K × V)
  | .empty => []
  | .tree t => t.entries

/-- The entries from the end on. -/
def Contents.atEnd : Contents K V → List (K × V)
  | .empty => []
  | .tree t => t.atEnd

/-- A well-formed tree with the given contents. -/
def WellFormed (cfg : TreeConfig) (s : BPlusTree K V) : Contents K V → Prop
  | .empty => s.rootPageId = invalidPageId ∧ s.pages invalidPageId = none
  | .tree t => ∃ next, Holds cfg s t next

/-- The keys of a well-formed tree are in order. -/
theorem WellFormed.pairwise {contents : Contents K V} (h : s.WellFormed cfg contents) :
    contents.entries.Pairwise (fun e f => e.1 < f.1) := by
  cases contents with
  | empty => exact List.Pairwise.nil
  | tree t =>
    obtain ⟨next, ht⟩ := h
    exact ht.ordered.spread.2.1

/-- `GetValue` of every key of a well-formed tree. -/
theorem WellFormed.getValue_eq_some {contents : Contents K V} (h : s.WellFormed cfg contents)
    (key : K) : ∃ found, s.getValue key = some found ∧
      ∀ v, found = some v ↔ (key, v) ∈ contents.entries := by
  cases contents with
  | empty =>
    refine ⟨none, ?_, fun v => iff_of_false nofun nofun⟩
    rw [getValue, isEmpty, if_pos (decide_eq_true h.1)]
  | tree t =>
    obtain ⟨next, ht⟩ := h
    exact ht.getValue_eq_some key

/-- **What a scan has visited** when it stops. An empty tree has no `End`: the
scan reads a page that is none, and does not stop. -/
theorem WellFormed.scan_eq [Inhabited K] {contents : Contents K V} (h : s.WellFormed cfg contents)
    {rounds : ℕ} {visited : List (K × V)} (hscan : s.scan rounds = some visited) :
    contents.entries ≠ [] ∧ visited ++ contents.atEnd = contents.entries := by
  cases contents with
  | empty =>
    have hbegin : s.begin = none := by
      rw [begin, findLeafPage, h.1]
      cases s.allocated.length with
      | zero => rfl
      | succ k => rw [findLeafFrom, h.2]; rfl
    rw [scan, hbegin] at hscan
    cases hscan
  | tree t =>
    obtain ⟨next, ht⟩ := h
    exact ⟨ht.ordered.spread.1, ht.scan_eq hscan⟩

/-- The scan of a tree that is not empty stops. -/
theorem WellFormed.exists_scan [Inhabited K] {contents : Contents K V}
    (h : s.WellFormed cfg contents) (hne : contents.entries ≠ []) :
    ∃ rounds visited, s.scan rounds = some visited := by
  cases contents with
  | empty => exact absurd rfl hne
  | tree t =>
    obtain ⟨next, ht⟩ := h
    obtain ⟨visited, -, rounds, hscan⟩ := ht.exists_scan
    exact ⟨rounds, visited, hscan⟩

end BPlusTree

end MiniSql
