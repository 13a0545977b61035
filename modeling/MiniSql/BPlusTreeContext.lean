import MiniSql.BPlusTreeFind
import MiniSql.RangeScan
import MiniSql.TreeBalance

/-!
# A page and its tree

What is said of a subtree in the store, for the whole tree: the subtree may be
replaced by another one with the same root and the same first leaf, if the pages
around it stay as they are (`Stored.refill`), and a search for a key within the
bounds of the subtree comes through its root (`findLeafFrom_fill`).

`ofTree` lays a tree out in pages, so every tree whose nodes are distinct is
stored.
-/

namespace MiniSql

variable {K V : Type}

namespace BPlusTree

open KeyTree

variable {m : ℕ} {cfg : TreeConfig} {s s' : BPlusTree K V}
  {pages pages' : PageId → Option (BPlusTreePage K V)} {t t' : PageTree K V m}
  {parent next : PageId}

/-! ## Around a subtree -/

/-- The parent of the subtree in a hole. -/
def holeParent : {n : ℕ} → Context PageId K V m n → PageId → PageId
  | _, .hole, parent => parent
  | _, .node i _ _ C _, _ => holeParent C i

/-- The page that comes after the subtree in a hole. -/
def holeNext : {n : ℕ} → Context PageId K V m n → PageId → PageId
  | _, .hole, next => next
  | _, .node _ _ _ C B, next => holeNext C (firstOf B next)

/-- The subtree in the hole is stored. -/
theorem Stored.hole : {n : ℕ} → {C : Context PageId K V m n} → {parent next : PageId} →
    Stored cfg pages (C.fill t) parent next →
    Stored cfg pages t (holeParent C parent) (holeNext C next)
  | _, .hole, _, _, h => h
  | _, .node _ _ _ _ _, _, _, h => (storedIn_append.mp (stored_node.mp h).2).2.1.hole

/-- **Another subtree in the hole.** -/
theorem Stored.refill (hid : t'.id = t.id) (hfirst : t'.first = t.first) : {n : ℕ} →
    {C : Context PageId K V m n} → {parent next : PageId} →
    Stored cfg pages (C.fill t) parent next → (∀ p ∈ C.ids, pages' p = pages p) →
    Stored cfg pages' t' (holeParent C parent) (holeNext C next) →
    Stored cfg pages' (C.fill t') parent next
  | _, .hole, _, _, _, _, h => h
  | _, .node i A k C B, parent, next, hfill, hsame, h => by
    obtain ⟨hpage, hunder⟩ := stored_node.mp hfill
    obtain ⟨hA, hc, hB⟩ := storedIn_append.mp hunder
    have hA' : ∀ p ∈ idsIn A, pages' p = pages p := fun p hp =>
      hsame p (List.mem_cons_of_mem i (List.mem_append_left _ hp))
    have hC' : ∀ p ∈ C.ids, pages' p = pages p := fun p hp => hsame p
      (List.mem_cons_of_mem i (List.mem_append_right _ (List.mem_append_left _ hp)))
    have hB' : ∀ p ∈ idsIn B, pages' p = pages p := fun p hp => hsame p
      (List.mem_cons_of_mem i (List.mem_append_right _ (List.mem_append_right _ hp)))
    have hroot : rootPage cfg (KeyTree.node i (A ++ (k, C.fill t') :: B)) parent next =
        rootPage cfg (KeyTree.node i (A ++ (k, C.fill t) :: B)) parent next := by
      have harray : (A ++ (k, C.fill t') :: B).map (fun c => (c.1, c.2.id)) =
          (A ++ (k, C.fill t) :: B).map (fun c => (c.1, c.2.id)) := by
        simp only [List.map_append, List.map_cons, Context.id_fill hid C]
      exact congrArg (fun array => BPlusTreePage.internal
        (⟨i, parent, cfg.internalMaxSize, array⟩ : InternalPage K)) harray
    refine stored_node.mpr ⟨?_, storedIn_append.mpr ⟨?_, ?_, ?_⟩⟩
    · rw [hsame i List.mem_cons_self, hpage, hroot]
    · have hstored := StoredUnder.congr hA hA'
      have hfirst' : firstOf ((k, C.fill t') :: B) next = firstOf ((k, C.fill t) :: B) next :=
        Context.first_fill hfirst C
      rw [hfirst']
      exact hstored
    · exact Stored.refill hid hfirst hc hC' h
    · exact StoredUnder.congr hB hB'

/-! ## Other keys in a page -/

section Keys

variable {n : ℕ} {i : PageId} {cs ds : List (K × PageTree K V n)}

/-- The children of a page are stored whatever the keys before them are. -/
theorem StoredIn.of_snd {S : PageTree K V n → PageId → Prop} (hsnd : ds.map Prod.snd =
    cs.map Prod.snd) (h : StoredIn S cs next) : StoredIn S ds next := by
  induction cs generalizing ds with
  | nil =>
    rw [List.map_eq_nil_iff.mp hsnd]
    trivial
  | cons c cs ih =>
    obtain ⟨d, ds, rfl⟩ : ∃ d es, ds = d :: es :=
      List.exists_cons_of_ne_nil (fun hc => by rw [hc] at hsnd; cases hsnd)
    obtain ⟨hd, hds⟩ := List.cons.inj hsnd
    refine ⟨?_, ih hds h.2⟩
    have hfirst : firstOf ds next = firstOf cs next := by
      cases cs with
      | nil => rw [List.map_eq_nil_iff.mp hds]
      | cons c' cs =>
        cases ds with
        | nil => cases hds
        | cons d' ds => exact congrArg KeyTree.first (List.cons.inj hds).1
    rw [hd, hfirst]
    exact h.1

theorem idsIn_of_snd (hsnd : ds.map Prod.snd = cs.map Prod.snd) : idsIn ds = idsIn cs := by
  rw [idsIn, idsIn, ← List.flatMap_map Prod.snd KeyTree.ids, hsnd, List.flatMap_map]

/-- **A page is written with other keys** before the same children. -/
theorem Stored.rekey {m : ℕ} {C : Context PageId K V (n + 1) m}
    (h : Stored cfg s.pages (C.fill (node i cs)) parent next)
    (hnodup : (C.fill (node i cs)).ids.Nodup) (hsnd : ds.map Prod.snd = cs.map Prod.snd) :
    Stored cfg (s.write (rootPage cfg (node i ds) (holeParent C parent) (holeNext C next))).pages
      (C.fill (node i ds)) parent next := by
  obtain ⟨-, hnode, hdisj⟩ := C.nodup_fill.mp hnodup
  have hi : i ∉ idsIn cs := (List.nodup_cons.mp hnode).1
  have hfirst : (node i ds).first = (node i cs).first := by
    cases cs with
    | nil => rw [List.map_eq_nil_iff.mp hsnd]
    | cons c cs =>
      cases ds with
      | nil => cases hsnd
      | cons d ds =>
        show d.2.first = c.2.first
        rw [(List.cons.inj hsnd).1]
  have hid : (node i ds).id = (node i cs).id := rfl
  refine Stored.refill hid hfirst h (fun p hp => ?_) (stored_node.mpr ⟨?_, ?_⟩)
  · exact Function.update_of_ne (fun e : p = i => hdisj p hp (e ▸ List.mem_cons_self)) ..
  · exact Function.update_self ..
  · refine StoredUnder.congr (StoredIn.of_snd hsnd (stored_node.mp h.hole).2) (fun p hp => ?_)
    rw [idsIn_of_snd hsnd] at hp
    exact Function.update_of_ne (fun e : p = i => hi (e ▸ hp)) ..

end Keys

/-! ## The children of a page -/

section Children

variable {n : ℕ} {id : PageId} {A B : List (K × PageTree K V n)}

/-- Children with one id are one child. -/
theorem eq_of_id {cs : List (K × PageTree K V n)} (h : (idsIn cs).Nodup)
    {c d : K × PageTree K V n} (hc : c ∈ cs) (hd : d ∈ cs) (hid : c.2.id = d.2.id) : c = d := by
  have hmap : (cs.map (fun c => c.2.id)).Nodup := by
    refine h.sublist ?_
    clear h hc hd
    induction cs with
    | nil => exact List.Sublist.refl _
    | cons c cs ih =>
      rw [idsIn_cons, List.map_cons]
      exact (List.singleton_sublist.mpr c.2.id_mem_ids).append ih
  exact List.inj_on_of_nodup_map hmap hc hd hid

/-- The first child is not among the others. -/
theorem id_ne_of_mem {a c : K × PageTree K V n} {cs : List (K × PageTree K V n)}
    (h : (idsIn (a :: cs)).Nodup) (hc : c ∈ cs) : c.2.id ≠ a.2.id := by
  rw [idsIn_cons, List.nodup_append] at h
  exact (h.2.2 _ a.2.id_mem_ids _ (List.mem_flatMap.mpr ⟨c, hc, c.2.id_mem_ids⟩)).symm

/-- `FetchPage`, of an inner page of the tree. -/
theorem Stored.fetchInternal {cs : List (K × PageTree K V n)}
    (h : Stored cfg s.pages (node id cs) parent next) : s.fetchInternal id =
      some ⟨id, parent, cfg.internalMaxSize, cs.map (fun c => (c.1, c.2.id))⟩ := by
  have hroot : s.pages id = some (rootPage cfg (node id cs) parent next) := h.1
  rw [BPlusTree.fetchInternal, hroot]
  rfl

/-- `KeyAt` and `Remove`, of a child. -/
theorem keyAt_remove_child {c : K × PageTree K V n} {p : InternalPage K}
    (harray : p.array = (A ++ c :: B).map (fun c => (c.1, c.2.id))) :
    p.keyAt A.length = some c.1 ∧
      p.remove A.length = some { p with array := (A ++ B).map (fun c => (c.1, c.2.id)) } := by
  have hsplit : p.array = A.map (fun c => (c.1, c.2.id)) ++
      (c.1, c.2.id) :: B.map (fun c => (c.1, c.2.id)) := by
    rw [harray, List.map_append, List.map_cons]
  have hlength : (A.map (fun c => (c.1, c.2.id))).length = A.length := List.length_map _
  refine ⟨?_, ?_⟩
  · rw [InternalPage.keyAt, hsplit, ← hlength, List.getElem?_append_right le_rfl, Nat.sub_self]
    rfl
  · have hlt : A.length < p.size := by
      rw [InternalPage.size, harray, List.length_map, List.length_append, List.length_cons]
      exact Nat.lt_add_of_pos_right (Nat.succ_pos _)
    rw [InternalPage.remove, if_pos hlt, hsplit, ← hlength,
      List.eraseIdx_append_of_length_le le_rfl,
      Nat.sub_self, List.eraseIdx_cons_zero, List.map_append]

/-- `ValueAt`, of a child. -/
theorem valueAt_child {c : K × PageTree K V n} {p : InternalPage K}
    (harray : p.array = (A ++ c :: B).map (fun c => (c.1, c.2.id))) :
    p.valueAt A.length = some c.2.id := by
  have hget : (A ++ c :: B)[A.length]? = some c := by
    rw [List.getElem?_append_right le_rfl, Nat.sub_self]
    rfl
  rw [InternalPage.valueAt, harray, List.getElem?_map, hget]
  rfl

/-- `SetKeyAt`, of a child. -/
theorem setKeyAt_child {c : K × PageTree K V n} {p : InternalPage K}
    (harray : p.array = (A ++ c :: B).map (fun c => (c.1, c.2.id))) (key : K) :
    p.setKeyAt A.length key =
      some { p with array := (A ++ (key, c.2) :: B).map (fun c => (c.1, c.2.id)) } := by
  have hlength : (A.map (fun c => (c.1, c.2.id))).length = A.length := List.length_map _
  have hsplit : p.array = A.map (fun c => (c.1, c.2.id)) ++
      (c.1, c.2.id) :: B.map (fun c => (c.1, c.2.id)) := by
    rw [harray, List.map_append, List.map_cons]
  have hget : p.array[A.length]? = some (c.1, c.2.id) := by
    rw [hsplit, ← hlength, List.getElem?_append_right le_rfl, Nat.sub_self]
    rfl
  rw [InternalPage.setKeyAt, hget, Option.map_some, hsplit, ← hlength,
    List.set_append_right _ _ le_rfl, Nat.sub_self, List.set_cons_zero, List.map_append,
    List.map_cons]

end Children

/-! ## Through a page -/

section Search

variable [LinearOrder K] {key : K}

/-- **The search comes through a page** if the key is within its bounds, whatever
is below it. -/
theorem findLeafFrom_fill (hid : t'.id = t.id) (rounds : ℕ) : {n : ℕ} →
    {C : Context PageId K V m n} → {lo : WithBot K} → {hi : WithTop K} → {parent next : PageId} →
    Stored cfg s.pages (C.fill t') parent next → Separated (C.fill t) lo hi →
    Within (C.lower lo) (C.upper hi) key →
    findLeafFrom s key false (rounds + n) (C.fill t').id =
      findLeafFrom s key false (rounds + m) t'.id
  | _, .hole, _, _, _, _, _, _, _ => rfl
  | n + 1, .node i A k C B, lo, hi, _, _, hstored, hsep, hkey => by
    obtain ⟨hpage, hunder⟩ := stored_node.mp hstored
    have hin : SeparatedIn Separated (A ++ (k, C.fill t) :: B) lo hi := hsep
    have hchild : Within (start A k lo) (stop B hi) key := hin.focus.2.1.within_of_hole hkey
    have hkeys : (A ++ (k, C.fill t') :: B).tail.map Prod.fst =
        (A ++ (k, C.fill t) :: B).tail.map Prod.fst := by
      cases A with
      | nil => rfl
      | cons a A => simp only [List.cons_append, List.tail_cons, List.map_append, List.map_cons]
    have hsorted : (A ++ (k, C.fill t') :: B).tail.Pairwise (fun c d => c.1 < d.1) := by
      refine (List.pairwise_map (R := fun a b => a < b)).mp ?_
      rw [hkeys]
      exact List.pairwise_map.mpr hin.sorted
    refine (findLeafFrom_step hpage rfl hsorted (hsep.within_of_hole hkey) hchild).trans ?_
    exact findLeafFrom_fill hid rounds (storedIn_append.mp hunder).2.1 hin.focus.2.1 hkey

/-- **What a search finds below a page**: the leaf at its end is one of the leaves,
and what `Lookup` finds in it is one of the entries. -/
theorem mem_entries_of_found {n : ℕ} {t : PageTree K V n} {leaf : LeafPage K V} {v : V}
    (h : Stored cfg s.pages t parent next) {rounds : ℕ}
    (hfind : findLeafFrom s key false rounds t.id = some leaf) (hv : leaf.lookup key = some v) :
    (key, v) ∈ t.entries := by
  have hgood : False → Ordered t ⊥ ⊤ ∧ Within ⊥ ⊤ key := nofun
  obtain ⟨l, hroutes, hpage⟩ := routes_of_findLeafFrom h hgood hfind
  obtain ⟨p, hp, harray⟩ := h.laid.of_mem_leaves hroutes.mem_leaves
  rw [hpage] at hp
  cases hp
  rw [entries_eq]
  exact List.mem_flatMap.mpr ⟨l, hroutes.mem_leaves, harray ▸ leaf.mem_of_lookup hv⟩

/-- The step of the search at an inner page, whatever its keys are. -/
theorem exists_child_of_found {n : ℕ} {i : PageId} {cs : List (K × PageTree K V n)}
    {leaf : LeafPage K V} (h : Stored cfg s.pages (node i cs) parent next) {rounds : ℕ}
    (hfind : findLeafFrom s key false rounds i = some leaf) :
    ∃ rounds', ∃ c ∈ cs, (∀ p : InternalPage K, p.array = cs.map (fun c => (c.1, c.2.id)) →
      p.lookup key = some c.2.id) ∧ findLeafFrom s key false rounds' c.2.id = some leaf := by
  cases rounds with
  | zero => cases hfind
  | succ rounds =>
    rw [findLeafFrom, (stored_node.mp h).1] at hfind
    obtain ⟨child, hlookup, hrest⟩ := Option.bind_eq_some_iff.mp hfind
    obtain ⟨e, he, rfl⟩ := InternalPage.exists_of_lookup hlookup
    obtain ⟨c, hc, rfl⟩ := List.mem_map.mp he
    refine ⟨rounds, c, hc, fun p hp => ?_, hrest⟩
    rw [← hlookup]
    unfold InternalPage.lookup InternalPage.valueAt InternalPage.size
    rw [hp]
    rfl

/-- **The child of an entry** is the one that a search for it goes to, if it finds the
entry, whatever the keys of the page are. -/
theorem lookup_of_found {n : ℕ} {i : PageId} {cs : List (K × PageTree K V n)} {leaf : LeafPage K V}
    (h : Stored cfg s.pages (node i cs) parent next)
    (hsorted : (node i cs).entries.Pairwise (fun e f => e.1 < f.1)) {c : K × PageTree K V n}
    (hc : c ∈ cs) {e : K × V} (he : e ∈ c.2.entries) {rounds : ℕ}
    (hfind : findLeafFrom s e.1 false rounds i = some leaf) (hv : leaf.lookup e.1 = some e.2) :
    (∀ p : InternalPage K, p.array = cs.map (fun c => (c.1, c.2.id)) →
      p.lookup e.1 = some c.2.id) ∧
      ∃ rounds', findLeafFrom s e.1 false rounds' c.2.id = some leaf := by
  obtain ⟨rounds', d, hd, hlookup, hrest⟩ := exists_child_of_found h hfind
  obtain ⟨next', hstored⟩ := (stored_node.mp h).2.of_mem hd
  have hed : e ∈ d.2.entries := mem_entries_of_found hstored hrest hv
  obtain rfl : c = d := eq_of_entry (E := fun c => c.2.entries) hsorted hc hd he hed
  exact ⟨hlookup, rounds', hrest⟩

/-- **Into a child that is not the first one** a search goes only if the key is not
below the key of the child. -/
theorem key_le_of_lookup {n : ℕ} {A B : List (K × PageTree K V n)} {c : K × PageTree K V n}
    {p : InternalPage K} (harray : p.array = (A ++ c :: B).map (fun c => (c.1, c.2.id)))
    (hnodup : (idsIn (A ++ c :: B)).Nodup) (hA : A ≠ [])
    (hlookup : p.lookup key = some c.2.id) : c.1 ≤ key := by
  obtain ⟨a, A, rfl⟩ := List.exists_cons_of_ne_nil hA
  have hc : c ∈ A ++ c :: B := List.mem_append_right A List.mem_cons_self
  obtain ⟨d, ds, hds⟩ : ∃ d ds, A ++ c :: B = d :: ds := List.exists_cons_of_ne_nil
    (List.append_ne_nil_of_right_ne_nil A (List.cons_ne_nil c B))
  rw [List.cons_append, hds] at harray hnodup
  rw [hds] at hc
  rcases InternalPage.lookup_cases harray key with ⟨-, hfirst⟩ | ⟨-, e, he, hle, hchild, -⟩
  · rw [hlookup] at hfirst
    exact absurd (Option.some.inj hfirst) (id_ne_of_mem hnodup hc)
  · have hmem : e ∈ (d :: ds).map (fun c => (c.1, c.2.id)) := he
    obtain ⟨e, hein, rfl⟩ := List.mem_map.mp hmem
    rw [hlookup] at hchild
    rw [eq_of_id hnodup (List.mem_cons_of_mem a hc) (List.mem_cons_of_mem a hein)
      (Option.some.inj hchild)]
    exact hle

/-- **Into the first child** a search goes only if the key is below the second
key. -/
theorem lt_of_lookup {n : ℕ} {B : List (K × PageTree K V n)} {c d : K × PageTree K V n}
    {p : InternalPage K} (harray : p.array = (c :: d :: B).map (fun c => (c.1, c.2.id)))
    (hnodup : (idsIn (c :: d :: B)).Nodup) (hlookup : p.lookup key = some c.2.id) : key < d.1 := by
  rcases InternalPage.lookup_cases harray key with ⟨hlt, -⟩ | ⟨-, e, he, -, hchild, -⟩
  · exact hlt
  · have hmem : e ∈ (d :: B).map (fun c => (c.1, c.2.id)) := he
    obtain ⟨e, hein, rfl⟩ := List.mem_map.mp hmem
    rw [hlookup] at hchild
    exact absurd (Option.some.inj hchild) (id_ne_of_mem hnodup hein).symm

/-- **Into the last child but one** a search goes only if the key is below the last
key. -/
theorem lt_of_lookup_last {n : ℕ} {A : List (K × PageTree K V n)} {c d : K × PageTree K V n}
    {p : InternalPage K} (harray : p.array = (A ++ [c, d]).map (fun c => (c.1, c.2.id)))
    (hnodup : (idsIn (A ++ [c, d])).Nodup) (hlookup : p.lookup key = some c.2.id) : key < d.1 := by
  cases A with
  | nil => exact lt_of_lookup harray hnodup hlookup
  | cons a A =>
    obtain ⟨b, bs, hbs⟩ : ∃ b bs, A ++ [c, d] = b :: bs := List.exists_cons_of_ne_nil
      (List.append_ne_nil_of_right_ne_nil A (List.cons_ne_nil c [d]))
    have hc : c ∈ A ++ [c, d] := List.mem_append_right A List.mem_cons_self
    have hcd : d.2.id ≠ c.2.id := by
      rw [List.cons_append, idsIn_cons, idsIn_append] at hnodup
      exact id_ne_of_mem (List.nodup_append.mp (List.nodup_append.mp hnodup).2.1).2.1
        (List.mem_singleton_self d)
    have hlast : (b :: bs).map (fun c => (c.1, c.2.id)) =
        (A ++ [c]).map (fun c => (c.1, c.2.id)) ++ [(d.1, d.2.id)] := by
      rw [← hbs, List.map_append, List.map_append, List.append_assoc]
      rfl
    rw [List.cons_append, hbs] at harray hnodup
    rcases InternalPage.lookup_cases harray key with ⟨-, hfirst⟩ | ⟨-, e, -, -, hchild, hat⟩
    · rw [hlookup] at hfirst
      exact absurd (Option.some.inj hfirst) (id_ne_of_mem hnodup (hbs ▸ hc))
    · by_contra hge
      have he : e = (d.1, d.2.id) := by
        refine hat _ ?_ (not_lt.mp hge)
        show ((b :: bs).map (fun c => (c.1, c.2.id))).getLast? = _
        rw [hlast, List.getLast?_append_of_ne_nil _ (List.cons_ne_nil _ [])]
        rfl
      rw [hlookup, he] at hchild
      exact hcd (Option.some.inj hchild).symm

/-- **What `GetValue` finds** of a key within the bounds of a page is found below
the page, whatever is there. -/
theorem exists_found_of_getValue {n : ℕ} {C : Context PageId K V m n} {v : V}
    (hroot : (C.fill t').id = s.rootPageId) (hid : t'.id = t.id)
    (h : Stored cfg s.pages (C.fill t') parent next) (hsep : Separated (C.fill t) ⊥ ⊤)
    (hkey : Within (C.lower ⊥) (C.upper ⊤) key) (hheight : n < s.allocated.length)
    (hv : s.getValue key = some (some v)) :
    ∃ rounds leaf, findLeafFrom s key false rounds t'.id = some leaf ∧
      leaf.lookup key = some v := by
  rw [getValue] at hv
  split at hv
  · cases hv
  · obtain ⟨leaf, hfind, hlookup⟩ := Option.map_eq_some_iff.mp hv
    obtain ⟨rounds, hrounds⟩ := Nat.exists_eq_add_of_le' hheight.le
    refine ⟨rounds + m, leaf, ?_, hlookup⟩
    rw [← findLeafFrom_fill hid rounds h hsep hkey, ← hrounds, hroot]
    exact hfind

/-- The searches of a tree that is documented. -/
theorem Holds.searchable {n : ℕ} {t : PageTree K V n} (h : Holds cfg s t next) :
    Searchable s t where
  root := h.root
  laid := h.stored.laid
  nodup := h.nodup
  allocated := h.allocated
  valid := fun hc => h.valid (hc ▸ h.root ▸ t.id_mem_ids)
  separated := h.ordered.separated

/-- The same entries, the same answers. -/
theorem Holds.getValue_eq {n n' : ℕ} {t : PageTree K V n} {t' : PageTree K V n'} {next' : PageId}
    (h : Holds cfg s t next) (h' : Holds cfg s' t' next') (hentries : t'.entries = t.entries)
    (key : K) : s'.getValue key = s.getValue key := by
  obtain ⟨found, hfound, hmem⟩ := h.getValue_eq_some key
  obtain ⟨found', hfound', hmem'⟩ := h'.getValue_eq_some key
  rw [hfound, hfound']
  refine congrArg some (Option.ext fun v => ?_)
  rw [hmem v, hmem' v, hentries]

/-- **A page with other keys**, if they are right for its children. -/
theorem Holds.rekey {n m : ℕ} {C : Context PageId K V (n + 1) m} {i : PageId}
    {cs ds : List (K × PageTree K V n)} (h : Holds cfg s (C.fill (node i cs)) next)
    (hsnd : ds.map Prod.snd = cs.map Prod.snd)
    (hord : Ordered (node i ds) (C.lower ⊥) (C.upper ⊤)) :
    Holds cfg (s.write (rootPage cfg (node i ds) (holeParent C invalidPageId) (holeNext C next)))
      (C.fill (node i ds)) next := by
  have hids : ∀ p, p ∈ (C.fill (node i ds)).ids ↔ p ∈ (C.fill (node i cs)).ids := fun p => by
    rw [C.mem_ids_fill, C.mem_ids_fill, ids_node, ids_node, idsIn_of_snd hsnd]
  have hsize : (C.fill (node i ds)).size = (C.fill (node i cs)).size := by
    refine C.size_fill ?_
    rw [size_node, size_node, ← List.length_map Prod.snd, hsnd, List.length_map]
  refine ⟨?_, h.stored.rekey h.nodup hsnd, ?_, fun p hp => h.allocated p ((hids p).mp hp),
    fun hp => h.valid ((hids _).mp hp), h.ordered.refill hord, fun hm => ?_⟩
  · have hid : (node i ds).id = (node i cs).id := rfl
    rw [Context.id_fill hid C]
    exact h.root
  · rw [C.nodup_fill, ids_node, idsIn_of_snd hsnd, ← ids_node, ← C.nodup_fill]
    exact h.nodup
  · rw [hsize]
    exact h.branching hm

end Search

/-! ## Every tree has its pages -/

/-- The pages that some trees have, one after the other. -/
def pagesIn {n : ℕ} (P : PageTree K V n → PageId → List (BPlusTreePage K V)) :
    List (K × PageTree K V n) → PageId → List (BPlusTreePage K V)
  | [], _ => []
  | c :: cs, next => P c.2 (firstOf cs next) ++ pagesIn P cs next

/-- The pages of a tree. -/
def pagesOf (cfg : TreeConfig) : {n : ℕ} → PageTree K V n → PageId → PageId →
    List (BPlusTreePage K V)
  | 0, t, parent, next => [rootPage cfg t parent next]
  | _ + 1, t, parent, next => rootPage cfg t parent next ::
      pagesIn (fun c next => pagesOf cfg c t.id next) (Node.children t) next

/-- A store that has the pages of a tree and no others. -/
def ofTree {n : ℕ} (cfg : TreeConfig) (t : PageTree K V n) (next : PageId) : BPlusTree K V where
  rootPageId := t.id
  pages id := (pagesOf cfg t invalidPageId next).find? (fun p => p.pageId = id)
  allocated := t.ids

theorem map_pagesIn {n : ℕ} {P : PageTree K V n → PageId → List (BPlusTreePage K V)}
    (hP : ∀ t next, (P t next).map BPlusTreePage.pageId = t.ids)
    (cs : List (K × PageTree K V n)) (next : PageId) :
    (pagesIn P cs next).map BPlusTreePage.pageId = idsIn cs := by
  induction cs with
  | nil => rfl
  | cons c cs ih => rw [pagesIn, List.map_append, hP, ih, idsIn_cons]

/-- A page of its own for every node. -/
theorem map_pagesOf : {n : ℕ} → (t : PageTree K V n) → (parent next : PageId) →
    (pagesOf cfg t parent next).map BPlusTreePage.pageId = t.ids
  | 0, _, _, _ => rfl
  | n + 1, t, parent, next => by
    obtain ⟨i, cs, rfl⟩ := exists_node t
    rw [ids_node, pagesOf, List.map_cons, pageId_rootPage]
    exact congrArg (List.cons i) (map_pagesIn (fun t next => map_pagesOf t i next) cs next)

/-- A store with the pages of a tree, among others, stores the tree. -/
theorem stored_of_pagesOf : {n : ℕ} → {t : PageTree K V n} → {parent next : PageId} →
    (∀ p ∈ pagesOf cfg t parent next, pages p.pageId = some p) → Stored cfg pages t parent next
  | 0, t, _, _, h => by
    have hroot := h _ List.mem_cons_self
    rwa [pageId_rootPage] at hroot
  | n + 1, t, parent, next, h => by
    obtain ⟨i, cs, rfl⟩ := exists_node t
    have hroot := h _ List.mem_cons_self
    rw [pageId_rootPage] at hroot
    refine stored_node.mpr ⟨hroot, ?_⟩
    have hcs : ∀ p ∈ pagesIn (fun c next => pagesOf cfg c i next) cs next,
        pages p.pageId = some p := fun p hp => h p (List.mem_cons_of_mem _ hp)
    clear h hroot
    induction cs with
    | nil => trivial
    | cons c cs ih =>
      exact ⟨stored_of_pagesOf (fun p hp => hcs p (List.mem_append_left _ hp)),
        ih (fun p hp => hcs p (List.mem_append_right _ hp))⟩

/-- **Every tree is stored**, if its nodes are distinct. -/
theorem stored_ofTree {n : ℕ} {t : PageTree K V n} (h : t.ids.Nodup) (next : PageId) :
    Stored cfg (ofTree cfg t next).pages t invalidPageId next := by
  have hids : (pagesOf cfg t invalidPageId next).map BPlusTreePage.pageId = t.ids :=
    map_pagesOf t invalidPageId next
  refine stored_of_pagesOf (fun p hp => ?_)
  rw [← hids] at h
  obtain ⟨A, B, hAB⟩ := List.append_of_mem hp
  show (pagesOf cfg t invalidPageId next).find? _ = _
  rw [hAB] at h ⊢
  have hA : A.find? (fun q => q.pageId = p.pageId) = none := by
    rw [List.find?_eq_none]
    intro q hq hc
    rw [List.map_append, List.map_cons, List.nodup_append] at h
    exact h.2.2 _ (List.mem_map_of_mem hq) _ List.mem_cons_self (of_decide_eq_true hc)
  have hp : (p :: B).find? (fun q => q.pageId = p.pageId) = some p :=
    List.find?_cons_of_pos (decide_eq_true rfl)
  rw [List.find?_append, hA, Option.none_or, hp]

end BPlusTree

end MiniSql
