import MiniSql.BPlusTreeRemoval
import MiniSql.BPlusTreeRuns

/-!
# The B+ tree as a finite map

A tree that starts empty is expected to be a finite map: `Insert` answers
whether the key was missing, and `GetValue` finds what the last successful
`Insert` of the key has stored, if the key has not been removed since
(`BPlusTree.ActsAsMap`).

Not every run is like this. `Remove` of a key that is not there, but in a gap,
moves the key before a leaf past the first entry of the leaf, and
`Redistribute` puts a wrong key into the parent where the two pages are above the
parents of leaves, or where the search for the last key of a first child does not
come through it. `RemovesWell` is the condition on the single `Remove` that
keeps clear of both, and every run whose calls meet it answers as the map does
(`actsAsMap_of_removesWell`).
-/

namespace MiniSql

variable {K V : Type} [LinearOrder K]

namespace BPlusTree

open KeyTree

variable {n : ℕ} {cfg : TreeConfig} {s : BPlusTree K V} {t : PageTree K V n} {next : PageId}
  {f : K → Option V}

/-! ## The map -/

/-- What a finite map does at a call. -/
def mapStep (f : K → Option V) : TreeCall K V → (K → Option V) × TreeAnswer V
  | .insert key value =>
    if (f key).isSome then (f, .inserted false)
    else (Function.update f key (some value), .inserted true)
  | .remove key => (Function.update f key none, .removed)
  | .getValue key => (f, .value (f key))

/-- From the empty tree on, no call fails and the answers are those of a finite map. -/
def ActsAsMap [Inhabited K] (cfg : TreeConfig) (calls : List (TreeCall K V)) : Prop :=
  (Machine.run (step cfg) empty calls).map Prod.snd =
    some (Machine.answers mapStep (fun _ => none) calls)

/-- A `Remove` that does no harm: in the tree before it, the key is in no gap, and every
page that gets short by the removal and does not fit in one page with its sibling is a leaf
or the parent of leaves, with its last key within its bounds if it is a first child. -/
def RemovesWell (cfg : TreeConfig) (s : BPlusTree K V) : TreeCall K V → Prop
  | .remove key => ∀ (n : ℕ) (t : PageTree K V n) (next : PageId), t.id = s.rootPageId →
      Stored cfg s.pages t invalidPageId next → ¬ t.InGap key ∧ BorrowsWell cfg.bounds key t
  | _ => True

/-- The tree holds the entries of the map. -/
def Represents (cfg : TreeConfig) (s : BPlusTree K V) (f : K → Option V) : Prop :=
  (s.rootPageId = invalidPageId ∧ f = fun _ => none) ∨
    ∃ (n : ℕ) (t : PageTree K V n), Holds cfg s t 0 ∧ ∀ key v, f key = some v ↔ (key, v) ∈ t.entries

/-! ## The two invariants together -/

omit [LinearOrder K] in
/-- **The tree in the pages** is the one that has the documented shape. -/
theorem WellShaped.shaped {next' : PageId} (h : WellShaped cfg s next)
    (hroot : t.id = s.rootPageId) (hvalid : invalidPageId ∉ t.ids)
    (hstored : Stored cfg s.pages t invalidPageId next') : Shaped cfg [] s t next := by
  rcases h with ⟨hempty, -⟩ | ⟨m, t', h⟩
  · exact absurd ((hroot.trans hempty) ▸ t.id_mem_ids) hvalid
  · have hid : t'.id = t.id := h.root.trans hroot.symm
    obtain rfl := h.stored.height_eq hstored h.branches hid
    obtain rfl := h.stored.unique hstored hid
    exact h

omit [LinearOrder K] in
/-- The leaves of a tree of the documented shape have entries. -/
theorem Shaped.leaf_ne_nil (hleaf : 2 ≤ cfg.leafMaxSize) (h : Shaped cfg [] s t next)
    {l : Leaf PageId K V} (hl : l ∈ t.leaves) : l.entries ≠ [] := by
  rcases h.sized.leaf hl with hroot | hmin
  · cases n with
    | zero =>
      obtain rfl : l = t := List.mem_singleton.mp hl
      exact List.ne_nil_of_length_pos (h.least.resolve_left List.not_mem_nil)
    | succ n =>
      have hin := id_mem_below_of_mem_leaves (Nat.succ_pos n) hl
      rw [List.mem_singleton.mp hroot] at hin
      exact absurd hin (id_notMem_below h.nodup)
  · have hone : 1 ≤ cfg.bounds.min 0 := Nat.div_le_div_right (c := 2) hleaf
    exact List.ne_nil_of_length_pos (hone.trans hmin)

/-- **A search tree of the documented shape** is in order with its entries. -/
theorem HoldsTree.holds {next' : PageId} (hleaf : 2 ≤ cfg.leafMaxSize) (h : HoldsTree cfg s t next)
    (hshaped : Shaped cfg [] s t next') : Holds cfg s t next where
  root := h.root
  stored := h.stored
  nodup := h.nodup
  allocated := h.allocated
  valid := h.valid
  ordered := h.separated.ordered (fun _ hl => hshaped.leaf_ne_nil hleaf hl)
  branching hn := by
    obtain ⟨n, rfl⟩ := Nat.exists_eq_succ_of_ne_zero hn.ne'
    exact hshaped.least.resolve_left List.not_mem_nil

/-- It has the sizes that `Insert` needs. -/
theorem Shaped.holdsTree (hinternal : 3 ≤ cfg.internalMaxSize) (h : Shaped cfg [] s t next)
    (ho : Ordered t ⊥ ⊤) : HoldsTree cfg s t next where
  root := h.root
  stored := h.stored
  nodup := h.nodup
  allocated := h.allocated
  valid := h.valid
  separated := ho.separated
  sized := by
    have hfilled := h.sized.filled h.nodup
    have hsize := h.sized.root.2
    have hleast := h.least.resolve_left List.not_mem_nil
    cases n with
    | zero => exact ⟨Nat.zero_le _, hsize⟩
    | succ n =>
      refine ⟨⟨hleast, hsize⟩, fun c hc => Sized.mono (fun m => ?_) (fun m => ?_) (hfilled c hc)⟩
      · cases m with
        | zero => exact Nat.zero_le _
        | succ m =>
          show 2 ≤ (cfg.internalMaxSize - 1) / 2 + 1
          omega
      · cases m with
        | zero => exact le_rfl
        | succ m => exact le_rfl

/-! ## One call -/

section Step

variable {key : K} {s' : BPlusTree K V}

/-- `GetValue` finds what the map has. -/
theorem Represents.getValue_eq (h : Represents cfg s f) (key : K) :
    s.getValue key = some (f key) := by
  rcases h with ⟨hempty, rfl⟩ | ⟨n, t, h, hf⟩
  · exact if_pos (decide_eq_true hempty)
  · obtain ⟨found, hfound, hvalue⟩ := h.getValue_eq_some key
    rw [hfound]
    refine congrArg some (Option.ext (fun v => ?_))
    rw [hvalue, hf]

/-- **`Remove`** of a key, where it does no harm. -/
theorem Represents.exists_remove (hleaf : 4 ≤ cfg.leafMaxSize) (hinternal : 3 ≤ cfg.internalMaxSize)
    (hshape : WellShaped cfg s 0) (h : Represents cfg s f)
    (hwell : RemovesWell cfg s (.remove key)) :
    ∃ s', s.remove key = some s' ∧ Represents cfg s' (Function.update f key none) := by
  rcases h with ⟨hempty, rfl⟩ | ⟨n, t, h, hf⟩
  · refine ⟨s, if_pos (decide_eq_true hempty), .inl ⟨hempty, ?_⟩⟩
    exact Function.update_eq_self_iff.mpr rfl
  · have hshaped := hshape.shaped h.root h.valid h.stored
    obtain ⟨hgap, hborrows⟩ := hwell n t 0 h.root h.stored
    by_cases hin : ∃ v, (key, v) ∈ t.entries
    · -- the key is there
      obtain ⟨v, hv⟩ := hin
      obtain ⟨s', hrun, hend⟩ := hshaped.exists_remove_of_mem hleaf hinternal (by decide) h.ordered
        hv hborrows
      refine ⟨s', hrun, hend.imp (fun ⟨hempty, hall⟩ => ⟨hempty, funext (fun k => ?_)⟩)
        (fun ⟨m, t', ht', hentries⟩ => ⟨m, t', ht', fun k v => ?_⟩)⟩
      · by_cases hk : k = key
        · rw [hk, Function.update_self]
        · rw [Function.update_of_ne hk]
          exact Option.eq_none_iff_forall_ne_some.mpr (fun v hv => hk (hall _ ((hf k v).mp hv)))
      · rw [hentries]
        by_cases hk : k = key
        · rw [hk, Function.update_self]
          exact iff_of_false (fun hc => by cases hc) (fun hc => hc.2 rfl)
        · rw [Function.update_of_ne hk, hf]
          exact ⟨fun hv => ⟨hv, hk⟩, And.left⟩
    · -- it is not, and the tree has the same entries afterwards
      obtain ⟨s', t', hrun, ht', hentries⟩ := h.exists_remove_of_not_inGap hleaf hshaped.sized
        (not_exists.mp hin) hgap
      refine ⟨s', hrun, .inr ⟨n, t', ht', fun k v => ?_⟩⟩
      rw [hentries]
      by_cases hk : k = key
      · rw [hk, Function.update_self]
        exact iff_of_false (fun hc => by cases hc) (fun hv => hin ⟨v, hv⟩)
      · rw [Function.update_of_ne hk, hf]

variable [Inhabited K] {value : V}

/-- **A new key** is in the map when the tree holds its entry. -/
theorem Represents.of_inserted {m : ℕ} {t' : PageTree K V m} (hleaf : 2 ≤ cfg.leafMaxSize)
    (hinternal : 3 ≤ cfg.internalMaxSize) (hshape : WellShaped cfg s 0)
    (hrun : s.insert cfg key value = some (s', true)) (ht : HoldsTree cfg s' t' 0)
    (hnew : f key = none)
    (hentries : ∀ k v, (k, v) ∈ t'.entries ↔ (k, v) = (key, value) ∨ f k = some v) :
    Represents cfg s' (Function.update f key (some value)) := by
  have hshape' : WellShaped cfg s' 0 := .inr (hshape.of_insert hleaf hinternal hrun)
  have hshaped := hshape'.shaped ht.root ht.valid ht.stored
  refine .inr ⟨m, t', ht.holds hleaf hshaped, fun k v => ?_⟩
  rw [hentries]
  by_cases hk : k = key
  · rw [hk, Function.update_self, hnew, Option.some_inj]
    refine ⟨fun hv => .inl (hv ▸ rfl), fun hv => ?_⟩
    rcases hv with heq | hc
    · exact (congrArg Prod.snd heq).symm
    · cases hc
  · rw [Function.update_of_ne hk]
    exact ⟨.inr, fun hv => hv.resolve_left (fun heq => hk (congrArg Prod.fst heq))⟩

/-- **`Insert`**, of a key that is there and of one that is not. -/
theorem Represents.exists_insert (hleaf : 2 ≤ cfg.leafMaxSize) (hinternal : 3 ≤ cfg.internalMaxSize)
    (hshape : WellShaped cfg s 0) (h : Represents cfg s f) (key : K) (value : V) :
    ((f key).isSome → s.insert cfg key value = some (s, false)) ∧
      (f key = none → ∃ s', s.insert cfg key value = some (s', true) ∧
        Represents cfg s' (Function.update f key (some value))) := by
  rcases h with ⟨hempty, rfl⟩ | ⟨n, t, h, hf⟩
  · refine ⟨fun hc => Bool.noConfusion hc, fun hnew => ?_⟩
    obtain ⟨s', id, hstart, ht⟩ :=
      exists_startNewTree s cfg key value (Nat.le_of_succ_le hleaf)
    have hrun : s.insert cfg key value = some (s', true) := by
      rw [BPlusTree.insert, BPlusTree.isEmpty, hempty, if_pos (decide_eq_true rfl), hstart]
      rfl
    refine ⟨s', hrun, Represents.of_inserted hleaf hinternal hshape hrun ht hnew (fun k v => ?_)⟩
    exact List.mem_singleton.trans ⟨.inl, fun hv => hv.resolve_right (fun hc => by cases hc)⟩
  · have hshaped := hshape.shaped h.root h.valid h.stored
    have ht := hshaped.holdsTree hinternal h.ordered
    refine ⟨fun hsome => ?_, fun hnew => ?_⟩
    · obtain ⟨v, hv⟩ := Option.isSome_iff_exists.mp hsome
      exact ht.insert_of_mem ((hf key v).mp hv) value
    · have habsent : ∀ v, (key, v) ∉ t.entries := fun v hv => by
        rw [← hf, hnew] at hv
        cases hv
      obtain ⟨s', m, t', hrun, ht', hperm⟩ :=
        ht.exists_insert (Nat.le_of_succ_le hleaf) hinternal habsent value
      refine ⟨s', hrun, Represents.of_inserted hleaf hinternal hshape hrun ht' hnew (fun k v => ?_)⟩
      rw [hperm.mem_iff, List.mem_cons, hf]

/-- **One call** answers as the map does. -/
theorem Represents.exists_step {call : TreeCall K V} (hleaf : 4 ≤ cfg.leafMaxSize)
    (hinternal : 3 ≤ cfg.internalMaxSize) (hshape : WellShaped cfg s 0) (h : Represents cfg s f)
    (hwell : RemovesWell cfg s call) : ∃ s', step cfg s call = some (s', (mapStep f call).2) ∧
      Represents cfg s' (mapStep f call).1 := by
  cases call with
  | insert key value =>
    obtain ⟨hthere, hmissing⟩ :=
      h.exists_insert (Nat.le_of_add_left_le hleaf) hinternal hshape key value
    cases hkey : f key with
    | some v =>
      have hsome : (f key).isSome := hkey ▸ rfl
      refine ⟨s, ?_, ?_⟩
      · rw [step, hthere hsome, mapStep, if_pos hsome]
        rfl
      · rw [mapStep, if_pos hsome]
        exact h
    | none =>
      have hnone : ¬ (f key).isSome := hkey ▸ Bool.false_ne_true
      obtain ⟨s', hrun, hs'⟩ := hmissing hkey
      refine ⟨s', ?_, ?_⟩
      · rw [step, hrun, mapStep, if_neg hnone]
        rfl
      · rw [mapStep, if_neg hnone]
        exact hs'
  | remove key =>
    obtain ⟨s', hrun, hs'⟩ := h.exists_remove hleaf hinternal hshape hwell
    exact ⟨s', by rw [step, hrun]; rfl, hs'⟩
  | getValue key =>
    exact ⟨s, by rw [step, h.getValue_eq]; rfl, h⟩

end Step

/-! ## Runs -/

/-- **A run is that of a finite map** if no `Remove` does harm: no call fails, `Insert` is true
of a key exactly if it is missing, and `GetValue` finds what the last successful `Insert`
has stored, if no `Remove` of the key has come after it. -/
theorem actsAsMap_of_removesWell [Inhabited K] (hleaf : 4 ≤ cfg.leafMaxSize)
    (hinternal : 4 ≤ cfg.internalMaxSize) {calls : List (TreeCall K V)}
    (hwell : Machine.Meets (step cfg) (RemovesWell cfg) empty calls) : ActsAsMap cfg calls := by
  have hinternal : 3 ≤ cfg.internalMaxSize := Nat.le_of_succ_le hinternal
  have hsim : ∀ (s : BPlusTree K V) (f : K → Option V) (call : TreeCall K V),
      WellShaped cfg s 0 ∧ Represents cfg s f → RemovesWell cfg s call →
        ∃ s', step cfg s call = some (s', (mapStep f call).2) ∧
          WellShaped cfg s' 0 ∧ Represents cfg s' (mapStep f call).1 := by
    rintro s f call ⟨hshape, h⟩ hcall
    obtain ⟨s', hstep, hs'⟩ := h.exists_step hleaf hinternal hshape hcall
    exact ⟨s', hstep, hshape.of_step hleaf hinternal hstep, hs'⟩
  obtain ⟨s, hrun, -⟩ := Machine.run_of_simulation hsim
    ⟨.inl ⟨rfl, List.mem_cons_self, rfl⟩, .inl ⟨rfl, rfl⟩⟩ hwell
  rw [ActsAsMap, hrun]
  rfl

/-! ## Two runs -/

/-- Whether a `Remove` is one in the first leaf of a tree of two levels. -/
def removesInFirstLeaf (s : BPlusTree K V) : TreeCall K V → Bool
  | .remove key =>
    match s.fetchInternal s.rootPageId with
    | some p => p.array.any (fun c => (s.fetchLeaf c.2).isSome) &&
        p.array.tail.all (fun c => key < c.1)
    | none => false
  | _ => true

/-- Such a `Remove` does no harm. -/
theorem removesWell_of_removesInFirstLeaf (cfg : TreeConfig) {call : TreeCall K V}
    (h : removesInFirstLeaf s call = true) : RemovesWell cfg s call := by
  cases call with
  | insert key value => trivial
  | getValue key => trivial
  | remove key =>
    intro n t next hroot hstored
    rw [removesInFirstLeaf, ← hroot] at h
    cases n with
    | zero =>
      refine ⟨?_, borrowsWell_of_height_le (Nat.zero_le 1)⟩
      rintro ⟨C, -⟩
      exact absurd C.le_height (by decide)
    | succ n =>
      obtain ⟨i, cs, rfl⟩ := exists_node t
      rw [id_node, hstored.fetchInternal, Bool.and_eq_true] at h
      obtain ⟨hleaf, hkeys⟩ := h
      -- the children are leaves
      obtain ⟨d, hd, hd'⟩ := List.any_eq_true.mp hleaf
      obtain ⟨c, hc, rfl⟩ := List.mem_map.mp hd
      obtain ⟨after, hchild⟩ := hstored.2.of_mem hc
      obtain rfl : n = 0 := by
        cases n with
        | zero => rfl
        | succ n =>
          rw [fetchLeaf, hchild.root] at hd'
          cases hd'
      refine ⟨?_, borrowsWell_of_height_le le_rfl⟩
      rintro ⟨C, j, A, k, l, B, ht, hA, hle, -⟩
      obtain ⟨-, hC⟩ := C.hole_or_inner.resolve_right (fun hinner =>
        hinner.elim (fun D _ => absurd D.le_height (by decide)))
      obtain rfl := eq_of_heq hC
      obtain rfl : cs = A ++ (k, l) :: B := congrArg Node.children ht
      obtain ⟨a, A, rfl⟩ := List.exists_cons_of_ne_nil hA
      have hlt := List.all_eq_true.mp hkeys (k, l.id) (List.mem_map_of_mem
        (f := fun c : K × PageTree K V 0 => (c.1, c.2.id))
        (List.mem_append_right A (List.mem_cons_self (a := (k, l)))))
      exact absurd hle (not_le.mpr (of_decide_eq_true hlt))

/-- Calls that insert five keys, one of them twice, and remove the smallest one. -/
def callsOfFiveKeys : List (TreeCall ℕ ℕ) :=
  [.insert 1 10, .insert 2 20, .insert 3 30, .insert 3 33, .insert 4 40, .insert 5 50,
    .remove 1, .getValue 1, .getValue 3]

/-- Two leaves are put together when the key is removed. -/
theorem actsAsMap_callsOfFiveKeys : ActsAsMap (.above 4 4) callsOfFiveKeys :=
  actsAsMap_of_removesWell (by decide) (by decide)
    (Machine.Meets.imp (fun _ _ h => removesWell_of_removesInFirstLeaf (.above 4 4) h)
      (show Machine.Meets (step (.above 4 4)) (fun s call => removesInFirstLeaf s call = true) empty
        callsOfFiveKeys by decide))

/-- Calls that insert eleven keys and remove `5` twice. -/
def callsOfElevenKeys : List (TreeCall ℕ ℕ) :=
  (List.range' 1 11).map (fun k => .insert k (10 * k)) ++
    [.remove 5, .remove 1, .remove 5, .getValue 6]

/-- **The second time `5` is in a gap**, and `6` is not found any more. -/
theorem not_actsAsMap_callsOfElevenKeys : ¬ ActsAsMap (.above 4 4) callsOfElevenKeys := by
  unfold ActsAsMap
  decide

end BPlusTree

end MiniSql
