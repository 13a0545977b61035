import MiniSql.BPlusTreePoolRemove
import MiniSql.Machine

/-!
# Runs of calls of a tree in its buffer pool

A tree is driven by calls of `Insert`, `Remove`, `GetValue`, `Begin` and `End`.
The events are those of the last call, so a page is taken to be unpinned when a
call begins. What surrounds the tree may be something else at every call: which
ids the allocation hands out, and what the frames show that hold no page of the
tree.

Over a run the pages keep their own ids and the links between them stay right
(`Sound`), and what a call makes of the links and of the page of the index roots
is one of three things (`Becomes`).
-/

namespace MiniSql

open PoolCalls Program Family

/-- The calls of a tree, with those that make an iterator. -/
inductive PooledCall (K V : Type)
  | insert (key : K) (value : V)
  | remove (key : K)
  | getValue (key : K)
  | begin
  | beginAt (key : K)
  | endOf

/-- Their answers. -/
inductive PooledAnswer (V : Type)
  | inserted (success : Bool)
  | removed
  | value (v : Option V)
  | iterator (i : Option IndexIterator)
deriving DecidableEq

variable {K V : Type}

/-- `Insert`. -/
def PooledCall.Inserts : PooledCall K V → Prop
  | .insert _ _ => True
  | _ => False

instance (c : PooledCall K V) : Decidable c.Inserts := by
  cases c <;> unfold PooledCall.Inserts <;> infer_instance

/-- **What becomes** of the links and of the page of the index roots in a
call. -/
inductive Becomes (inserts : Prop) (x : ℕ) (σ₀ : Store PageId) (r₀ : IndexRootsPage) :
    Store PageId → IndexRootsPage → Prop
  /-- Nothing. -/
  | same : Becomes inserts x σ₀ r₀ σ₀ r₀
  /-- There is a tree now. -/
  | started {σ r} : inserts → σ₀.root = invalidPageId → Started x σ₀ r₀ σ r →
      Becomes inserts x σ₀ r₀ σ r
  /-- The tree is another one. -/
  | evolved {σ r} : σ₀.root ≠ invalidPageId → Evolved x σ₀ r₀ σ r → Becomes inserts x σ₀ r₀ σ r

section

variable {inserts : Prop} {x : ℕ} {σ₀ σ : Store PageId} {r₀ r : IndexRootsPage}

theorem Becomes.contained (h : Becomes inserts x σ₀ r₀ σ r) : Contained invalidPageId σ₀ σ := by
  cases h with
  | same => exact Contained.refl
  | started _ _ h => exact h.toContained
  | evolved _ h => exact h.toContained

theorem Becomes.others (h : Becomes inserts x σ₀ r₀ σ r) {y : ℕ} (hy : y ≠ x) :
    r.recorded y = r₀.recorded y := by
  cases h with
  | same => rfl
  | started _ _ h => exact h.others y hy
  | evolved _ h => exact h.others y hy

/-- The links stay right. -/
theorem evolved_refl (hl : Linked invalidPageId σ₀) : Evolved x σ₀ r₀ σ₀ r₀ where
  toContained := Contained.refl
  links := hl
  others _ _ := rfl
  recorded := id

end

namespace PooledTree

variable [LinearOrder K] [Inhabited K]

/-- One call of the tree. -/
def call (env : TreeEnv K V) : PooledCall K V → TreeM K V (PooledAnswer V)
  | .insert key value => return .inserted (← insert env key value)
  | .remove key => do
    remove env key
    return .removed
  | .getValue key => return .value (← getValue env key)
  | .begin => return .iterator (← begin)
  | .beginAt key => return .iterator (← beginAt key)
  | .endOf => return .iterator (some (← endOf))

/-- One call, in a pool in which nothing is pinned. -/
def step (s : PooledTree K V) (i : TreeEnv K V × PooledCall K V) :
    Option (PooledTree K V × PooledAnswer V) :=
  (call i.1 i.2 { s with log := [] }).map Prod.swap

omit [LinearOrder K] [Inhabited K] in
/-- A tree that has been made for an index without a root. -/
def start (indexRoots : IndexRootsPage) : PooledTree K V := ⟨BPlusTree.empty, indexRoots, []⟩

/-- **Sound**: every page has its own id, the links are right, and the page of
the index roots is in use and none of the tree. -/
structure Sound (s : PooledTree K V) : Prop where
  selfIds : s.tree.SelfIds
  links : Linked invalidPageId s.tree.family
  indexRoots : indexRootsPageId ∈ s.tree.family.used ∧ s.tree.family.up indexRootsPageId = none

variable {counted : Prop} {log : List (Event PageId)} {held : PageId → ℕ} {env : TreeEnv K V}
  {x : ℕ} {σ₀ : Store PageId} {r₀ : IndexRootsPage} {key : K} {value : V}
  {c : PooledCall K V} {s s' : PooledTree K V}

/-- **`Insert`** makes a tree or changes the one that is there. -/
theorem insert_rule (hx : env.indexId = x) (hl : Linked invalidPageId σ₀) :
    Triple (Holding counted (fun σ r => σ = σ₀ ∧ r = r₀) log held) (insert env key value)
      (fun _ => Holding counted (Becomes True x σ₀ r₀) log held) := by
  refine Triple.bind (Triple.read
    (Q := fun a s => a.tree.isEmpty = decide (σ₀.root = invalidPageId) ∧
    Holding counted (fun σ r => σ = σ₀ ∧ r = r₀) log held s) (fun s h => ⟨?_, h⟩)) (fun a => ?_)
  · rw [← h.links.1]
    rfl
  refine Triple.assume (fun ha => ?_)
  refine Triple.ite (fun hempty => ?_) (fun hempty => ?_)
  · have hroot := of_decide_eq_true (ha.symm.trans hempty)
    refine Triple.bind (startNewTree_rule hx hl) (fun _ => ?_)
    exact Triple.ret (fun _ h => h.imp (fun _ _ => .started trivial hroot))
  · have hroot : σ₀.root ≠ invalidPageId := fun h => hempty (ha.trans (decide_eq_true h))
    refine Triple.post (forget (insertIntoLeaf_rule hx) ?_)
      (fun _ _ h => h.imp (fun _ _ => .evolved hroot))
    rintro σ r ⟨rfl, rfl⟩
    exact evolved_refl hl

/-- Where a call comes to `Redistribute`, the pages that it fetches there show
their ids. Which leaves these follow depends on the merges below, so the
condition goes along with `Remove` up to there; it is on what the frames of
pages outside the tree show, and a call that stays in its leaf meets it. -/
def FetchedShown (env : TreeEnv K V) : PooledCall K V → PooledTree K V → Prop
  | .remove key, s => Afterwards (removeUntilRedistribute env key) (RedistributesShown env) s
  | _, _ => True

omit [Inhabited K] in
/-- **`Remove`** does nothing to an empty tree. -/
theorem remove_becomes (hx : env.indexId = x) (hl : Linked invalidPageId σ₀) :
    Triple (fun s => Holding counted (fun σ r => σ = σ₀ ∧ r = r₀) log held s ∧
        (counted → FetchedShown env (.remove key) s))
      (remove env key) (fun _ => Holding counted (Becomes False x σ₀ r₀) log held) := by
  by_cases hroot : σ₀.root = invalidPageId
  · refine Triple.bind (Triple.read (Q := fun a s => a.tree.isEmpty ∧
      Holding counted (fun σ r => σ = σ₀ ∧ r = r₀) log held s) (fun s h => ⟨?_, h.1⟩)) (fun a => ?_)
    · refine decide_eq_true (Eq.trans ?_ hroot)
      rw [← h.1.links.1]
      rfl
    refine Triple.assume (fun ha => ?_)
    rw [if_pos ha]
    refine Triple.ret (fun _ h => h.imp ?_)
    rintro σ r ⟨rfl, rfl⟩
    exact .same
  · refine Triple.weaken (remove_rule hx) (fun s h => ⟨h.1.imp ?_, fun found s' hs' hc => ?_⟩)
      (fun _ _ h => h.imp (fun _ _ => .evolved hroot))
    · rintro σ r ⟨rfl, rfl⟩
      exact evolved_refl hl
    · exact h.2 hc found s' hs'

/-- **What a call leaves**: no more pages pinned than there were, if it fetches
no pages that do not show their ids. -/
theorem call_rule (hx : env.indexId = x) (hl : Linked invalidPageId σ₀) :
    Triple (fun s => Holding counted (fun σ r => σ = σ₀ ∧ r = r₀) log held s ∧
        (counted → FetchedShown env c s))
      (call env c) (fun _ => Holding counted (Becomes c.Inserts x σ₀ r₀) log held) := by
  have hsame : ∀ s : PooledTree K V, Holding counted (fun σ r => σ = σ₀ ∧ r = r₀) log held s →
      Holding counted (Becomes c.Inserts x σ₀ r₀) log held s := by
    refine fun s h => h.imp ?_
    rintro σ r ⟨rfl, rfl⟩
    exact .same
  cases c with
  | insert key value =>
    exact Triple.bind ((insert_rule hx hl).pre (fun s h => h.1))
      (fun _ => Triple.ret (fun _ h => h))
  | remove key => exact Triple.bind (remove_becomes hx hl) (fun _ => Triple.ret (fun _ h => h))
  | getValue key =>
    exact Triple.bind (getValue_rule.pre (fun s h => h.1))
      (fun _ => Triple.ret (fun s h => hsame s h))
  | begin =>
    exact Triple.bind (begin_rule.pre (fun s h => h.1)) (fun _ => Triple.ret (fun s h => hsame s h))
  | beginAt key =>
    exact Triple.bind (beginAt_rule.pre (fun s h => h.1))
      (fun _ => Triple.ret (fun s h => hsame s h))
  | endOf =>
    exact Triple.bind (endOf_rule.pre (fun s h => h.1)) (fun _ => Triple.ret (fun s h => hsame s h))

/-- **One call.** -/
theorem holding_step (counted : Prop) {i : TreeEnv K V × PooledCall K V} {o : PooledAnswer V}
    (hs : s.Sound)
    (hshown : counted → FetchedShown i.1 i.2 { s with log := [] })
    (h : step s i = some (s', o)) :
    Holding counted (Becomes i.2.Inserts i.1.indexId s.tree.family s.indexRoots) [] 0 s' := by
  obtain ⟨⟨o', s''⟩, hcall, heq⟩ := Option.map_eq_some_iff.mp h
  cases heq
  have hold : Holding counted (fun σ r => σ = s.tree.family ∧ r = s.indexRoots) [] 0
      { s with log := [] } :=
    ⟨hs.selfIds, ⟨rfl, rfl⟩, List.nil_prefix, fun _ => Holds.nil⟩
  exact call_rule rfl hs.links _ _ _ ⟨hold, hshown⟩ hcall

/-- A tree stays sound. -/
theorem Sound.step {i : TreeEnv K V × PooledCall K V} {o : PooledAnswer V} (hs : s.Sound)
    (h : PooledTree.step s i = some (s', o)) : s'.Sound := by
  have hold := holding_step False hs False.elim h
  have hc := hold.links.contained
  exact ⟨hold.selfIds, hc.linked hs.links, hc.foreign _ hs.indexRoots.1 hs.indexRoots.2⟩

omit [LinearOrder K] [Inhabited K] in
theorem sound_start {r : IndexRootsPage} : (start r : PooledTree K V).Sound where
  selfIds := nofun
  links := ⟨fun _ => List.nodup_nil, nofun, fun _ h => absurd rfl h, fun _ _ => rfl,
    (by decide : invalidPageId ∉ ([0, 1] : List PageId))⟩
  indexRoots := ⟨(by decide : indexRootsPageId ∈ ([0, 1] : List PageId)), rfl⟩

/-- **Every tree that is reached is sound.** -/
theorem sound_of_run {r : IndexRootsPage} {calls : List (TreeEnv K V × PooledCall K V)}
    {answers : List (PooledAnswer V)} (h : Machine.run step (start r) calls = some (s, answers)) :
    s.Sound := by
  have hreach : Machine.Reaches step (fun _ _ => True) (start r) s :=
    Machine.Reaches.init.run (Machine.meets_of_forall (fun _ _ => trivial) _ calls) h
  exact hreach.invariant sound_start (fun _ _ _ _ hs _ hstep => hs.step hstep)

end PooledTree

end MiniSql
