import Mathlib.Data.List.Nodup
import Mathlib.Data.List.Perm.Subperm
import Mathlib.Logic.Function.Basic

/-!
# Nodes that know their parent and their children

A store of nodes in which a node names its parent and lists its children, as
the pages of a search tree do. The two must agree (`Linked`): whoever is
listed as a child names the lister as its parent, so no node is listed twice.

The operations are those of a tree that is changed in place: a node is
written, a new node is put in use, nodes get another parent, a node goes. In
between nothing agrees, so the lemmas are about what such changes come to
together: a node is cut in two, a new node is entered after another, a new
root is put above two nodes, two siblings become one, a child moves to the
sibling, a root gives way to its only child.
-/

namespace Family

variable {ι : Type} [DecidableEq ι]

/-- A store of nodes. -/
structure Store (ι : Type) where
  /-- The root. -/
  root : ι
  /-- The parent that a node names; nothing where there is no node. -/
  up : ι → Option ι
  /-- The children that it lists. -/
  kids : ι → List ι
  /-- The ids in use. -/
  used : List ι

namespace Store

/-- A node is written. -/
def put (σ : Store ι) (p g : ι) (cs : List ι) : Store ι :=
  { σ with
    up := fun q => if q = p then some g else σ.up q
    kids := fun q => if q = p then cs else σ.kids q }

/-- An id is put in use. -/
def alloc (σ : Store ι) (p : ι) : Store ι := { σ with used := p :: σ.used }

/-- Nodes get another parent. -/
def adopt (σ : Store ι) (g : ι) (cs : List ι) : Store ι :=
  { σ with up := fun q => if q ∈ cs then some g else σ.up q }

/-- A node goes. -/
def drop (σ : Store ι) (p : ι) : Store ι :=
  { σ with
    up := fun q => if q = p then none else σ.up q
    kids := fun q => if q = p then [] else σ.kids q
    used := σ.used.filter (fun q => q ≠ p) }

variable {σ : Store ι} {p q g : ι} {cs : List ι}

@[simp, grind =] theorem root_put : (σ.put p g cs).root = σ.root := rfl
@[simp, grind =] theorem up_put : (σ.put p g cs).up q = if q = p then some g else σ.up q := rfl
@[simp, grind =] theorem kids_put : (σ.put p g cs).kids q = if q = p then cs else σ.kids q := rfl
@[simp, grind =] theorem used_put : (σ.put p g cs).used = σ.used := rfl

omit [DecidableEq ι] in
@[simp, grind =] theorem root_alloc : (σ.alloc p).root = σ.root := rfl
omit [DecidableEq ι] in
@[simp, grind =] theorem up_alloc : (σ.alloc p).up q = σ.up q := rfl
omit [DecidableEq ι] in
@[simp, grind =] theorem kids_alloc : (σ.alloc p).kids q = σ.kids q := rfl
omit [DecidableEq ι] in
@[simp, grind =] theorem used_alloc : (σ.alloc p).used = p :: σ.used := rfl

@[simp, grind =] theorem root_adopt : (σ.adopt g cs).root = σ.root := rfl
@[simp, grind =] theorem up_adopt :
    (σ.adopt g cs).up q = if q ∈ cs then some g else σ.up q := rfl
@[simp, grind =] theorem kids_adopt : (σ.adopt g cs).kids q = σ.kids q := rfl
@[simp, grind =] theorem used_adopt : (σ.adopt g cs).used = σ.used := rfl

@[simp, grind =] theorem root_drop : (σ.drop p).root = σ.root := rfl
@[simp, grind =] theorem up_drop : (σ.drop p).up q = if q = p then none else σ.up q := rfl
@[simp, grind =] theorem kids_drop : (σ.drop p).kids q = if q = p then [] else σ.kids q := rfl
@[simp, grind =] theorem mem_used_drop : q ∈ (σ.drop p).used ↔ q ∈ σ.used ∧ q ≠ p := by
  simp [drop]

/-- A node that is written as it was. -/
theorem put_self (hup : σ.up p = some g) (hkids : σ.kids p = cs) : σ.put p g cs = σ := by
  have h₁ : (fun q => if q = p then some g else σ.up q) = σ.up := by
    funext q
    by_cases hq : q = p
    · rw [if_pos hq, hq, hup]
    · rw [if_neg hq]
  have h₂ : (fun q => if q = p then cs else σ.kids q) = σ.kids := by
    funext q
    by_cases hq : q = p
    · rw [if_pos hq, hq, hkids]
    · rw [if_neg hq]
  rw [put, h₁, h₂]

/-- A node that is written with another parent. -/
theorem put_kids : σ.put p g (σ.kids p) = σ.adopt g [p] := by
  have h : (fun q => if q = p then σ.kids p else σ.kids q) = σ.kids := by
    funext q
    by_cases hq : q = p
    · rw [if_pos hq, hq]
    · rw [if_neg hq]
  rw [put, h, adopt]
  simp only [List.mem_singleton]

theorem up_put_ne_none (h : σ.up q ≠ none) : (σ.put p g cs).up q ≠ none := by
  rw [up_put]
  split
  · exact nofun
  · exact h

theorem up_adopt_ne_none (h : σ.up q ≠ none) : (σ.adopt g cs).up q ≠ none := by
  rw [up_adopt]
  split
  · exact nofun
  · exact h

theorem adopt_nil : σ.adopt g [] = σ := by simp [adopt]

/-- Nodes that get another parent one after the other. -/
theorem adopt_adopt {ds : List ι} : (σ.adopt g cs).adopt g ds = σ.adopt g (cs ++ ds) := by
  have h : (fun q => if q ∈ ds then some g else if q ∈ cs then some g else σ.up q) =
      fun q => if q ∈ cs ++ ds then some g else σ.up q := by
    funext q
    by_cases hd : q ∈ ds <;> by_cases hc : q ∈ cs <;> simp [hd, hc]
  rw [adopt, adopt, adopt, ← h]

end Store

variable {σ σ' σ'' : Store ι} {out p q g n c : ι} {cs ds ks : List ι}

section

omit [DecidableEq ι]

/-- **Parents and children agree**; the id `out` is that of no node. -/
structure Linked (out : ι) (σ : Store ι) : Prop where
  /-- No child is listed twice. -/
  nodup : ∀ p, (σ.kids p).Nodup
  /-- A child names its parent. -/
  parent : ∀ p, ∀ c ∈ σ.kids p, σ.up c = some p
  /-- A node is in use. -/
  used : ∀ p, σ.up p ≠ none → p ∈ σ.used
  /-- What is not a node lists nothing. -/
  kids : ∀ p, σ.up p = none → σ.kids p = []
  /-- The id that stands for no node is not in use. -/
  out : out ∉ σ.used

/-- A node that nobody lists. -/
def Orphan (σ : Store ι) (q : ι) : Prop := ∀ p, q ∉ σ.kids p

/-- **A change among its own**: ids in use that are those of no node stay so,
and parents and children agree if they did before. -/
structure Contained (out : ι) (σ σ' : Store ι) : Prop where
  foreign : ∀ q ∈ σ.used, σ.up q = none → q ∈ σ'.used ∧ σ'.up q = none
  linked : Linked out σ → Linked out σ'

/-- The root stays as well. -/
structure Confined (out : ι) (σ σ' : Store ι) : Prop extends Contained out σ σ' where
  root : σ'.root = σ.root

/-- **Growth**: and no node goes. -/
structure Grows (out : ι) (σ σ' : Store ι) : Prop extends Confined out σ σ' where
  keeps : ∀ q, σ.up q ≠ none → σ'.up q ≠ none

theorem Contained.refl : Contained out σ σ := ⟨fun _ hq hn => ⟨hq, hn⟩, id⟩

theorem Contained.trans (h : Contained out σ σ') (h' : Contained out σ' σ'') :
    Contained out σ σ'' where
  foreign q hq hn := h'.foreign q (h.foreign q hq hn).1 (h.foreign q hq hn).2
  linked hl := h'.linked (h.linked hl)

/-- Nothing depends on which node is the root. -/
theorem Contained.setRoot (h : Contained out σ σ') (r : ι) :
    Contained out σ { σ' with root := r } where
  foreign := h.foreign
  linked hl := by
    obtain ⟨hnodup, hparent, hused, hkids, hout⟩ := h.linked hl
    exact ⟨hnodup, hparent, hused, hkids, hout⟩

theorem Linked.child_used (h : Linked out σ) (hc : c ∈ σ.kids p) : c ∈ σ.used :=
  h.used c (by rw [h.parent p c hc]; exact nofun)

/-- A node that is not in use is listed by nobody. -/
theorem Linked.orphan (h : Linked out σ) (hq : q ∉ σ.used) : Orphan σ q :=
  fun _ hc => hq (h.child_used hc)

/-- Nor is a node without a parent. -/
theorem Linked.orphan_of_out (h : Linked out σ) (hq : σ.up q = some out) : Orphan σ q := by
  intro p hc
  have hout : out = p := Option.some.inj (hq.symm.trans (h.parent p q hc))
  subst hout
  rw [h.kids out (Classical.not_not.mp (fun hn => h.out (h.used out hn)))] at hc
  exact absurd hc List.not_mem_nil

end

/-! ## Changes of the tree -/

/-- **A new node** without children. -/
theorem grows_add (hn : p ∉ σ.used) (hp : p ≠ out) : Grows out σ ((σ.alloc p).put p g []) where
  root := rfl
  foreign := by grind
  keeps := by grind
  linked h := by constructor <;> grind [Linked]

/-- The new node is listed by nobody. -/
theorem orphan_add (hl : Linked out σ) (hn : p ∉ σ.used) :
    Orphan ((σ.alloc p).put p g []) p := by
  have hnew := hl.orphan hn
  intro q
  grind [Orphan]

/-- **A node is cut in two**: the new one gets the children behind the cut. -/
theorem grows_split (hl : Linked out σ) (hup : σ.up n = some g) (hkids : σ.kids n = cs ++ ds)
    (hn : p ∉ σ.used) (hp : p ≠ out) : Grows out σ
      (((((σ.alloc p).put p g []).put n g cs).put p g ds).adopt p ds) := by
  have hnew := hl.orphan hn
  have hin : ∀ c ∈ cs ++ ds, σ.up c = some n := hkids ▸ hl.parent n
  have hnodup : (cs ++ ds).Nodup := hkids ▸ hl.nodup n
  have hmem : ∀ c, c ∈ σ.kids n ↔ c ∈ cs ∨ c ∈ ds := by
    rw [hkids]
    exact fun c => List.mem_append
  refine ⟨⟨⟨?_, fun _ => ⟨?_, ?_, ?_, ?_, ?_⟩⟩, rfl⟩, ?_⟩
  · grind
  · grind [Linked]
  · grind [Linked, Orphan]
  · grind [Linked]
  · grind [Linked]
  · grind [Linked]
  · grind

/-- Nor is the one that comes from a cut. -/
theorem orphan_split (hl : Linked out σ) (hkids : σ.kids n = cs ++ ds) (hn : p ∉ σ.used) :
    Orphan (((((σ.alloc p).put p g []).put n g cs).put p g ds).adopt p ds) p := by
  have hnew := hl.orphan hn
  have hn' := hnew n
  rw [hkids] at hn'
  intro q
  grind [Orphan]

/-- **A node is entered** among the children of another. -/
theorem grows_enter (hl : Linked out σ) (ho : Orphan σ n) {before after : List ι}
    (hup : (σ.adopt p [n]).up p = some g) (hkids : σ.kids p = before ++ after)
    (hn : σ.up n ≠ none) :
    Grows out σ ((σ.adopt p [n]).put p g (before ++ n :: after)) := by
  have hin : ∀ c ∈ before ++ after, σ.up c = some p := hkids ▸ hl.parent p
  have hnodup : (before ++ after).Nodup := hkids ▸ hl.nodup p
  have hnot : n ∉ before ++ after := hkids ▸ ho p
  refine ⟨⟨⟨?_, fun _ => ⟨?_, ?_, ?_, ?_, ?_⟩⟩, rfl⟩, ?_⟩
  · grind
  · grind [Linked]
  · grind [Linked, Orphan]
  · grind [Linked]
  · grind [Linked]
  · grind [Linked]
  · grind

/-- **A new root** above two nodes. -/
theorem contained_newRoot (hl : Linked out σ) (hq : σ.up q = some out) (ho : Orphan σ n)
    (hn : σ.up n ≠ none) (hne : q ≠ n) (hp : p ∉ σ.used) (hout : p ≠ out) (r : ι) :
    Contained out σ ((((({ (σ.alloc p).put p out [] with root := r } : Store ι).put p out
      [q, n])).adopt p [q]).adopt p [n]) := by
  have hq' := hl.orphan_of_out hq
  have hp' := hl.orphan hp
  refine ⟨?_, fun _ => ⟨?_, ?_, ?_, ?_, ?_⟩⟩
  · grind
  · grind [Linked]
  · grind [Linked, Orphan]
  · grind [Linked]
  · grind [Linked]
  · grind [Linked]

/-- **Two siblings become one**: the second one is dropped, and the entry of the
parent for it. -/
theorem confined_merge (hl : Linked out σ) {g' : ι} {j : ℕ} (hne : n ≠ q) (hn : σ.up n = some g)
    (hq : σ.kids q = ds) (hj : (σ.kids p)[j]? = some q) {L : List ι}
    (hup : (((σ.put n g (σ.kids n ++ ds)).adopt n ds).drop q).up p = some g')
    (hL : (((σ.put n g (σ.kids n ++ ds)).adopt n ds).drop q).kids p = L) :
    Confined out σ ((((σ.put n g (σ.kids n ++ ds)).adopt n ds).drop q).put p g'
      (L.eraseIdx j)) := by
  have hpq : p ≠ q := by
    rintro rfl
    grind
  have hds : ∀ c ∈ ds, σ.up c = some q := hq ▸ hl.parent q
  have hup' : q ∈ σ.kids p := List.mem_of_getElem? hj
  -- The list of the parent is longer by the children that move, if the first
  -- of the siblings is the parent.
  have hL' : L.Nodup ∧ L[j]? = some q ∧ ∀ c ∈ L, c ∈ σ.kids p ∨ (p = n ∧ c ∈ ds) := by
    have hlt : j < (σ.kids p).length := (List.getElem?_eq_some_iff.mp hj).1
    by_cases hpn : p = n
    · subst hpn
      have hLeq : L = σ.kids p ++ ds := by simpa [hpq] using hL.symm
      have hdis : ∀ c ∈ σ.kids p, c ∉ ds := fun c hc hd =>
        hne (Option.some.inj ((hl.parent p c hc).symm.trans (hds c hd)))
      rw [hLeq]
      refine ⟨List.nodup_append'.mpr ⟨hl.nodup p, hq ▸ hl.nodup q, hdis⟩, ?_, fun c hc => ?_⟩
      · rw [List.getElem?_append_left hlt, hj]
      · exact (List.mem_append.mp hc).imp id (fun h => ⟨rfl, h⟩)
    · have hLeq : L = σ.kids p := by simpa [hpq, hpn] using hL.symm
      rw [hLeq]
      exact ⟨hl.nodup p, hj, fun c hc => .inl hc⟩
  obtain ⟨hnodup, hLj, hmem⟩ := hL'
  have hmem' : ∀ c ∈ L.eraseIdx j, c ≠ q ∧ (c ∈ σ.kids p ∨ (p = n ∧ c ∈ ds)) := by
    intro c hc
    obtain ⟨i, hi, hij⟩ := List.mem_eraseIdx_iff_getElem?.mp hc
    refine ⟨?_, hmem c (List.mem_of_getElem? hij)⟩
    rintro rfl
    have hlt : i < L.length := (List.getElem?_eq_some_iff.mp hij).1
    exact hi ((List.getElem?_inj hlt hnodup).mp (hij.trans hLj.symm))
  refine ⟨⟨?_, fun _ => ⟨?_, ?_, ?_, ?_, ?_⟩⟩, rfl⟩
  · grind [Linked]
  · grind [Linked]
  · grind [Linked]
  · grind [Linked]
  · grind [Linked]
  · grind [Linked]

/-- **A child moves** to another node. -/
theorem grows_move (hl : Linked out σ) {g' : ι} {M : List ι} (hne : n ≠ q)
    (hn : σ.up n = some g) (hq : σ.up q = some g') (hL : (σ.kids n).Perm (c :: cs))
    (hM : M.Perm (c :: σ.kids q)) :
    Grows out σ (((σ.put n g cs).put q g' M).adopt q [c]) := by
  have hmem : ∀ a, a ∈ σ.kids n ↔ a = c ∨ a ∈ cs := fun a => hL.mem_iff.trans List.mem_cons
  have hmem' : ∀ a, a ∈ M ↔ a = c ∨ a ∈ σ.kids q := fun a => hM.mem_iff.trans List.mem_cons
  have hnodup : (c :: cs).Nodup := hL.nodup_iff.mp (hl.nodup n)
  have hc : σ.up c = some n := hl.parent n c ((hmem c).mpr (.inl rfl))
  have hnot : c ∉ σ.kids q := fun h => hne (Option.some.inj (hc.symm.trans (hl.parent q c h)))
  have hM' : M.Nodup := hM.nodup_iff.mpr (List.nodup_cons.mpr ⟨hnot, hl.nodup q⟩)
  refine ⟨⟨⟨?_, fun _ => ⟨?_, ?_, ?_, ?_, ?_⟩⟩, rfl⟩, ?_⟩
  · grind
  · grind [Linked]
  · grind [Linked]
  · grind [Linked]
  · grind [Linked]
  · grind [Linked]
  · grind

/-- **A root goes**: its children have no parent any more. -/
theorem contained_unroot (hl : Linked out σ) (hp : σ.up p = some out) (r : ι) :
    Contained out σ ((({ σ with root := r } : Store ι).adopt out (σ.kids p)).drop p) := by
  have ho := hl.orphan_of_out hp
  refine ⟨?_, fun _ => ⟨?_, ?_, ?_, ?_, ?_⟩⟩
  · grind [Linked]
  · grind [Linked]
  · grind [Linked, Orphan]
  · grind [Linked]
  · grind [Linked]
  · grind [Linked]

end Family
