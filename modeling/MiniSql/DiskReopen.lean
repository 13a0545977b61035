import MiniSql.DiskCounters

/-!
# Opening the file again

`AllocatePage` writes the meta page when it makes a new extent, and not when
it finds a page in an extent that is there; `DeAllocatePage` always writes it.
So the meta page on disk is some allocations behind the one in memory
(`Behind`), and what is read when the file is opened again is what was in memory
exactly when the last call wrote the meta page (`sameAfterReopen_iff`). A file
of `2 ^ 31` bytes is lost altogether, since its size is not an `int`.
-/

namespace MiniSql.DiskManager

open Bytes DiskFile Machine

variable {d d' : DiskManager} {i j k n o : ℕ} {m m' : Mem} {id : Int32}

/-- A disk manager that opens the file again has the counters of this one, and
`IsPageFree` answers the same. -/
def SameAfterReopen (d : DiskManager) : Prop :=
  ∃ d', ofFile d.file = some d' ∧ d'.numExtents = d.numExtents ∧
    d'.numAllocatedPages = d.numAllocatedPages ∧
    (∀ i < maxExtents, d'.extentUsedPage i = d.extentUsedPage i) ∧
    ∀ id, d'.isPageFree id = d.isPageFree id

/-- An allocation that does not make the eighteenth extent. -/
def StaysSmall (d : DiskManager) : DiskCall → Prop
  | .allocatePage => d.numExtents < 17 ∨ d.FindsFree
  | _ => True

/-- A release, or an allocation that finds no free page in the extents that are
there. -/
def WritesMeta (d : DiskManager) : DiskCall → Prop
  | .allocatePage => ¬ d.FindsFree
  | .deAllocatePage _ => True
  | _ => False

/-- The meta page on disk is a number of allocations behind the one in memory,
each of which has set a bit. -/
structure Behind (d : DiskManager) (k : ℕ) : Prop where
  extents : (d.file.page 0).read32 4 = d.numExtents
  allocated : d.numAllocatedPages = ((d.file.page 0).read32 0 + k) % 2 ^ 32
  le : k ≤ ∑ i ∈ Finset.range d.numExtents, (d.bitmap i).used
  same : k = 0 → ∀ a < pageSize, d.file.page 0 a = d.metaData a

/-- The meta page has just been written. -/
theorem behind_put {f : DiskFile} : Behind ⟨f.put 0 m, m⟩ 0 := by
  have hpage : ∀ a < pageSize, (f.put 0 m).page 0 a = m a := fun a ha =>
    (page_put ha).trans (if_pos rfl)
  refine ⟨?_, ?_, Nat.zero_le _, fun _ => hpage⟩
  · exact Mem.read32_congr (fun a _ ha => hpage a (ha.trans (by decide)))
  · rw [Nat.add_zero, Nat.mod_eq_of_lt Mem.read32_lt]
    exact Mem.read32_congr (fun a _ ha => (hpage a (ha.trans (by decide))).symm)

theorem behind_fresh : fresh.Behind 0 := ⟨rfl, rfl, Nat.zero_le _, fun _ _ _ => rfl⟩

/-- **An allocation in an extent that is there** puts the disk one more behind. -/
theorem Behind.allocate (h : d.Behind k) (hj : j < d.numExtents) {p : BitmapPage}
    (hpage : (d.bitmap j).allocatePage = some (o, p)) (hcount : Counts d.metaData m' j 1) :
    Behind ⟨d.file.put (bitmapPage j) p, m'⟩ (k + 1) := by
  have hmeta : ∀ a < pageSize, (d.file.put (bitmapPage j) p).page 0 a = d.file.page 0 a :=
    fun a ha => (page_put ha).trans (if_neg (bitmapPage_ne_zero j).symm)
  have hread : ∀ a, a + 4 ≤ pageSize →
      ((d.file.put (bitmapPage j) p).page 0).read32 a = (d.file.page 0).read32 a := fun a ha =>
    Mem.read32_congr (fun b _ hb => hmeta b (hb.trans_le ha))
  refine ⟨?_, ?_, ?_, nofun⟩
  · exact (hread 4 (by decide)).trans (h.extents.trans hcount.extents.symm)
  · refine hcount.allocated.trans ?_
    have hold := h.allocated
    change d.metaData.read32 0 = _ at hold
    rw [hread 0 (by decide), hold]
    omega
  · have hused : ∑ i ∈ Finset.range d.numExtents,
        (bitmap ⟨d.file.put (bitmapPage j) p, m'⟩ i).used =
        ∑ i ∈ Finset.range d.numExtents, (d.bitmap i).used + 1 :=
      sum_add_one (Finset.mem_range.mpr hj)
        (used_put_self.trans (BitmapPage.used_allocatePage hpage))
        (fun i hi => used_put_ne (fun hc => hi (bitmapPage_inj.mp hc)))
    have hext : (⟨d.file.put (bitmapPage j) p, m'⟩ : DiskManager).numExtents = d.numExtents :=
      hcount.extents
    rw [hext, hused]
    exact Nat.succ_le_succ h.le

/-- **What is read again** is what was in memory when nothing is behind. -/
theorem Behind.same_iff (h : d.Behind k) (hs : d.Small) :
    d.SameAfterReopen ↔ k = 0 := by
  have hopen : ofFile d.file = some ⟨d.file, d.file.page 0⟩ := by
    rw [ofFile]
    exact congrArg _ (@readPhysicalPage_eq d.file 0 hs.fits (by decide))
  constructor
  · rintro ⟨d', hd', -, hallocated, -, -⟩
    rw [hopen] at hd'
    cases hd'
    have hk : k ≤ 17 * 32704 := by
      refine h.le.trans ((Finset.sum_le_card_nsmul _ _ 32704 (fun i _ =>
        BitmapPage.used_le _)).trans ?_)
      rw [Finset.card_range]
      exact Nat.mul_le_mul_right _ hs.extents
    have hmod := h.allocated
    have hlt := Mem.read32_lt (m := d.file.page 0) (a := 0)
    change (d.file.page 0).read32 0 = d.numAllocatedPages at hallocated
    omega
  · rintro rfl
    have hread : ∀ a, a + 4 ≤ pageSize → (d.file.page 0).read32 a = d.metaData.read32 a :=
      fun a ha => Mem.read32_congr (fun b _ hb => h.same rfl b (hb.trans_le ha))
    refine ⟨_, hopen, h.extents, hread 0 (by decide), fun i hi => hread _ ?_, fun id => ?_⟩
    · rw [maxExtents, pageSize] at hi
      rw [pageSize]
      omega
    · show (if bitmapIndex id < (d.file.page 0).read32 4 then _ else _) = _
      rw [h.extents]
      rfl

/-! ## Overgrown files -/

/-- An overgrown file is not read at all. -/
theorem Overgrown.differsAfterReopen (h : d.Overgrown) : ¬ d.SameAfterReopen := by
  rintro ⟨d', hd', hextents, -⟩
  obtain ⟨p, hp, rfl⟩ := Option.map_eq_some_iff.mp hd'
  have hzero := @readPhysicalPage_of_large _ 0 h.large h.lt (by decide)
  rw [show metaPageId = ((0 : ℕ) : ℤ) from rfl, hzero] at hp
  cases hp
  rw [h.extents] at hextents
  have hnone : (0 : ℕ) = 18 := hextents
  omega

/-- A file stays overgrown. -/
theorem Overgrown.of_step (h : d.Overgrown) {c : DiskCall} (hc : Allocates c) {answer : DiskAnswer}
    (hstep : d.step c = some (d', answer)) : d'.Overgrown := by
  cases c with
  | allocatePage =>
    obtain ⟨⟨page, d''⟩, heq, hans⟩ := Option.map_eq_some_iff.mp hstep
    cases hans
    obtain ⟨o, p, m', -, hcount, heq'⟩ := h.allocatePage_eq
    rw [heq] at heq'
    cases heq'
    exact h.put (bitmapPage_lt (Nat.zero_le _)) (counts_of_count hcount).extents
  | deAllocatePage id =>
    obtain ⟨d'', heq, hans⟩ := Option.map_eq_some_iff.mp hstep
    cases hans
    rw [h.deAllocatePage_eq heq]
    exact h.put (by decide) rfl
  | readPage id => exact hc.elim
  | writePage id pageData => exact hc.elim

theorem Overgrown.of_run (h : d.Overgrown) {calls : List DiskCall}
    (hcalls : ∀ c ∈ calls, Allocates c)
    {answers : List DiskAnswer} (hrun : run step d calls = some (d', answers)) : d'.Overgrown := by
  induction calls generalizing d answers with
  | nil =>
    cases hrun
    exact h
  | cons c calls ih =>
    obtain ⟨d₁, answer, answers', hstep, hrest, -⟩ := run_cons_eq_some hrun
    exact ih (h.of_step (hcalls c List.mem_cons_self) hstep)
      (fun c hc => hcalls c (List.mem_cons_of_mem _ hc)) hrest

/-! ## Runs -/

/-- One call in a small file: how far the disk is behind then, or that the file
has become too large. -/
theorem Behind.step (h : d.Behind k) (hs : d.Small) {c : DiskCall} (hc : Allocates c)
    {answer : DiskAnswer} (hstep : d.step c = some (d', answer)) :
    (¬ d.StaysSmall c ∧ d'.Overgrown) ∨ (d.StaysSmall c ∧ d'.Small ∧
      ∃ k', d'.Behind k' ∧ (k' = 0 ↔ d.WritesMeta c)) := by
  cases c with
  | allocatePage =>
    obtain ⟨⟨page, d''⟩, heq, hans⟩ := Option.map_eq_some_iff.mp hstep
    cases hans
    by_cases hroom : d.numExtents < 17 ∨ d.FindsFree
    · refine .inr ⟨hroom, hs.allocatePage heq hroom, ?_⟩
      rcases allocatePage_cases hs with
        ⟨j, o, p, m', hj, hpage, hcount, heq'⟩ | ⟨hfull, o, p, m', -, -, heq'⟩
      · rw [heq] at heq'
        cases heq'
        have hfinds : d.FindsFree := ⟨j, hj, by rw [hpage]; exact Option.some_ne_none _⟩
        exact ⟨k + 1, h.allocate hj hpage (counts_of_count hcount),
          iff_of_false (Nat.succ_ne_zero k) (not_not_intro hfinds)⟩
      · rw [heq] at heq'
        cases heq'
        have hnone : ¬ d.FindsFree := fun ⟨j, hj, hne⟩ => hne (hfull j hj)
        exact ⟨0, behind_put, iff_of_true rfl hnone⟩
    · exact .inl ⟨hroom, hs.overgrown_allocatePage heq hroom⟩
  | deAllocatePage id =>
    obtain ⟨d'', heq, hans⟩ := Option.map_eq_some_iff.mp hstep
    cases hans
    obtain ⟨hs', m', rfl⟩ := hs.deAllocatePage heq
    exact .inr ⟨trivial, hs', 0, behind_put, iff_of_true rfl trivial⟩
  | readPage id => exact hc.elim
  | writePage id pageData => exact hc.elim

theorem Behind.run (h : d.Behind k) (hs : d.Small) {w : Prop} (hw : k = 0 ↔ w)
    {calls : List DiskCall} (hcalls : ∀ c ∈ calls, Allocates c) {answers : List DiskAnswer}
    (hrun : Machine.run DiskManager.step d calls = some (d', answers)) :
    d'.SameAfterReopen ↔ Meets DiskManager.step StaysSmall d calls ∧
      EndsWith DiskManager.step WritesMeta w d calls := by
  induction calls generalizing d k w answers with
  | nil =>
    cases hrun
    rw [h.same_iff hs, hw]
    exact (and_iff_right trivial).symm
  | cons c calls ih =>
    obtain ⟨d₁, answer, answers', hstep, hrest, -⟩ := run_cons_eq_some hrun
    have hcalls' := fun c' hc' => hcalls c' (List.mem_cons_of_mem c hc')
    rw [meets_cons hstep, endsWith_cons hstep]
    rcases h.step hs (hcalls c List.mem_cons_self) hstep with
      ⟨hgrows, ho⟩ | ⟨hstays, hs', k', hk', hw'⟩
    · exact iff_of_false (ho.of_run hcalls' hrest).differsAfterReopen
        (fun hc => hgrows hc.1.1)
    · rw [ih hk' hs' hw' hcalls' hrest, and_iff_right hstays]

/-- **What is found when the file is opened again** is what was in memory,
exactly when the file has stayed small and the last call wrote the meta page:
a release, or an allocation that made a new extent. -/
theorem sameAfterReopen_iff {calls : List DiskCall} (hcalls : ∀ c ∈ calls, Allocates c)
    {answers : List DiskAnswer} (hrun : run step fresh calls = some (d, answers)) :
    d.SameAfterReopen ↔
      Meets step StaysSmall fresh calls ∧ EndsWith step WritesMeta True fresh calls :=
  behind_fresh.run small_fresh (iff_of_true rfl trivial) hcalls hrun

/-- A release before the file is closed. -/
theorem sameAfterReopen_iff_release : ∃ d, run step fresh [.allocatePage, .allocatePage,
    .deAllocatePage 7] = some (d, [.allocated 0, .allocated 1, .done]) ∧ d.SameAfterReopen := by
  have hrun : (run step fresh [.allocatePage, .allocatePage, .deAllocatePage 7]).map Prod.snd =
      some [.allocated 0, .allocated 1, .done] := by decide +kernel
  obtain ⟨⟨d, answers⟩, hd, rfl⟩ := Option.map_eq_some_iff.mp hrun
  have hcalls : ∀ c ∈ [DiskCall.allocatePage, .allocatePage, .deAllocatePage 7], Allocates c := by
    rintro c (_ | ⟨_, _ | ⟨_, _ | ⟨_, ⟨⟩⟩⟩⟩) <;> trivial
  have hextents : (step fresh .allocatePage).map (fun r => r.1.numExtents) = some 1 := by
    decide +kernel
  have hsmall : Meets step StaysSmall fresh [.allocatePage, .allocatePage, .deAllocatePage 7] := by
    refine ⟨.inl (by decide), fun d₁ o h₁ => ⟨.inl ?_, fun _ _ _ => ?_⟩⟩
    rotate_left
    · exact ⟨trivial, fun _ _ _ => trivial⟩
    rw [h₁, Option.map_some, Option.some_inj] at hextents
    dsimp only at hextents
    rw [hextents]
    decide
  exact ⟨d, hd, (sameAfterReopen_iff hcalls hd).mpr ⟨hsmall, fun _ _ _ _ _ _ _ _ _ => trivial⟩⟩

/-- Two allocations, and the second one is lost. -/
theorem not_sameAfterReopen : ∃ d, run step fresh [.allocatePage, .allocatePage] =
    some (d, [.allocated 0, .allocated 1]) ∧ ¬ d.SameAfterReopen := by
  have hrun : (run step fresh [.allocatePage, .allocatePage]).map (fun r =>
      (r.2, r.1.numAllocatedPages, (ofFile r.1.file).map numAllocatedPages)) =
      some ([.allocated 0, .allocated 1], 2, some 1) := by decide +kernel
  obtain ⟨⟨d, answers⟩, hd, hout⟩ := Option.map_eq_some_iff.mp hrun
  simp only [Prod.mk.injEq] at hout
  obtain ⟨rfl, hmemory, hdisk⟩ := hout
  refine ⟨d, hd, ?_⟩
  rintro ⟨d', hd', -, hallocated, -⟩
  rw [hd', Option.map_some, hallocated, hmemory] at hdisk
  exact absurd hdisk (by decide)

end MiniSql.DiskManager
