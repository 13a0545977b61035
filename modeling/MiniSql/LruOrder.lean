import MiniSql.LruReplacer
import MiniSql.Machine
import Mathlib.Data.List.MinMax

/-!
# The order of eviction

What `LRUReplacer` is for, in terms of what has happened to it. A `History` has the calls
that did something: the calls of `Unpin` that were accepted, those of `Pin` and the frames
that `Victim` has chosen. From it one can tell which frames are tracked, and since when.

The history answers the same calls (`History.step`): `Unpin` is accepted if the frame is
not tracked and the capacity is not reached, and `Victim` chooses the frame that has been
tracked for the longest time. `LRUReplacer`, which has no history, answers as it does
(`run_eq_history`): the order of its list is that of the times.
-/

namespace MiniSql

namespace LruReplacer

/-- The calls. -/
inductive Call
  | victim
  | pin (f : FrameId)
  | unpin (f : FrameId)
  | size
deriving DecidableEq

/-- Their answers. -/
inductive Answer
  | victim (f : Option FrameId)
  | done
  | size (n : ℕ)
deriving DecidableEq

/-- One call. -/
def step (r : LruReplacer) : Call → Option (LruReplacer × Answer)
  | .victim => some (r.victim.1, .victim r.victim.2)
  | .pin f => some (r.pin f, .done)
  | .unpin f => some (r.unpin f, .done)
  | .size => some (r, .size r.inSize)

/-- What happens to a frame. -/
inductive Event
  | unpinned (f : FrameId)
  | pinned (f : FrameId)
  | chosen (f : FrameId)

/-- The frame. -/
def Event.frame : Event → FrameId
  | unpinned f => f
  | pinned f => f
  | chosen f => f

/-- What has happened, the last event first. -/
abbrev History := List Event

namespace History

/-- Since when a frame is tracked: the time of its last `Unpin`, if there has been no `Pin`
since then and the frame has not been chosen. The time is the number of events before. -/
def since : History → FrameId → Option ℕ
  | [], _ => none
  | .unpinned g :: es, f => if f = g then some es.length else since es f
  | .pinned g :: es, f => if f = g then none else since es f
  | .chosen g :: es, f => if f = g then none else since es f

/-- The frames that are tracked. -/
def tracked (es : History) : Finset FrameId :=
  (es.map Event.frame).toFinset.filter (fun f => (since es f).isSome)

/-- The time since when a tracked frame is tracked. -/
def time (es : History) (f : FrameId) : ℕ := (since es f).getD 0

/-- The frame that has been tracked for the longest time. -/
def oldest (es : History) : Option FrameId :=
  ((es.map Event.frame).filter (fun f => (since es f).isSome)).argmin (time es)

/-- What a call does to a history. -/
def step (n : ℕ) (es : History) : Call → History × Answer
  | .victim =>
    match oldest es with
    | none => (es, .victim none)
    | some f => (.chosen f :: es, .victim (some f))
  | .pin f => (.pinned f :: es, .done)
  | .unpin f =>
    if f ∈ tracked es ∨ n ≤ (tracked es).card then (es, .done) else (.unpinned f :: es, .done)
  | .size => (es, .size (tracked es).card)

variable {es : History} {f g : FrameId} {e : Event}

/-- An event does nothing to other frames. -/
theorem since_cons_of_ne (h : f ≠ e.frame) : since (e :: es) f = since es f := by
  cases e with
  | unpinned g => exact if_neg h
  | pinned g => exact if_neg h
  | chosen g => exact if_neg h

/-- What is tracked has been unpinned before. -/
theorem mem_frames_of_since (h : (since es f).isSome) : f ∈ es.map Event.frame := by
  induction es with
  | nil => cases h
  | cons e es ih =>
    by_cases hf : f = e.frame
    · exact hf ▸ List.mem_cons_self
    · rw [since_cons_of_ne hf] at h
      exact List.mem_cons_of_mem _ (ih h)

theorem mem_tracked : f ∈ tracked es ↔ (since es f).isSome := by
  rw [tracked, Finset.mem_filter, List.mem_toFinset]
  exact and_iff_right_of_imp mem_frames_of_since

theorem time_cons_of_ne (h : f ≠ e.frame) : time (e :: es) f = time es f := by
  rw [time, time, since_cons_of_ne h]

/-- Every frame is tracked since a time that has passed. -/
theorem time_lt (h : f ∈ tracked es) : time es f < es.length := by
  rw [mem_tracked] at h
  induction es with
  | nil => cases h
  | cons e es ih =>
    by_cases hf : f = e.frame
    · cases e with
      | unpinned g =>
        have hf : f = g := hf
        have htime : time (.unpinned g :: es) f = es.length := by
          rw [time, since, if_pos hf]
          rfl
        rw [htime]
        exact Nat.lt_succ_self _
      | pinned g =>
        rw [since, if_pos (show f = g from hf)] at h
        cases h
      | chosen g =>
        rw [since, if_pos (show f = g from hf)] at h
        cases h
    · rw [since_cons_of_ne hf] at h
      rw [time_cons_of_ne hf]
      exact (ih h).trans (Nat.lt_succ_self _)

/-- There is an oldest frame unless none is tracked. -/
theorem oldest_eq_none : oldest es = none ↔ tracked es = ∅ := by
  rw [oldest, List.argmin_eq_none, Finset.eq_empty_iff_forall_notMem, List.filter_eq_nil_iff]
  refine ⟨fun h f hf => ?_, fun h f _ hf => h f (mem_tracked.mpr hf)⟩
  exact h f (mem_frames_of_since (mem_tracked.mp hf)) (mem_tracked.mp hf)

/-- It is tracked, and no other one for a longer time. -/
theorem oldest_spec (h : oldest es = some f) :
    f ∈ tracked es ∧ ∀ g ∈ tracked es, time es f ≤ time es g := by
  have hf : f ∈ oldest es := h
  have hmem := List.argmin_mem hf
  refine ⟨mem_tracked.mpr (List.mem_filter.mp hmem).2, fun g hg => ?_⟩
  have hsome := mem_tracked.mp hg
  exact List.le_of_mem_argmin (List.mem_filter.mpr ⟨mem_frames_of_since hsome, hsome⟩) hf

end History

/-! ## The replacer and its history -/

/-- **The list, the map and the count describe the tracked frames**, those that have been
tracked for the longest time at the back of the list. -/
structure Agrees (n : ℕ) (r : LruReplacer) (es : History) : Prop where
  nodup : r.lruList.Nodup
  map_eq : r.map = r.lruList.toFinset
  inSize_eq : r.inSize = r.lruList.length
  maxSize_eq : r.maxSize = n
  length_le : r.lruList.length ≤ n
  tracked_eq : r.lruList.toFinset = es.tracked
  sorted : r.lruList.Pairwise (fun f g => es.time g < es.time f)

namespace Agrees

variable {n : ℕ} {r : LruReplacer} {es : History} {f : FrameId} {e : Event}

theorem init (n : ℕ) : Agrees n (init n) [] where
  nodup := List.nodup_nil
  map_eq := rfl
  inSize_eq := rfl
  maxSize_eq := rfl
  length_le := Nat.zero_le n
  tracked_eq := rfl
  sorted := List.Pairwise.nil

theorem mem_tracked (h : Agrees n r es) : f ∈ es.tracked ↔ f ∈ r.lruList := by
  rw [← h.tracked_eq, List.mem_toFinset]

theorem mem_map (h : Agrees n r es) : f ∈ r.map ↔ f ∈ r.lruList := by
  rw [h.map_eq, List.mem_toFinset]

theorem card_tracked (h : Agrees n r es) : es.tracked.card = r.inSize := by
  rw [← h.tracked_eq, h.inSize_eq, List.toFinset_card_of_nodup h.nodup]

/-- **A frame is taken out** of the list, the map and the count, and is not tracked after
the event. -/
theorem erase (h : Agrees n r es) (hf : f ∈ r.lruList) (he : e.frame = f)
    (hnone : History.since (e :: es) f = none) :
    Agrees n ⟨r.maxSize, r.inSize - 1, r.lruList.erase f, r.map.erase f⟩ (e :: es) where
  nodup := h.nodup.erase f
  map_eq := by
    ext g
    rw [Finset.mem_erase, h.mem_map, List.mem_toFinset, h.nodup.mem_erase_iff]
  inSize_eq := by
    show r.inSize - 1 = _
    rw [h.inSize_eq, List.length_erase_of_mem hf]
  maxSize_eq := h.maxSize_eq
  length_le := (List.length_erase_le).trans h.length_le
  tracked_eq := by
    ext g
    rw [List.mem_toFinset, h.nodup.mem_erase_iff, History.mem_tracked, ← h.mem_tracked]
    by_cases hg : g = f
    · rw [hg, hnone]
      exact iff_of_false (fun hc => hc.1 rfl) Bool.false_ne_true
    · rw [History.since_cons_of_ne (he ▸ hg), and_iff_right hg, History.mem_tracked]
  sorted := by
    refine (h.sorted.sublist List.erase_sublist).imp_of_mem (fun {g g'} hg hg' hlt => ?_)
    rw [History.time_cons_of_ne (he ▸ (h.nodup.mem_erase_iff.mp hg').1),
      History.time_cons_of_ne (he ▸ (h.nodup.mem_erase_iff.mp hg).1)]
    exact hlt

/-- An event of a frame that is not tracked, and is not tracked after it. -/
theorem untracked (h : Agrees n r es) (hf : f ∉ r.lruList) (he : e.frame = f)
    (hnone : History.since (e :: es) f = none) : Agrees n r (e :: es) where
  nodup := h.nodup
  map_eq := h.map_eq
  inSize_eq := h.inSize_eq
  maxSize_eq := h.maxSize_eq
  length_le := h.length_le
  tracked_eq := by
    ext g
    rw [List.mem_toFinset, History.mem_tracked, ← h.mem_tracked]
    by_cases hg : g = f
    · rw [hg, hnone, h.mem_tracked]
      exact iff_of_false hf Bool.false_ne_true
    · rw [History.since_cons_of_ne (he ▸ hg), History.mem_tracked]
  sorted := by
    refine h.sorted.imp_of_mem (fun {g g'} hg hg' hlt => ?_)
    have hne : ∀ {g}, g ∈ r.lruList → g ≠ e.frame := fun hg hc => hf (he ▸ hc ▸ hg)
    rw [History.time_cons_of_ne (hne hg'), History.time_cons_of_ne (hne hg)]
    exact hlt

/-- `Pin`. -/
theorem pin (h : Agrees n r es) (f : FrameId) : Agrees n (r.pin f) (.pinned f :: es) := by
  have hnone : History.since (.pinned f :: es) f = none := if_pos rfl
  unfold LruReplacer.pin
  by_cases hf : f ∈ r.map
  · rw [if_pos hf]
    exact h.erase (h.mem_map.mp hf) rfl hnone
  · rw [if_neg hf]
    exact h.untracked (fun hc => hf (h.mem_map.mpr hc)) rfl hnone

/-- `Unpin` of a frame that is tracked already, or when the capacity is reached, does
nothing. -/
theorem unpin_eq_self (h : Agrees n r es) (hf : f ∈ es.tracked ∨ n ≤ es.tracked.card) :
    r.unpin f = r := by
  refine if_pos (hf.imp (fun hf => h.mem_map.mpr (h.mem_tracked.mp hf)) (fun hn => ?_))
  rw [h.maxSize_eq, ← h.card_tracked]
  exact hn

/-- `Unpin` that is accepted. -/
theorem unpin (h : Agrees n r es) (hf : f ∉ es.tracked) (hn : es.tracked.card < n) :
    Agrees n (r.unpin f) (.unpinned f :: es) := by
  have hmem : f ∉ r.lruList := fun hc => hf (h.mem_tracked.mpr hc)
  have hlt : r.lruList.length < n := by
    rw [← h.inSize_eq, ← h.card_tracked]
    exact hn
  have hne : ∀ {g}, g ∈ r.lruList → g ≠ f := fun hg hc => hmem (hc ▸ hg)
  have htime : History.time (.unpinned f :: es) f = es.length := by
    rw [History.time, History.since, if_pos rfl]
    rfl
  have hother : ∀ {g}, g ≠ f → History.time (.unpinned f :: es) g = es.time g :=
    fun hg => History.time_cons_of_ne hg
  have hunpin : r.unpin f = ⟨r.maxSize, r.inSize + 1, f :: r.lruList, insert f r.map⟩ := by
    refine if_neg (not_or.mpr ⟨fun hc => hmem (h.mem_map.mp hc), not_le.mpr ?_⟩)
    rw [h.maxSize_eq, h.inSize_eq]
    exact hlt
  rw [hunpin]
  refine ⟨List.nodup_cons.mpr ⟨hmem, h.nodup⟩, ?_, ?_, h.maxSize_eq, hlt, ?_, ?_⟩
  · show insert f r.map = _
    rw [h.map_eq, List.toFinset_cons]
  · show r.inSize + 1 = _
    rw [h.inSize_eq, List.length_cons]
  · ext g
    rw [List.mem_toFinset, List.mem_cons, History.mem_tracked]
    by_cases hg : g = f
    · rw [hg, History.since, if_pos rfl]
      exact iff_of_true (.inl rfl) rfl
    · rw [or_iff_right hg, ← h.mem_tracked, History.mem_tracked,
        History.since_cons_of_ne (e := .unpinned f) hg]
  · refine List.pairwise_cons.mpr
      ⟨fun g hg => ?_, h.sorted.imp_of_mem (fun {g g'} hg hg' hlt => ?_)⟩
    · rw [htime, hother (hne hg)]
      exact History.time_lt (h.mem_tracked.mpr hg)
    · rw [hother (hne hg'), hother (hne hg)]
      exact hlt

/-- **The frame at the back of the list** is the one that has been tracked for the longest
time. -/
theorem oldest_eq (h : Agrees n r es) : es.oldest = r.lruList.getLast? := by
  cases hold : es.oldest with
  | none =>
    have hnil : r.lruList.toFinset = ∅ := h.tracked_eq.trans (History.oldest_eq_none.mp hold)
    rw [(List.toFinset_eq_empty_iff _).mp hnil]
    rfl
  | some f =>
    obtain ⟨hf, hleast⟩ := History.oldest_spec hold
    obtain ⟨A, g, hlist⟩ : ∃ A g, r.lruList = A ++ [g] :=
      ⟨_, _, (List.dropLast_concat_getLast (List.ne_nil_of_mem (h.mem_tracked.mp hf))).symm⟩
    have hg : g ∈ es.tracked := h.mem_tracked.mpr
      (hlist ▸ List.mem_append_right A List.mem_cons_self)
    have hsorted := h.sorted
    have hin := h.mem_tracked.mp hf
    rw [hlist] at hsorted hin
    rw [hlist, List.getLast?_concat]
    rcases List.mem_append.mp hin with hA | hlast
    · have hlt := (List.pairwise_append.mp hsorted).2.2 f hA g List.mem_cons_self
      exact absurd (hleast g hg) (not_le.mpr hlt)
    · rw [List.mem_singleton.mp hlast]

/-- `Victim`. -/
theorem victim (h : Agrees n r es) :
    r.victim.2 = es.oldest ∧ Agrees n r.victim.1 (es.step n .victim).1 := by
  unfold LruReplacer.victim History.step
  rw [h.oldest_eq, h.inSize_eq]
  cases hlast : r.lruList.getLast? with
  | none =>
    rw [List.getLast?_eq_none_iff.mp hlast]
    exact ⟨rfl, h⟩
  | some f =>
    have hf : f ∈ r.lruList := List.mem_of_getLast? hlast
    rw [if_neg (fun h0 => List.ne_nil_of_mem hf (List.length_eq_zero_iff.mp h0))]
    exact ⟨rfl, h.inSize_eq ▸ h.erase hf rfl (if_pos rfl)⟩

/-- **One call**: the replacer answers as its history does. -/
theorem step (h : Agrees n r es) (c : Call) : ∃ r',
    r.step c = some (r', (es.step n c).2) ∧ Agrees n r' (es.step n c).1 := by
  cases c with
  | victim =>
    obtain ⟨hanswer, hagrees⟩ := h.victim
    refine ⟨_, ?_, hagrees⟩
    show some (_, Answer.victim r.victim.2) = _
    rw [hanswer, History.step]
    cases es.oldest <;> rfl
  | pin f => exact ⟨_, rfl, h.pin f⟩
  | unpin f =>
    by_cases hf : f ∈ es.tracked ∨ n ≤ es.tracked.card
    · have hstep : es.step n (.unpin f) = (es, .done) := if_pos hf
      rw [hstep]
      refine ⟨_, rfl, ?_⟩
      rw [h.unpin_eq_self hf]
      exact h
    · have hstep : es.step n (.unpin f) = (.unpinned f :: es, .done) := if_neg hf
      obtain ⟨hmem, hn⟩ := not_or.mp hf
      rw [hstep]
      exact ⟨_, rfl, h.unpin hmem (not_le.mp hn)⟩
  | size =>
    refine ⟨r, ?_, h⟩
    show some (r, Answer.size r.inSize) = _
    rw [← h.card_tracked]
    rfl

end Agrees

/-- **The order of eviction.** Whatever calls are made, a replacer answers them as the
history of what has happened does: `Victim` fails if no frame is tracked, and else gives
the frame that has been tracked for the longest time. The list, the map and the count
describe the tracked frames, at most as many as the capacity, and an `Unpin` that is not
accepted changes nothing. -/
theorem run_eq_history (n : ℕ) (calls : List Call) : ∃ r,
    Machine.run step (init n) calls =
        some (r, Machine.answers (History.step n) [] calls) ∧
      Agrees n r (Machine.final (History.step n) [] calls) ∧
      ∀ f, f ∈ (Machine.final (History.step n) [] calls).tracked ∨
        n ≤ (Machine.final (History.step n) [] calls).tracked.card → r.unpin f = r := by
  have hmeets : Machine.Meets step (fun _ _ => True) (init n) calls :=
    Machine.meets_of_forall_mem (fun _ _ => trivial) _
  obtain ⟨r, hrun, hagrees⟩ := Machine.run_of_simulation (R := Agrees n)
    (fun _ _ c h _ => h.step c) (Agrees.init n) hmeets
  exact ⟨r, hrun, hagrees, fun f hf => hagrees.unpin_eq_self hf⟩

end LruReplacer

end MiniSql
