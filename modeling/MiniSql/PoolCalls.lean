import Mathlib.Algebra.Order.Group.Nat
import Mathlib.Data.List.Basic
import Mathlib.Logic.Function.Basic

/-!
# The calls that code makes to a buffer pool

The events of a run of code over a buffer pool: pages that it fetches, makes,
unpins and deletes, and the uses that it makes of the pointers it has been
given. The pin count of a page follows from the events (`pinCount`), since an
unpin of a page that is not pinned does nothing.

* A page is left pinned only if it has been fetched more often than unpinned:
  `Holds` is an upper bound for the pin counts, with a rule for each event.
* A use of a pointer is safe if no frame has been asked for since the pointer
  was handed out, or if the page has been pinned all the time (`SafeUse`). A
  pool that evicts unpinned pages alone, of whatever size, then still has the
  page in the frame (`SafeUse.resident`).
-/

namespace PoolCalls

variable {ι : Type}

/-- A pointer to the frame of a page, with the number of events up to the one
that handed it out. -/
structure Pointer (ι : Type) where
  /-- The page. -/
  page : ι
  /-- When it was handed out. -/
  since : ℕ
deriving DecidableEq

/-- What code does to a buffer pool and to the frames in it. -/
inductive Event (ι : Type)
  | fetch (page : ι)
  | new (page : ι)
  | unpin (page : ι)
  | delete (page : ι)
  | use (p : Pointer ι)
deriving DecidableEq

namespace Event

/-- A call that may take a frame for another page. -/
def TakesFrame : Event ι → Prop
  | fetch _ => True
  | new _ => True
  | _ => False

instance (e : Event ι) : Decidable e.TakesFrame := by
  cases e <;> unfold TakesFrame <;> infer_instance

/-- The pin counts after an event. -/
def pins [DecidableEq ι] : Event ι → (ι → ℕ) → ι → ℕ
  | fetch q, n => Function.update n q (n q + 1)
  | new q, n => Function.update n q 1
  | unpin q, n => Function.update n q (n q - 1)
  | delete _, n => n
  | use _, n => n

end Event

section

variable [DecidableEq ι]

/-- The pin count of every page after the events, where none is pinned at the
start. -/
def pinCount (log : List (Event ι)) : ι → ℕ := log.foldl (fun n e => e.pins n) (fun _ => 0)

variable {log : List (Event ι)} {q : ι} {p : Pointer ι} {e : Event ι}

theorem pinCount_append : pinCount (log ++ [e]) = e.pins (pinCount log) := by
  rw [pinCount, List.foldl_append]
  rfl

/-- A new page is pinned once. -/
theorem pinCount_append_new (log : List (Event ι)) (q : ι) : pinCount (log ++ [.new q]) q = 1 := by
  rw [pinCount_append]
  exact Function.update_self ..

/-- One page that is held, as pins above others. -/
def one (q : ι) : ι → ℕ := fun r => if r = q then 1 else 0

@[simp] theorem one_self : one q q = 1 := if_pos rfl

/-- **An upper bound** for the pin counts. -/
def Holds (held : ι → ℕ) (log : List (Event ι)) : Prop := ∀ q, pinCount log q ≤ held q

variable {held : ι → ℕ}

theorem Holds.nil : Holds held ([] : List (Event ι)) := fun _ => Nat.zero_le _

theorem Holds.mono {held' : ι → ℕ} (h : Holds held log) (hle : ∀ q, held q ≤ held' q) :
    Holds held' log := fun q => (h q).trans (hle q)

/-- One more page is held once it has been fetched. -/
theorem Holds.fetch (h : Holds held log) : Holds (held + one q) (log ++ [.fetch q]) := by
  intro r
  have hr := h r
  rw [pinCount_append, Event.pins, Pi.add_apply, one]
  by_cases hrq : r = q
  · subst hrq
    rw [Function.update_self, if_pos rfl]
    omega
  · rw [Function.update_of_ne hrq, if_neg hrq]
    omega

/-- One more page is held once it has been made. -/
theorem Holds.new (h : Holds held log) : Holds (held + one q) (log ++ [.new q]) := by
  intro r
  have hr := h r
  rw [pinCount_append, Event.pins, Pi.add_apply, one]
  by_cases hrq : r = q
  · subst hrq
    rw [Function.update_self, if_pos rfl]
    omega
  · rw [Function.update_of_ne hrq, if_neg hrq]
    omega

/-- An unpin gives up a page that is held. -/
theorem Holds.unpin (h : Holds (held + one q) log) : Holds held (log ++ [.unpin q]) := by
  intro r
  have hr := h r
  rw [pinCount_append, Event.pins]
  rw [Pi.add_apply, one] at hr
  by_cases hrq : r = q
  · subst hrq
    rw [Function.update_self]
    rw [if_pos rfl] at hr
    omega
  · rw [Function.update_of_ne hrq]
    rw [if_neg hrq] at hr
    omega

/-- An unpin too many does no harm. -/
theorem Holds.unpin_any (h : Holds held log) : Holds held (log ++ [.unpin q]) := by
  intro r
  have hr := h r
  rw [pinCount_append, Event.pins]
  by_cases hrq : r = q
  · subst hrq
    rw [Function.update_self]
    omega
  · rw [Function.update_of_ne hrq]
    exact hr

theorem Holds.delete (h : Holds held log) : Holds held (log ++ [.delete q]) := by
  intro r
  rw [pinCount_append]
  exact h r

theorem Holds.use (h : Holds held log) : Holds held (log ++ [.use p]) := by
  intro r
  rw [pinCount_append]
  exact h r

/-! ## Uses -/

/-- **A safe use** of a pointer after the events: no frame has been asked for
since it was handed out, or its page has been pinned all the time. -/
def SafeUse (log : List (Event ι)) (p : Pointer ι) : Prop :=
  (∀ e ∈ log.drop p.since, ¬ e.TakesFrame) ∨
    ∀ n, p.since ≤ n → n ≤ log.length → 1 ≤ pinCount (log.take n) p.page

/-- Every use among the events is safe. -/
def UsesSafe (log : List (Event ι)) : Prop :=
  ∀ before p after, log = before ++ .use p :: after → SafeUse before p

omit [DecidableEq ι] in
/-- The events up to one of them. -/
theorem append_eq_append_cons {before after : List (Event ι)} {e' : Event ι}
    (h : log ++ [e] = before ++ e' :: after) :
    (log = before ∧ e = e') ∨ ∃ after', log = before ++ e' :: after' := by
  rcases List.eq_nil_or_concat after with rfl | ⟨after', last, rfl⟩
  · obtain ⟨hlog, he⟩ := List.append_inj' h rfl
    exact .inl ⟨hlog, List.head_eq_of_cons_eq he⟩
  · rw [List.concat_eq_append, ← List.cons_append, ← List.append_assoc] at h
    exact .inr ⟨after', (List.append_inj' h rfl).1⟩

theorem UsesSafe.nil : UsesSafe ([] : List (Event ι)) :=
  fun _ _ _ h => absurd (List.nil_eq_append_iff.mp h).2 (List.cons_ne_nil _ _)

/-- One more event, which is no use or a safe one. -/
theorem UsesSafe.append (h : UsesSafe log) (he : ∀ p, e = .use p → SafeUse log p) :
    UsesSafe (log ++ [e]) := by
  intro before p after heq
  rcases append_eq_append_cons heq with ⟨rfl, hp⟩ | ⟨after', hlog⟩
  · exact he p hp
  · exact h before p after' hlog

/-- What is not safe does not become so. -/
theorem UsesSafe.of_append (h : UsesSafe (log ++ [e])) : UsesSafe log := by
  rintro before p after rfl
  exact h before p (after ++ [e]) (by rw [List.append_assoc, List.cons_append])

theorem UsesSafe.take (h : UsesSafe log) (n : ℕ) : UsesSafe (log.take n) := by
  intro before p after heq
  refine h before p (after ++ log.drop n) ?_
  rw [← List.cons_append, ← List.append_assoc, ← heq, List.take_append_drop]

/-- **A use that is not safe**: of a page that is not pinned, after a frame has
been asked for. -/
theorem not_usesSafe_use (hsince : p.since ≤ log.length) {e' : Event ι} (he : e' ∈ log.drop p.since)
    (htakes : e'.TakesFrame) (hpin : pinCount log p.page = 0) : ¬ UsesSafe (log ++ [.use p]) := by
  intro h
  rcases h log p [] rfl with hfresh | hpinned
  · exact hfresh e' he htakes
  · have hone := hpinned log.length hsince le_rfl
    rw [List.take_length] at hone
    omega

/-- No frame has been asked for since a pointer was handed out. -/
def Fresh (log : List (Event ι)) (p : Pointer ι) : Prop :=
  p.since ≤ log.length ∧ ∀ e ∈ log.drop p.since, ¬ e.TakesFrame

/-- The page has been pinned since then. -/
def Pinned (log : List (Event ι)) (p : Pointer ι) : Prop :=
  p.since ≤ log.length ∧ ∀ n, p.since ≤ n → n ≤ log.length → 1 ≤ pinCount (log.take n) p.page

omit [DecidableEq ι] in
theorem fresh_now : Fresh log ⟨q, log.length⟩ :=
  ⟨le_rfl, by simp⟩

omit [DecidableEq ι] in
/-- A page has just been fetched. -/
theorem fresh_fetch : Fresh (log ++ [.fetch q]) ⟨q, log.length + 1⟩ :=
  ⟨by simp, by simp⟩

omit [DecidableEq ι] in
theorem Fresh.append (h : Fresh log p) (he : ¬ e.TakesFrame) : Fresh (log ++ [e]) p := by
  refine ⟨h.1.trans (by simp), fun e' he' => ?_⟩
  rw [List.drop_append_of_le_length h.1, List.mem_append, List.mem_singleton] at he'
  rcases he' with he' | rfl
  · exact h.2 e' he'
  · exact he

theorem pinned_now (h : 1 ≤ pinCount log q) : Pinned log ⟨q, log.length⟩ := by
  refine ⟨le_rfl, fun n hn hn' => ?_⟩
  rw [List.take_of_length_le hn]
  exact h

theorem Pinned.append (h : Pinned log p) (he : 1 ≤ pinCount (log ++ [e]) p.page) :
    Pinned (log ++ [e]) p := by
  refine ⟨h.1.trans (by simp), fun n hn hn' => ?_⟩
  rcases Nat.lt_or_ge log.length n with hlt | hle
  · rw [List.take_of_length_le (by rw [List.length_append]; exact hlt)]
    exact he
  · rw [List.take_append_of_le_length hle]
    exact h.2 n hn hle

theorem Pinned.one_le (h : Pinned log p) : 1 ≤ pinCount log p.page := by
  have hlast := h.2 log.length h.1 le_rfl
  rwa [List.take_length] at hlast

theorem Pinned.fetch (h : Pinned log p) : Pinned (log ++ [.fetch q]) p := by
  refine h.append ?_
  have hone := h.one_le
  rw [pinCount_append, Event.pins]
  by_cases hq : p.page = q
  · rw [hq, Function.update_self]
    omega
  · rwa [Function.update_of_ne hq]

theorem Pinned.use {p' : Pointer ι} (h : Pinned log p) : Pinned (log ++ [.use p']) p := by
  refine h.append ?_
  rw [pinCount_append]
  exact h.one_le

theorem Pinned.unpin_of_ne (h : Pinned log p) (hq : p.page ≠ q) : Pinned (log ++ [.unpin q]) p := by
  refine h.append ?_
  rw [pinCount_append, Event.pins, Function.update_of_ne hq]
  exact h.one_le

/-! ## Pools -/

/-- **A pool that evicts unpinned pages alone**: what the frames hold after each
number of events. A frame keeps its page, unless a frame is asked for while the
page is not pinned, or the page is deleted. -/
def EvictsUnpinned {F : Type} (log : List (Event ι)) (frames : ℕ → F → Option ι) : Prop :=
  ∀ n e, log[n]? = some e → ∀ f q, frames n f = some q →
    frames (n + 1) f = some q ∨ (e.TakesFrame ∧ pinCount (log.take n) q = 0) ∨ e = .delete q

/-- **The page is still there** when a pointer to its frame is used safely. -/
theorem SafeUse.resident {F : Type} {frames : ℕ → F → Option ι} {f : F} {after : List (Event ι)}
    (h : SafeUse log p) (hevict : EvictsUnpinned (log ++ after) frames)
    (hdelete : .delete p.page ∉ log) (hsince : p.since ≤ log.length)
    (hf : frames p.since f = some p.page) : frames log.length f = some p.page := by
  have hall : ∀ n, p.since ≤ n → n ≤ log.length → frames n f = some p.page := by
    intro n hn
    induction n, hn using Nat.le_induction with
    | base => exact fun _ => hf
    | succ n hn ih =>
      intro hlt
      have hget : (log ++ after)[n]? = some log[n] := by
        rw [List.getElem?_append_left hlt, List.getElem?_eq_getElem hlt]
      rcases hevict n _ hget f p.page (ih (Nat.le_of_lt hlt)) with hkeep | ⟨htakes, hpin⟩ | hdel
      · exact hkeep
      · exfalso
        rcases h with hfresh | hpinned
        · refine hfresh _ ?_ htakes
          exact List.mem_drop_iff_getElem.mpr ⟨n - p.since, by omega, by congr 1; omega⟩
        · have hone := hpinned n hn (Nat.le_of_lt hlt)
          rw [List.take_append_of_le_length (Nat.le_of_lt hlt)] at hpin
          omega
      · exact absurd (hdel ▸ List.getElem_mem hlt) hdelete
  exact hall _ hsince le_rfl

/-- **Every use finds its page**, in every pool that evicts unpinned pages
alone. -/
def UsesFind (log : List (Event ι)) : Prop :=
  ∀ (F : Type) (frames : ℕ → F → Option ι), EvictsUnpinned log frames → ∀ before p after f,
    log = before ++ .use p :: after → frames p.since f = some p.page →
      frames before.length f = some p.page

/-- Events that do no harm: every use is safe, of a pointer that has been handed
out, and no page is deleted. -/
structure Clean (log : List (Event ι)) : Prop where
  safe : UsesSafe log
  since : ∀ before p after, log = before ++ .use p :: after → p.since ≤ before.length
  kept : ∀ q, .delete q ∉ log

theorem Clean.nil : Clean ([] : List (Event ι)) where
  safe := UsesSafe.nil
  since _ _ _ h := absurd (List.nil_eq_append_iff.mp h).2 (List.cons_ne_nil _ _)
  kept _ := List.not_mem_nil

/-- One more event, which is a safe use, a call for a page or an unpin. -/
theorem Clean.append (h : Clean log) (he : ∀ p, e = .use p → SafeUse log p ∧ p.since ≤ log.length)
    (hdelete : ∀ q, e ≠ .delete q) : Clean (log ++ [e]) where
  safe := h.safe.append (fun p hp => (he p hp).1)
  since before p after heq := by
    rcases append_eq_append_cons heq with ⟨rfl, hp⟩ | ⟨after', hlog⟩
    · exact (he p hp).2
    · exact h.since before p after' hlog
  kept q hq := by
    rcases List.mem_append.mp hq with hq | hq
    · exact h.kept q hq
    · exact hdelete q (List.mem_singleton.mp hq).symm

theorem Clean.fetch (h : Clean log) : Clean (log ++ [.fetch q]) := h.append nofun nofun

theorem Clean.new (h : Clean log) : Clean (log ++ [.new q]) := h.append nofun nofun

theorem Clean.unpin (h : Clean log) : Clean (log ++ [.unpin q]) := h.append nofun nofun

/-- A pointer that has just been handed out is used. -/
theorem Clean.use_fresh (h : Clean log) (hp : Fresh log p) : Clean (log ++ [.use p]) := by
  refine h.append ?_ nofun
  rintro _ ⟨⟩
  exact ⟨.inl hp.2, hp.1⟩

/-- So is one to a pinned page. -/
theorem Clean.use_pinned (h : Clean log) (hp : Pinned log p) : Clean (log ++ [.use p]) := by
  refine h.append ?_ nofun
  rintro _ ⟨⟩
  exact ⟨.inr hp.2, hp.1⟩

theorem Clean.usesFind (h : Clean log) : UsesFind log := by
  intro F frames hevict before p after f heq hf
  subst heq
  refine (h.safe before p after rfl).resident hevict ?_ (h.since before p after rfl) hf
  exact fun hdel => h.kept _ (List.mem_append_left _ hdel)

end

end PoolCalls
