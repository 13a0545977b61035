import MiniSql.Bytes
import Mathlib.Data.List.TakeWhile

/-!
# Formats that are written and read through a moving pointer

Code that stores a record byte by byte advances a pointer: each statement puts
some bytes where the pointer stands and moves it on, also over bytes that it
leaves as they are. `Writer` is such code and `Reader` its counterpart that
takes values from the memory instead.

`Moves w n` says that the writer moves the pointer by `n` and touches nothing
outside these `n` bytes, and `ReadsBack w r a n` that besides, wherever these
bytes are found again, the reader gives `a` and moves the pointer by `n` too.
Both are shown for the elementary words, bytes and strings, and they are kept
by doing one after the other (`ReadsBack.bind`) and by loops
(`ReadsBack.putAll`), so that what holds of a record is read off the
statements of its code.
-/

namespace Serial

open Bytes

/-- A memory and the pointer into it. -/
structure Cursor where
  /-- The bytes. -/
  mem : Mem
  /-- Where the pointer stands. -/
  pos : ℕ

/-- Code that stores something at the pointer and moves it on. -/
abbrev Writer := StateM Cursor PUnit

/-- Code that takes a value from the bytes at the pointer and moves it on;
without a result where the code gives up on them. -/
abbrev Reader := ReaderT Mem (StateT ℕ Option)

/-- The cursor behind what a writer has stored. -/
def Writer.after (w : Writer) (c : Cursor) : Cursor := (w c).2

/-! ## The elementary writers and readers -/

/-- Store bytes and move behind them. -/
def putBytes (bs : List UInt8) : Writer := fun c => (⟨⟩, ⟨c.mem.write c.pos bs, c.pos + bs.length⟩)

/-- Store a 32-bit word. -/
def putUInt32 (v : ℕ) : Writer := putBytes (le32 v)

/-- Store a signed 32-bit word in two's complement. -/
def putInt32 (z : ℤ) : Writer := putUInt32 (z % 2 ^ 32).toNat

/-- Store one byte. -/
def putByte (b : UInt8) : Writer := putBytes [b]

/-- Move over bytes without storing anything. -/
def skip (n : ℕ) : Writer := fun c => (⟨⟩, ⟨c.mem, c.pos + n⟩)

/-- Take a 32-bit word. -/
def getUInt32 : Reader ℕ := fun m p => some (m.read32 p, p + 4)

/-- The number that a 32-bit word stands for in two's complement. -/
def asInt32 (n : ℕ) : ℤ := if n < 2 ^ 31 then n else n - 2 ^ 32

/-- Take a signed 32-bit word. -/
def getInt32 : Reader ℤ := fun m p => some (asInt32 (m.read32 p), p + 4)

/-- Take one byte. -/
def getByte : Reader UInt8 := fun m p => some (m p, p + 1)

/-- Take bytes as a string that ends at the first zero among them. -/
def getString (n : ℕ) : Reader (List UInt8) :=
  fun m p => some ((m.bytes p n).takeWhile (· ≠ 0), p + n)

/-- Move over bytes without looking at them. -/
def pass (n : ℕ) : Reader PUnit := fun _ p => some (⟨⟩, p + n)

/-- Give up where there is no value. -/
def lift {α : Type} (v : Option α) : Reader α := fun _ p => v.map (·, p)

/-! ## Loops -/

variable {α β : Type}

/-- Store the elements of a list one after the other. -/
def putAll (w : α → Writer) : List α → Writer
  | [] => pure ⟨⟩
  | a :: as => do
    w a
    putAll w as

/-- Take a number of values one after the other. -/
def getMany (r : Reader α) : ℕ → Reader (List α)
  | 0 => pure []
  | n + 1 => do
    let a ← r
    let as ← getMany r n
    pure (a :: as)

/-! ## Formats -/

/-- **A writer of `n` bytes**: it moves the pointer by `n` and leaves every
byte outside these `n` as it is. -/
structure Moves (w : Writer) (n : ℕ) : Prop where
  /-- The pointer moves by `n`. -/
  pos : ∀ c, (w.after c).pos = c.pos + n
  /-- The other bytes are kept. -/
  frame : ∀ c i, i < c.pos ∨ c.pos + n ≤ i → (w.after c).mem i = c.mem i

/-- **A format**: from the bytes of the writer, wherever they are found, the
reader takes `a` and moves behind them. -/
structure ReadsBack (w : Writer) (r : Reader α) (a : α) (n : ℕ) : Prop extends Moves w n where
  /-- The reader finds the value in the bytes. -/
  back : ∀ c m, (∀ i, c.pos ≤ i → i < c.pos + n → m i = (w.after c).mem i) →
    r m c.pos = some (a, c.pos + n)

variable {w w' : Writer} {a : α} {b : β} {n k : ℕ}

/-- The number of bytes may be written in another way. -/
theorem Moves.of_eq (h : Moves w n) (hn : n = k) : Moves w k := hn ▸ h

theorem ReadsBack.of_eq {r : Reader α} (h : ReadsBack w r a n) (hn : n = k) :
    ReadsBack w r a k := hn ▸ h

/-- What a format stores at the start of a memory is read back from there. -/
theorem ReadsBack.read {r : Reader α} (h : ReadsBack w r a n) (m : Mem) :
    r (w.after ⟨m, 0⟩).mem 0 = some (a, n) := by
  have hback := h.back ⟨m, 0⟩ (w.after ⟨m, 0⟩).mem (fun _ _ _ => rfl)
  rwa [Nat.zero_add] at hback

theorem Moves.pure : Moves (pure ⟨⟩) 0 where
  pos _ := rfl
  frame _ _ _ := rfl

theorem ReadsBack.pure (a : α) : ReadsBack (pure ⟨⟩) (Pure.pure a : Reader α) a 0 where
  toMoves := .pure
  back _ _ _ := rfl

theorem Moves.bind (h : Moves w n) (h' : Moves w' k) : Moves (w >>= fun _ => w') (n + k) where
  pos c := by
    show (w'.after (w.after c)).pos = _
    rw [h'.pos, h.pos, Nat.add_assoc]
  frame c i hi := by
    show (w'.after (w.after c)).mem i = _
    have hpos : (w.after c).pos = c.pos + n := h.pos c
    rw [h'.frame _ i (by rw [hpos]; omega), h.frame c i (by omega)]

/-- **One format after the other**, the second one read with what the first
one gave. -/
theorem ReadsBack.bind {r : Reader α} {r' : α → Reader β} (h : ReadsBack w r a n)
    (h' : ReadsBack w' (r' a) b k) : ReadsBack (w >>= fun _ => w') (r >>= r') b (n + k) where
  toMoves := h.toMoves.bind h'.toMoves
  back c m hm := by
    have hpos := h.pos c
    have hfirst : r m c.pos = some (a, c.pos + n) := h.back c m (fun i h₁ h₂ => by
      rw [hm i h₁ (by omega)]
      exact h'.frame (w.after c) i (.inl (by rw [hpos]; exact h₂)))
    have hsecond : r' a m (w.after c).pos = some (b, (w.after c).pos + k) :=
      h'.back _ m (fun i h₁ h₂ => hm i (by omega) (by rw [hpos] at h₂; omega))
    show (r m c.pos).bind (fun x => r' x.1 m x.2) = _
    rw [hfirst, Option.bind_some, ← Nat.add_assoc]
    rw [hpos] at hsecond
    exact hsecond

/-- A format whose value is built from what the reader gives. -/
theorem ReadsBack.map {r : Reader α} (h : ReadsBack w r a n) (f : α → β) :
    ReadsBack w (r >>= fun x => Pure.pure (f x)) (f a) n where
  toMoves := h.toMoves
  back c m hm := by
    show (r m c.pos).bind (fun x => some (f x.1, x.2)) = _
    rw [h.back c m hm]
    rfl

/-- A format whose value may be refused by what is built from it. -/
theorem ReadsBack.lift {r : Reader α} {f : α → Option β} (h : ReadsBack w r a n)
    (hf : f a = some b) : ReadsBack w (r >>= fun x => Serial.lift (f x)) b n where
  toMoves := h.toMoves
  back c m hm := by
    show (r m c.pos).bind (fun x => (f x.1).map (·, x.2)) = _
    rw [h.back c m hm, Option.bind_some, hf]
    rfl

theorem Moves.putAll {w : α → Writer} {size : α → ℕ} {as : List α}
    (h : ∀ x ∈ as, Moves (w x) (size x)) : Moves (putAll w as) (as.map size).sum := by
  induction as with
  | nil => exact .pure
  | cons x as ih =>
    rw [List.map_cons, List.sum_cons]
    exact (h x List.mem_cons_self).bind (ih (fun y hy => h y (List.mem_cons_of_mem x hy)))

/-- **Loops.** Where each element of a list is read back as something, the
list is read back as the list of these. -/
theorem ReadsBack.putAll {w : α → Writer} {r : Reader β} {f : α → β} {size : α → ℕ} {as : List α}
    (h : ∀ x ∈ as, ReadsBack (w x) r (f x) (size x)) :
    ReadsBack (putAll w as) (getMany r as.length) (as.map f) (as.map size).sum := by
  induction as with
  | nil => exact .pure []
  | cons x as ih =>
    have hrest := ih (fun y hy => h y (List.mem_cons_of_mem x hy))
    rw [List.map_cons, List.map_cons, List.sum_cons]
    exact (h x List.mem_cons_self).bind (hrest.map (f x :: ·))

/-! ## A value at one place -/

/-- **A value comes back** from where it is stored: the reader takes it from
the bytes of the writer and moves as far as the writer has. -/
def ComesBack (w : Writer) (r : Reader α) (a : α) (c : Cursor) : Prop :=
  r (w.after c).mem c.pos = some (a, (w.after c).pos)

/-- **A writer spans `n` bytes** from where it starts: it stops behind them
and leaves every other byte as it is. -/
def Spans (w : Writer) (n : ℕ) (c : Cursor) : Prop :=
  (w.after c).pos = c.pos + n ∧ ∀ i, i < c.pos ∨ c.pos + n ≤ i → (w.after c).mem i = c.mem i

theorem ReadsBack.comesBack {r : Reader α} (h : ReadsBack w r a n) (c : Cursor) :
    ComesBack w r a c := by
  unfold ComesBack
  rw [h.pos c]
  exact h.back c _ (fun _ _ _ => rfl)

/-- A writer of `n` bytes spans these and no other number of bytes. -/
theorem Moves.spans_iff (h : Moves w n) (c : Cursor) : Spans w k c ↔ k = n := by
  refine ⟨fun hspans => ?_, fun heq => heq ▸ ⟨h.pos c, h.frame c⟩⟩
  have hpos := hspans.1
  rw [h.pos c] at hpos
  omega

/-! ## What a reader can give -/

/-- Whatever the bytes are, the value that a reader gives satisfies a
predicate. -/
def Gives (r : Reader α) (P : α → Prop) : Prop := ∀ m p a q, r m p = some (a, q) → P a

/-- **One reader after the other**, the second one with what the first one
gave. -/
theorem Gives.bind {r : Reader α} {r' : α → Reader β} {P : α → Prop} {Q : β → Prop}
    (h : Gives r P) (h' : ∀ a, P a → Gives (r' a) Q) : Gives (r >>= r') Q := by
  intro m p b q hrun
  obtain ⟨⟨a, p'⟩, hr, hr'⟩ := Option.bind_eq_some_iff.mp hrun
  exact h' a (h m p a p' hr) m p' b q hr'

theorem Gives.pure {P : α → Prop} (h : P a) : Gives (Pure.pure a : Reader α) P := by
  intro m p b q hrun
  obtain ⟨rfl, -⟩ := Prod.mk.inj (Option.some.inj hrun)
  exact h

theorem Gives.lift {v : Option α} {P : α → Prop} (h : ∀ a, v = some a → P a) :
    Gives (Serial.lift v) P := by
  intro m p b q hrun
  obtain ⟨a, hv, heq⟩ := Option.map_eq_some_iff.mp hrun
  obtain ⟨rfl, -⟩ := Prod.mk.inj heq
  exact h a hv

/-- Nothing is known of the value. -/
theorem gives_true (r : Reader α) : Gives r (fun _ => True) := fun _ _ _ _ _ => trivial

theorem gives_getInt32 : Gives getInt32 (· < 2 ^ 31) := by
  intro m p z q hrun
  obtain ⟨rfl, -⟩ := Prod.mk.inj (Option.some.inj hrun)
  have hword : m.read32 p < 2 ^ 32 := Mem.read32_lt
  show asInt32 (m.read32 p) < 2 ^ 31
  unfold asInt32
  split <;> omega

/-- **Loops** give a list of the length that is asked for. -/
theorem Gives.getMany {r : Reader α} {P : α → Prop} (h : Gives r P) (n : ℕ) :
    Gives (getMany r n) (fun as => as.length = n ∧ ∀ a ∈ as, P a) := by
  induction n with
  | zero => exact Gives.pure ⟨rfl, nofun⟩
  | succ n ih =>
    refine h.bind (fun a ha => ih.bind (fun as has => Gives.pure ⟨?_, ?_⟩))
    · rw [List.length_cons, has.1]
    · exact List.forall_mem_cons.mpr ⟨ha, has.2⟩

/-! ## What a writer tells a reader -/

variable {P : α → Prop} {Q : β → Prop}

/-- **What is read**, if anything is, from the bytes of a writer. -/
structure Tells (w : Writer) (r : Reader α) (P : α → Prop) (n : ℕ) : Prop extends Moves w n where
  /-- The value that the reader finds in the bytes has the property. -/
  tells : ∀ c m, (∀ i, c.pos ≤ i → i < c.pos + n → m i = (w.after c).mem i) →
    ∀ a q, r m c.pos = some (a, q) → P a

/-- A reader that has all that it needs. -/
theorem Gives.tells {r : Reader α} (h : Gives r P) (hw : Moves w n) : Tells w r P n where
  toMoves := hw
  tells _ m _ a q hr := h m _ a q hr

/-- A format before what is told. -/
theorem ReadsBack.bind_tells {r : Reader α} {r' : α → Reader β} (h : ReadsBack w r a n)
    (h' : Tells w' (r' a) Q k) : Tells (w >>= fun _ => w') (r >>= r') Q (n + k) where
  toMoves := h.toMoves.bind h'.toMoves
  tells c m hm b q hr := by
    have hpos := h.pos c
    have hfirst : r m c.pos = some (a, c.pos + n) := h.back c m (fun i h₁ h₂ => by
      rw [hm i h₁ (by omega)]
      exact h'.frame (w.after c) i (.inl (by rw [hpos]; exact h₂)))
    obtain ⟨⟨a', p⟩, hr₁, hr₂⟩ := Option.bind_eq_some_iff.mp hr
    cases hfirst.symm.trans hr₁
    refine h'.tells (w.after c) m
      (fun i h₁ h₂ => hm i (by omega) (by rw [hpos] at h₂; omega)) b q ?_
    rw [hpos]
    exact hr₂

/-! ## The elementary formats -/

theorem moves_putBytes (bs : List UInt8) : Moves (putBytes bs) bs.length where
  pos _ := rfl
  frame _ _ hi := Mem.write_of_not hi

theorem moves_putUInt32 (v : ℕ) : Moves (putUInt32 v) 4 := moves_putBytes (le32 v)

theorem moves_putInt32 (z : ℤ) : Moves (putInt32 z) 4 := moves_putUInt32 _

theorem moves_putByte (b : UInt8) : Moves (putByte b) 1 := moves_putBytes [b]

theorem moves_skip (n : ℕ) : Moves (skip n) n where
  pos _ := rfl
  frame _ _ _ := rfl

/-- Bytes are read back by a reader that looks at nothing else. -/
theorem readsBack_putBytes {r : Reader α} {bs : List UInt8}
    (h : ∀ m p, m.bytes p bs.length = bs → r m p = some (a, p + bs.length)) :
    ReadsBack (putBytes bs) r a bs.length where
  toMoves := moves_putBytes bs
  back c m hm := by
    refine h m c.pos (Eq.trans ?_ (Mem.bytes_write (m := c.mem) (a := c.pos) bs))
    exact Mem.bytes_congr (fun i hi => hm _ (Nat.le_add_right _ _) (by omega))

/-- A word is read from its four bytes. -/
theorem read32_of_bytes {m : Mem} {p v : ℕ} (h : m.bytes p 4 = le32 v) :
    m.read32 p = v % 2 ^ 32 := by
  have hwritten : (m.write32 p v).bytes p 4 = le32 v := Mem.bytes_write (le32 v)
  rw [← Mem.read32_write32 (m := m) (a := p) v]
  refine Mem.read32_congr (fun i h₁ h₂ => ?_)
  have hsame := Mem.eq_of_bytes_eq (h.trans hwritten.symm) (i := i - p) (by omega)
  rwa [Nat.add_sub_cancel' h₁] at hsame

/-- A number comes back as the word that it has been stored in. -/
theorem readsBack_putUInt32_mod (v : ℕ) :
    ReadsBack (putUInt32 v) getUInt32 (v % 2 ^ 32) 4 :=
  readsBack_putBytes (fun m p hm => by
    show some (m.read32 p, _) = _
    rw [read32_of_bytes hm]
    rfl)

theorem readsBack_putUInt32 {v : ℕ} (h : v < 2 ^ 32) : ReadsBack (putUInt32 v) getUInt32 v 4 := by
  have hmod := readsBack_putUInt32_mod v
  rwa [Nat.mod_eq_of_lt h] at hmod

theorem asInt32_mod {z : ℤ} (h : -2 ^ 31 ≤ z) (h' : z < 2 ^ 31) :
    asInt32 ((z % 2 ^ 32).toNat % 2 ^ 32) = z := by
  unfold asInt32
  split <;> omega

theorem readsBack_putInt32 {z : ℤ} (h : -2 ^ 31 ≤ z) (h' : z < 2 ^ 31) :
    ReadsBack (putInt32 z) getInt32 z 4 :=
  readsBack_putBytes (fun m p hm => by
    show some (asInt32 (m.read32 p), _) = _
    rw [read32_of_bytes hm, asInt32_mod h h']
    rfl)

theorem readsBack_putByte (b : UInt8) : ReadsBack (putByte b) getByte b 1 :=
  readsBack_putBytes (fun m p hm => by
    have hb : m p = b := List.head_eq_of_cons_eq (hm : [m (p + 0)] = [b])
    show some (m p, _) = _
    rw [hb]
    rfl)

/-- A string is read back if it has no zero in it. -/
theorem readsBack_putString {s : List UInt8} (h : (0 : UInt8) ∉ s) :
    ReadsBack (putBytes s) (getString s.length) s s.length :=
  readsBack_putBytes (fun m p hm => by
    have hall : s.takeWhile (· ≠ 0) = s := List.takeWhile_eq_self_iff.mpr (fun x hx =>
      decide_eq_true (fun h0 : x = 0 => h (h0 ▸ hx)))
    show some ((m.bytes p s.length).takeWhile (· ≠ 0), _) = _
    rw [hm, hall])

theorem readsBack_skip (n : ℕ) : ReadsBack (skip n) (pass n) ⟨⟩ n where
  toMoves := moves_skip n
  back _ _ _ := rfl

end Serial
