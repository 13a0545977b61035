import Mathlib.Data.List.Basic
import Mathlib.Tactic.Ring
import Mathlib.Tactic.Linarith

/-!
# Bytes and byte-addressed memory

Thirty-two bit words as four little-endian bytes, and a memory of bytes with
the two ways in which a program copies into it: a block of bytes at an
address (`Mem.write`) and a block moved within the memory (`Mem.move`, which
reads its whole source before it writes, as `memmove` does). A word has the
value of its four bytes wherever they are stored.
-/

namespace Bytes

/-- The four little-endian bytes of a number modulo `2 ^ 32`. -/
def le32 (n : ℕ) : List UInt8 :=
  [UInt8.ofNat n, UInt8.ofNat (n / 256), UInt8.ofNat (n / 65536), UInt8.ofNat (n / 16777216)]

/-- The number that four little-endian bytes stand for. -/
def ofBytes (b₀ b₁ b₂ b₃ : UInt8) : ℕ :=
  b₀.toNat + 256 * b₁.toNat + 65536 * b₂.toNat + 16777216 * b₃.toNat

/-- The word at the front of a list of bytes, if there are four of them. -/
def read32 : List UInt8 → Option ℕ
  | b₀ :: b₁ :: b₂ :: b₃ :: _ => some (ofBytes b₀ b₁ b₂ b₃)
  | _ => none

@[simp] theorem length_le32 (n : ℕ) : (le32 n).length = 4 := rfl

theorem ofBytes_lt (b₀ b₁ b₂ b₃ : UInt8) : ofBytes b₀ b₁ b₂ b₃ < 2 ^ 32 := by
  have h₀ := b₀.toNat_lt
  have h₁ := b₁.toNat_lt
  have h₂ := b₂.toNat_lt
  have h₃ := b₃.toNat_lt
  unfold ofBytes
  omega

theorem ofBytes_le32 (n : ℕ) :
    ofBytes (UInt8.ofNat n) (UInt8.ofNat (n / 256)) (UInt8.ofNat (n / 65536))
      (UInt8.ofNat (n / 16777216)) = n % 2 ^ 32 := by
  simp only [ofBytes, UInt8.toNat_ofNat']
  omega

/-- The bytes of the number that four bytes stand for are these bytes. -/
theorem le32_ofBytes (b₀ b₁ b₂ b₃ : UInt8) : le32 (ofBytes b₀ b₁ b₂ b₃) = [b₀, b₁, b₂, b₃] := by
  have h₀ := b₀.toNat_lt
  have h₁ := b₁.toNat_lt
  have h₂ := b₂.toNat_lt
  have h₃ := b₃.toNat_lt
  have hbyte : ∀ n (b : UInt8), n % 256 = b.toNat → UInt8.ofNat n = b := fun n b hb =>
    UInt8.toNat_inj.mp (UInt8.toNat_ofNat'.trans hb)
  rw [le32, hbyte _ b₀ (by unfold ofBytes; omega), hbyte _ b₁ (by unfold ofBytes; omega),
    hbyte _ b₂ (by unfold ofBytes; omega), hbyte _ b₃ (by unfold ofBytes; omega)]

/-- A word is read back from its four bytes, whatever follows them. -/
theorem read32_le32_append (n : ℕ) (rest : List UInt8) :
    read32 (le32 n ++ rest) = some (n % 2 ^ 32) := by
  show some (ofBytes _ _ _ _) = _
  rw [ofBytes_le32]

/-! ## Memory -/

/-- A memory of bytes. -/
abbrev Mem := ℕ → UInt8

namespace Mem

/-- The `n` bytes from address `a` on. -/
def bytes (m : Mem) (a n : ℕ) : List UInt8 := (List.range n).map (fun i => m (a + i))

/-- Copy a block of bytes to address `a`. -/
def write (m : Mem) (a : ℕ) (bs : List UInt8) : Mem :=
  fun i => if a ≤ i ∧ i < a + bs.length then bs.getD (i - a) 0 else m i

/-- `memmove`: copy `n` bytes within the memory, from the memory as it was. -/
def move (m : Mem) (dst src n : ℕ) : Mem :=
  fun i => if dst ≤ i ∧ i < dst + n then m (src + (i - dst)) else m i

/-- The word at address `a`. -/
def read32 (m : Mem) (a : ℕ) : ℕ := ofBytes (m a) (m (a + 1)) (m (a + 2)) (m (a + 3))

/-- Store a word at address `a`. -/
def write32 (m : Mem) (a n : ℕ) : Mem := m.write a (le32 n)

variable {m m' : Mem} {a b n : ℕ}

@[simp] theorem length_bytes : (m.bytes a n).length = n := by
  rw [bytes, List.length_map, List.length_range]

theorem bytes_zero : m.bytes a 0 = [] := rfl

/-- Bytes that are the same at two places. -/
theorem bytes_congr (h : ∀ i < n, m (a + i) = m' (b + i)) : m.bytes a n = m'.bytes b n :=
  List.map_congr_left (fun i hi => h i (List.mem_range.mp hi))

/-- The bytes of two places that are the same. -/
theorem eq_of_bytes_eq (h : m.bytes a n = m'.bytes b n) {i : ℕ} (hi : i < n) :
    m (a + i) = m' (b + i) :=
  List.map_inj_left.mp h i (List.mem_range.mpr hi)

theorem read32_lt : m.read32 a < 2 ^ 32 := ofBytes_lt _ _ _ _

theorem read32_congr (h : ∀ i, a ≤ i → i < a + 4 → m i = m' i) : m.read32 a = m'.read32 a := by
  unfold read32
  rw [h a (by omega) (by omega), h (a + 1) (by omega) (by omega), h (a + 2) (by omega) (by omega),
    h (a + 3) (by omega) (by omega)]

/-- A write changes no byte outside its block. -/
theorem write_of_not {bs : List UInt8} {i : ℕ} (h : i < a ∨ a + bs.length ≤ i) :
    m.write a bs i = m i :=
  if_neg (by omega)

/-- The block that has been written is read back. -/
theorem bytes_write (bs : List UInt8) : (m.write a bs).bytes a bs.length = bs := by
  refine List.ext_getElem length_bytes (fun i h₁ h₂ => ?_)
  have hin : a ≤ a + i ∧ a + i < a + bs.length := by omega
  simp only [bytes, List.getElem_map, List.getElem_range]
  rw [write, if_pos hin, Nat.add_sub_cancel_left, ← List.getElem_eq_getD]

theorem move_of_not {i dst src : ℕ} (h : i < dst ∨ dst + n ≤ i) : m.move dst src n i = m i :=
  if_neg (by omega)

theorem move_of_mem {i dst src : ℕ} (h : dst ≤ i) (h' : i < dst + n) :
    m.move dst src n i = m (src + (i - dst)) :=
  if_pos ⟨h, h'⟩

theorem write32_of_not {v i : ℕ} (h : i < a ∨ a + 4 ≤ i) : m.write32 a v i = m i :=
  write_of_not h

/-- A word is read back as a number modulo `2 ^ 32`. -/
theorem read32_write32 (v : ℕ) : (m.write32 a v).read32 a = v % 2 ^ 32 := by
  have hbyte : ∀ i < 4, m.write32 a v (a + i) = (le32 v).getD i 0 := fun i hi => by
    rw [write32, write, if_pos ⟨by omega, by rw [length_le32]; omega⟩, Nat.add_sub_cancel_left]
  have h₀ := hbyte 0 (by omega)
  rw [Nat.add_zero] at h₀
  rw [read32, h₀, hbyte 1 (by omega), hbyte 2 (by omega), hbyte 3 (by omega)]
  exact ofBytes_le32 v

/-- Storing the word that is there changes nothing. -/
theorem write32_read32 : m.write32 a (m.read32 a) = m := by
  funext i
  rw [write32, read32, le32_ofBytes]
  by_cases hi : a ≤ i ∧ i < a + 4
  · have hcases : i = a ∨ i = a + 1 ∨ i = a + 2 ∨ i = a + 3 := by omega
    show (if a ≤ i ∧ i < a + 4 then [m a, m (a + 1), m (a + 2), m (a + 3)].getD (i - a) 0
      else m i) = m i
    rw [if_pos hi]
    rcases hcases with rfl | rfl | rfl | rfl
    · rw [Nat.sub_self]
      rfl
    all_goals
      rw [Nat.add_sub_cancel_left]
      rfl
  · exact write_of_not (by
      show i < a ∨ a + 4 ≤ i
      omega)

/-- A word outside a block that is written or moved to is kept. -/
theorem read32_write_of_disjoint {bs : List UInt8} (h : a + 4 ≤ b ∨ b + bs.length ≤ a) :
    (m.write b bs).read32 a = m.read32 a :=
  read32_congr (fun _ _ _ => write_of_not (by omega))

theorem read32_move_of_disjoint {dst src : ℕ} (h : a + 4 ≤ dst ∨ dst + n ≤ a) :
    (m.move dst src n).read32 a = m.read32 a :=
  read32_congr (fun _ _ _ => move_of_not (by omega))

/-- A word elsewhere is kept. -/
theorem read32_write32_of_disjoint {v : ℕ} (h : a + 4 ≤ b ∨ b + 4 ≤ a) :
    (m.write32 b v).read32 a = m.read32 a :=
  read32_congr (fun _ _ _ => write32_of_not (by omega))

end Mem

end Bytes
