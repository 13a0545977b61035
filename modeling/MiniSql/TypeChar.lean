import MiniSql.Bytes
import MiniSql.CompareOperator

/-!
# The text of a `CHAR` field

`Type::GetData` and the comparisons of `TypeChar` in `record/types.cpp`. A
`CHAR` field has its bytes in memory of its own, with no zero behind them, and
`GetData` copies from there with `strcpy`: what it gives is the bytes of the
field and of the memory behind it, up to the first one that is neither a letter
nor a digit.

It gives them in a static buffer, which is the same for both operands of a
comparison. So `memcmp` compares the buffer with itself, and what is left of the
comparison is that of the two lengths (`compareBy_chars`).
-/

namespace MiniSql

open Bytes

namespace TypeChar

/-- The size of the static buffer of `Type::GetData`. -/
def bufSize : ℕ := 128

/-- What `Type::GetData` keeps: letters and digits. -/
def isAlnum (b : UInt8) : Bool :=
  (97 ≤ b && b ≤ 122) || (65 ≤ b && b ≤ 90) || (48 ≤ b && b ≤ 57)

/-- `strcpy` into the buffer; stuck where the string does not end in time. -/
def strcpy (buf src : Mem) : Option Mem :=
  ((List.range bufSize).find? (fun i => src i = 0)).map
    (fun n => fun i => if i ≤ n then src i else buf i)

/-- The loop of `Type::GetData`: the first byte that is not kept ends the
string. -/
def cut (buf : Mem) : Mem :=
  match (List.range bufSize).find? (fun i => !isAlnum (buf i)) with
  | none => buf
  | some i => Function.update buf i 0

/-- `Type::GetData`, of the string at a place: what it leaves in the buffer. -/
def getData (buf chars : Mem) : Option Mem := (strcpy buf chars).map cut

/-- `memcmp`. -/
def memcmp : List UInt8 → List UInt8 → ℤ
  | b :: bs, c :: cs => if b = c then memcmp bs cs else b.toNat - c.toNat
  | _, _ => 0

/-- `CompareStrings`, of two strings in the buffer. The lengths become `int`s,
and the assertions are that these are not negative. -/
def compareStrings (str₁ : Mem) (len₁ : ℕ) (str₂ : Mem) (len₂ : ℕ) : Option ℤ :=
  if len₁ < 2 ^ 31 ∧ len₂ < 2 ^ 31 ∧ min len₁ len₂ ≤ bufSize then
    let ret := memcmp (str₁.bytes 0 (min len₁ len₂)) (str₂.bytes 0 (min len₁ len₂))
    some (if ret = 0 ∧ len₁ ≠ len₂ then len₁ - len₂ else ret)
  else none

/-- What a comparison finds: the buffer, the memory from the bytes of each
operand on, and for which of the operands `GetData` is called first. -/
structure Memory where
  /-- `buf` -/
  buf : Mem
  /-- The memory around the bytes of the left operand. -/
  left : Mem
  /-- The memory around the bytes of the right operand. -/
  right : Mem
  /-- The order in which the arguments of `CompareStrings` are evaluated. -/
  rightFirst : Bool

/-- The comparisons of `TypeChar`, each for its own relation. Both calls of
`GetData` give the address of the buffer. -/
def compareBy (rel : ℤ → Bool) (m : Memory) (left right : Field) : Option CmpBool :=
  if left.typeId = .kTypeChar ∧ right.typeId = left.typeId then
    match left, right with
    | .chars a, .chars b => do
      let first := if m.rightFirst then m.right.write 0 b else m.left.write 0 a
      let second := if m.rightFirst then m.left.write 0 a else m.right.write 0 b
      let buf ← getData m.buf first
      let buf ← getData buf second
      return getCmpBool (rel (← compareStrings buf a.length buf b.length))
    | _, _ => some .kNull
  else none

/-- `CompareEquals`. -/
def compareEquals : Memory → Field → Field → Option CmpBool := compareBy (fun ret => ret = 0)

/-- `CompareNotEquals`. -/
def compareNotEquals : Memory → Field → Field → Option CmpBool := compareBy (fun ret => ret ≠ 0)

/-- `CompareLessThan`. -/
def compareLessThan : Memory → Field → Field → Option CmpBool := compareBy (fun ret => ret < 0)

/-- `CompareLessThanEquals`. -/
def compareLessThanEquals : Memory → Field → Field → Option CmpBool :=
  compareBy (fun ret => ret ≤ 0)

/-- `CompareGreaterThan`. -/
def compareGreaterThan : Memory → Field → Field → Option CmpBool := compareBy (fun ret => ret > 0)

/-- `CompareGreaterThanEquals`. -/
def compareGreaterThanEquals : Memory → Field → Field → Option CmpBool :=
  compareBy (fun ret => ret ≥ 0)

/-! ## What is compared -/

/-- The string at a place ends within the size of the buffer. -/
def Ends (chars : Mem) : Prop := ∃ i < bufSize, chars i = 0

instance {chars : Mem} : Decidable (Ends chars) := by
  unfold Ends
  infer_instance

/-- `GetData` gives something exactly where the string ends in time. -/
theorem getData_isSome {buf chars : Mem} : (getData buf chars).isSome ↔ Ends chars := by
  rw [getData, strcpy, Option.isSome_map, Option.isSome_map, List.find?_isSome]
  simp only [List.mem_range, decide_eq_true_eq, Ends]

theorem memcmp_self (bs : List UInt8) : memcmp bs bs = 0 := by
  induction bs with
  | nil => rfl
  | cons b bs ih => rw [memcmp, if_pos rfl, ih]

/-- The buffer compared with itself. -/
theorem compareStrings_self {str : Mem} {len₁ len₂ : ℕ} (h₁ : len₁ < bufSize)
    (h₂ : len₂ < bufSize) : compareStrings str len₁ str len₂ = some ((len₁ : ℤ) - len₂) := by
  have hsize : bufSize < 2 ^ 31 := by decide
  rw [compareStrings, if_pos ⟨h₁.trans hsize, h₂.trans hsize, (min_le_left _ _).trans h₁.le⟩]
  refine congrArg some ?_
  rw [memcmp_self]
  by_cases hlen : len₁ = len₂
  · rw [if_neg (fun h => h.2 hlen), hlen, sub_self]
  · rw [if_pos ⟨rfl, hlen⟩]

variable {m : Memory} {a b : List UInt8} {rel : ℤ → Bool}

/-- **A comparison is that of the lengths**, where both strings end in time, and
gets stuck where one does not. -/
theorem compareBy_chars (ha : a.length < bufSize) (hb : b.length < bufSize) :
    compareBy rel m (.chars a) (.chars b) =
      if Ends (m.left.write 0 a) ∧ Ends (m.right.write 0 b) then
        some (getCmpBool (rel ((a.length : ℤ) - b.length)))
      else none := by
  have hboth : ∀ first second : Mem, ((getData m.buf first).bind (fun buf =>
      (getData buf second).bind (fun buf =>
        (compareStrings buf a.length buf b.length).bind
          (fun ret => some (getCmpBool (rel ret)))))) =
      if Ends first ∧ Ends second then some (getCmpBool (rel ((a.length : ℤ) - b.length)))
      else none := by
    intro first second
    by_cases hfirst : Ends first
    · have hread : (getData m.buf first).isSome := getData_isSome.mpr hfirst
      obtain ⟨buf, hbuf⟩ := Option.isSome_iff_exists.mp hread
      rw [hbuf, Option.bind_some]
      by_cases hsecond : Ends second
      · have hread' : (getData buf second).isSome := getData_isSome.mpr hsecond
        obtain ⟨buf', hbuf'⟩ := Option.isSome_iff_exists.mp hread'
        rw [hbuf', Option.bind_some, compareStrings_self ha hb, if_pos ⟨hfirst, hsecond⟩,
          Option.bind_some]
      · rw [Option.not_isSome_iff_eq_none.mp (mt getData_isSome.mp hsecond),
          if_neg (fun h => hsecond h.2)]
        rfl
    · rw [Option.not_isSome_iff_eq_none.mp (mt getData_isSome.mp hfirst),
        if_neg (fun h => hfirst h.1)]
      rfl
  rw [compareBy, if_pos ⟨rfl, rfl⟩]
  cases hr : m.rightFirst with
  | false => exact hboth _ _
  | true => exact (hboth _ _).trans (if_congr and_comm rfl rfl)

/-! ## Comparison of strings -/

/-- **The comparisons are those of strings**: of the bytes as unsigned numbers,
lexicographically. -/
structure ComparesStrings (m : Memory) (a b : List UInt8) : Prop where
  equals : compareEquals m (.chars a) (.chars b) = some (getCmpBool (decide (a = b)))
  notEquals : compareNotEquals m (.chars a) (.chars b) = some (getCmpBool (decide (a ≠ b)))
  lessThan : compareLessThan m (.chars a) (.chars b) = some (getCmpBool (decide (a < b)))
  lessThanEquals : compareLessThanEquals m (.chars a) (.chars b) =
    some (getCmpBool (decide (a < b ∨ a = b)))
  greaterThan : compareGreaterThan m (.chars a) (.chars b) = some (getCmpBool (decide (b < a)))
  greaterThanEquals : compareGreaterThanEquals m (.chars a) (.chars b) =
    some (getCmpBool (decide (b < a ∨ a = b)))

/-- The strings are in the order of their lengths. -/
def OrderedByLength (a b : List UInt8) : Prop :=
  (a.length < b.length ↔ a < b) ∧ (b.length < a.length ↔ b < a)

theorem getCmpBool_inj {p q : Bool} (h : getCmpBool p = getCmpBool q) : p = q := by
  cases p <;> cases q <;> first | rfl | cases h

/-- One comparison: both strings end in time, and the lengths decide as the
strings do. -/
theorem compareBy_eq_some (ha : a.length < bufSize) (hb : b.length < bufSize) {p : Bool} :
    compareBy rel m (.chars a) (.chars b) = some (getCmpBool p) ↔
      (Ends (m.left.write 0 a) ∧ Ends (m.right.write 0 b)) ∧
        rel ((a.length : ℤ) - b.length) = p := by
  rw [compareBy_chars ha hb]
  by_cases hends : Ends (m.left.write 0 a) ∧ Ends (m.right.write 0 b)
  · rw [if_pos hends]
    refine ⟨fun h => ⟨hends, getCmpBool_inj (Option.some.inj h)⟩, fun h => ?_⟩
    rw [h.2]
  · rw [if_neg hends]
    exact ⟨nofun, fun h => absurd h.1 hends⟩

/-- Strings that are in the order of their lengths are equal if these are. -/
theorem OrderedByLength.eq_iff (h : OrderedByLength a b) : a.length = b.length ↔ a = b := by
  refine ⟨fun hlen => ?_, congrArg List.length⟩
  have hlt : ¬ a < b := fun hab => absurd (h.1.mpr hab) (hlen ▸ Nat.lt_irrefl _)
  have hgt : ¬ b < a := fun hba => absurd (h.2.mpr hba) (hlen ▸ Nat.lt_irrefl _)
  exact List.le_antisymm (List.not_lt.mp hgt) (List.not_lt.mp hlt)

/-- **When `CHAR` comparison is string comparison**: exactly where both strings
end within the buffer and are in the order of their lengths. -/
theorem comparesStrings_iff (ha : a.length < bufSize) (hb : b.length < bufSize) :
    ComparesStrings m a b ↔
      (Ends (m.left.write 0 a) ∧ Ends (m.right.write 0 b)) ∧ OrderedByLength a b := by
  constructor
  · intro h
    obtain ⟨hends, hless⟩ := (compareBy_eq_some ha hb).mp h.lessThan
    obtain ⟨-, hgreater⟩ := (compareBy_eq_some ha hb).mp h.greaterThan
    rw [decide_eq_decide] at hless hgreater
    exact ⟨hends, Iff.trans (by omega) hless, Iff.trans (by omega) hgreater⟩
  · rintro ⟨hends, hordered⟩
    have heq := hordered.eq_iff
    obtain ⟨hless, hgreater⟩ := hordered
    have hall : ∀ {rel : ℤ → Bool} {p : Bool}, rel ((a.length : ℤ) - b.length) = p →
        compareBy rel m (.chars a) (.chars b) = some (getCmpBool p) :=
      fun hp => (compareBy_eq_some ha hb).mpr ⟨hends, hp⟩
    refine ⟨hall ?_, hall ?_, hall ?_, hall ?_, hall ?_, hall ?_⟩
    all_goals
      rw [decide_eq_decide]
      simp only [← heq, ← hless, ← hgreater, ne_eq]
      omega

/-- Where the comparisons are those of strings, exactly one of `<`, `=` and `>`
holds. -/
theorem ComparesStrings.one_holds (h : ComparesStrings m a b) :
    ∃! o : Ordering, (match o with
      | .lt => compareLessThan
      | .eq => compareEquals
      | .gt => compareGreaterThan) m (.chars a) (.chars b) = some .kTrue := by
  have htrue : ∀ {p : Prop} [Decidable p], getCmpBool (decide p) = .kTrue ↔ p := by
    intro p _
    by_cases hp : p <;> simp [getCmpBool, hp]
  by_cases hlt : a < b
  · refine ⟨.lt, h.lessThan.trans (congrArg some (htrue.mpr hlt)), fun o ho => ?_⟩
    cases o with
    | lt => rfl
    | eq =>
      have heq := htrue.mp (Option.some.inj (h.equals.symm.trans ho))
      exact absurd hlt (heq ▸ List.lt_irrefl a)
    | gt =>
      have hgt := htrue.mp (Option.some.inj (h.greaterThan.symm.trans ho))
      exact absurd hlt (List.lt_asymm hgt)
  · by_cases heq : a = b
    · refine ⟨.eq, h.equals.trans (congrArg some (htrue.mpr heq)), fun o ho => ?_⟩
      cases o with
      | lt => exact absurd (htrue.mp (Option.some.inj (h.lessThan.symm.trans ho))) hlt
      | eq => rfl
      | gt =>
        have hgt := htrue.mp (Option.some.inj (h.greaterThan.symm.trans ho))
        exact absurd hgt (heq ▸ List.lt_irrefl a)
    · have hgt : b < a := by
        by_contra hgt
        exact heq (List.le_antisymm (List.not_lt.mp hgt) (List.not_lt.mp hlt))
      refine ⟨.gt, h.greaterThan.trans (congrArg some (htrue.mpr hgt)), fun o ho => ?_⟩
      cases o with
      | lt => exact absurd (htrue.mp (Option.some.inj (h.lessThan.symm.trans ho))) hlt
      | eq => exact absurd (htrue.mp (Option.some.inj (h.equals.symm.trans ho))) heq
      | gt => rfl

/-- A memory of zeros. -/
def zeros : Memory := ⟨fun _ => 0, fun _ => 0, fun _ => 0, false⟩

/-- `ab` and `abc` compare as strings. -/
theorem comparesStrings_prefix : ComparesStrings zeros [97, 98] [97, 98, 99] :=
  (comparesStrings_iff (by decide) (by decide)).mpr
    ⟨⟨⟨2, by decide, rfl⟩, ⟨3, by decide, rfl⟩⟩, by decide, by decide⟩

/-- **`ab` and `cd` compare as equal.** -/
theorem not_comparesStrings : ¬ ∀ (m : Memory) (a b : List UInt8), a.length < bufSize →
    b.length < bufSize → ComparesStrings m a b := by
  intro h
  have hequals := (h zeros [97, 98] [99, 100] (by decide) (by decide)).equals
  have htrue : compareEquals zeros (.chars [97, 98]) (.chars [99, 100]) = some .kTrue :=
    (compareBy_chars (by decide) (by decide)).trans
      (if_pos ⟨⟨2, by decide, rfl⟩, ⟨2, by decide, rfl⟩⟩)
  cases htrue.symm.trans hequals

/-! ## The text -/

/-- The string in the buffer, up to its first zero. -/
def text (buf : Mem) : Option (List UInt8) :=
  ((List.range bufSize).find? (fun i => buf i = 0)).map (fun n => buf.bytes 0 n)

/-- The memory has the string, then something that is neither a letter nor a digit. The
string itself is letters and digits. -/
def HasText (chars : Mem) (v : List UInt8) : Prop :=
  (∀ b ∈ v, isAlnum b = true) ∧ chars.bytes 0 v.length = v ∧ isAlnum (chars v.length) = false

instance {chars : Mem} {v : List UInt8} : Decidable (HasText chars v) :=
  inferInstanceAs (Decidable (_ ∧ _ ∧ _))

/-- The strings that a memory has are one. -/
theorem HasText.unique {chars : Mem} {v w : List UInt8} (hv : HasText chars v)
    (hw : HasText chars w) : v = w := by
  obtain ⟨hva, hvb, hvn⟩ := hv
  obtain ⟨hwa, hwb, hwn⟩ := hw
  have hle : ∀ {v w : List UInt8}, (∀ b ∈ w, isAlnum b = true) → chars.bytes 0 w.length = w →
      isAlnum (chars v.length) = false → w.length ≤ v.length := by
    intro v w hwa hwb hvn
    by_contra hlt
    refine Bool.noConfusion (hvn.symm.trans (hwa (chars v.length) ?_))
    rw [← hwb]
    exact List.mem_map.mpr ⟨v.length, List.mem_range.mpr (not_le.mp hlt), by rw [Nat.zero_add]⟩
  rw [← hvb, ← hwb, le_antisymm (hle hva hvb hwn) (hle hwa hwb hvn)]

/-- **What `GetData` gives** is the string that the memory has, where the copy ends in time. -/
theorem exists_text_getData (buf : Mem) {chars : Mem} (h : Ends chars) :
    ∃ buf' v, getData buf chars = some buf' ∧ text buf' = some v ∧ HasText chars v := by
  obtain ⟨n, hn⟩ : ∃ n, (List.range bufSize).find? (fun i => chars i = 0) = some n := by
    refine Option.isSome_iff_exists.mp (List.find?_isSome.mpr ?_)
    obtain ⟨i, hi, h0⟩ := h
    exact ⟨i, List.mem_range.mpr hi, decide_eq_true h0⟩
  obtain ⟨hzero, hlt, -⟩ := List.find?_range_eq_some.mp hn
  have hzero : chars n = 0 := of_decide_eq_true hzero
  let copied : Mem := fun i => if i ≤ n then chars i else buf i
  have hcopied : ∀ i ≤ n, copied i = chars i := fun i hi => if_pos hi
  have hstrcpy : strcpy buf chars = some copied := by
    rw [strcpy, hn]
    rfl
  -- the first byte that is not kept comes with the zero at the latest
  obtain ⟨i, hi⟩ : ∃ i, (List.range bufSize).find? (fun i => !isAlnum (copied i)) = some i := by
    refine Option.isSome_iff_exists.mp (List.find?_isSome.mpr ⟨n, hlt, ?_⟩)
    rw [hcopied n le_rfl, hzero]
    rfl
  obtain ⟨hinot, hilt, hibefore⟩ := List.find?_range_eq_some.mp hi
  have hin : i ≤ n := by
    by_contra hgt
    have hkept := hibefore n (not_le.mp hgt)
    rw [hcopied n le_rfl, hzero] at hkept
    exact absurd hkept (by decide)
  have hkept : ∀ j < i, isAlnum (chars j) = true := fun j hj => by
    have hkept := hibefore j hj
    rw [hcopied j (hj.le.trans hin)] at hkept
    simpa using hkept
  have hend : (List.range bufSize).find? (fun j => Function.update copied i 0 j = 0) = some i := by
    refine List.find?_range_eq_some.mpr
      ⟨decide_eq_true (Function.update_self ..), hilt, fun j hj => ?_⟩
    rw [Function.update_of_ne hj.ne, hcopied j (hj.le.trans hin), Bool.not_eq_true']
    refine decide_eq_false (fun hz => ?_)
    have hk := hkept j hj
    rw [hz] at hk
    cases hk
  have hbytes : Mem.bytes (Function.update copied i 0) 0 i = chars.bytes 0 i := Mem.bytes_congr (by
    intro j hj
    rw [Nat.zero_add, Function.update_of_ne hj.ne, hcopied j (hj.le.trans hin)])
  refine ⟨Function.update copied i 0, chars.bytes 0 i, ?_, ?_, ?_, ?_, ?_⟩
  · rw [getData, hstrcpy, Option.map_some, cut, hi]
  · rw [text, hend, Option.map_some, hbytes]
  · intro b hb
    obtain ⟨j, hj, rfl⟩ := List.mem_map.mp hb
    rw [Nat.zero_add]
    exact hkept j (List.mem_range.mp hj)
  · rw [Mem.length_bytes]
  · rw [Mem.length_bytes, ← hcopied i hin]
    simpa using hinot

/-- **Exactly when `GetData` gives a string.** -/
theorem text_getData_iff {buf chars : Mem} {v : List UInt8} :
    (∃ buf', getData buf chars = some buf' ∧ text buf' = some v) ↔
      Ends chars ∧ HasText chars v := by
  constructor
  · rintro ⟨buf', hget, htext⟩
    have hends : Ends chars := getData_isSome.mp (Option.isSome_iff_exists.mpr ⟨buf', hget⟩)
    obtain ⟨buf'', w, hget', htext', hw⟩ := exists_text_getData buf hends
    obtain rfl : buf' = buf'' := Option.some.inj (hget.symm.trans hget')
    obtain rfl : v = w := Option.some.inj (htext.symm.trans htext')
    exact ⟨hends, hw⟩
  · rintro ⟨hends, hv⟩
    obtain ⟨buf', w, hget, htext, hw⟩ := exists_text_getData buf hends
    exact ⟨buf', hget, hv.unique hw ▸ htext⟩

/-- Behind the bytes of a string there is none of the bytes that are kept, and the string
has no others. -/
theorem hasText_write {around : Mem} {v : List UInt8} :
    HasText (around.write 0 v) v ↔
      (∀ b ∈ v, isAlnum b = true) ∧ isAlnum (around v.length) = false := by
  unfold HasText
  rw [Mem.bytes_write, Mem.write_of_not (.inr (Nat.zero_add _).le)]
  simp only [true_and]

end TypeChar

end MiniSql
