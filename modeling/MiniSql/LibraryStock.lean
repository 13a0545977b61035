import MiniSql.Machine
import Mathlib.Algebra.Group.Int.Defs
import Mathlib.Data.List.Basic
import Mathlib.Logic.Function.Basic

/-!
# Borrowing and returning in the library

The handlers `search`, `getborrow`, `borrow` and `returnbook` of the library
back end and the two pages that call them. The data base has a stock for each
book and a table of borrowings, where a row without a `return_date` is a book
that is out. A page keeps the rows of the last reply with the stock that stood
there, and its button sends this number back: `borrow` stores it less one, and
`returnbook` stores it plus one.

Each handler runs alone, but between the reply that a page has got and the
request that it sends any others may have run. `borrow` looks whether the card
already has the book; `returnbook` looks at nothing, and dates every row of the
card and the book, also those that have been dated before. So the stock remains
the initial one less the books that are out, and no date is changed, exactly as
long as every request that comes through is sent with the right number and
every book that is returned had never been returned by the same card
(`conserved_iff`).

Cards, books, dates and clients are of any types; which books a search lists is
left open, and so is the comparison of cards without `BINARY`.
-/

namespace Library

/-! ## The data base -/

/-- A row of the table `borrow`. -/
structure BorrowRow (C B D : Type) where
  /-- `cno` -/
  cno : C
  /-- `bno` -/
  bno : B
  /-- `borrow_date` -/
  borrowDate : D
  /-- `return_date` -/
  returnDate : Option D
  /-- `borrow_admin` -/
  borrowAdmin : C
  /-- `return_admin` -/
  returnAdmin : Option C
deriving DecidableEq

/-- The tables `book`, by the stock of each book, and `borrow`. -/
structure Database (C B D : Type) where
  /-- `stock` -/
  stock : B → ℤ
  /-- The rows of `borrow`. -/
  borrows : List (BorrowRow C B D)

/-- What a column of type `int` holds; another number is an error. -/
def FitsInt (z : ℤ) : Prop := -2 ^ 31 ≤ z ∧ z < 2 ^ 31

instance (z : ℤ) : Decidable (FitsInt z) := inferInstanceAs (Decidable (_ ∧ _))

variable {Client C B D : Type} [DecidableEq Client] [DecidableEq C] [DecidableEq B]

namespace BorrowRow

/-- `cno='{}' and bno='{}'`. -/
def isOf (r : BorrowRow C B D) (cno : C) (bno : B) : Bool := r.cno = cno && r.bno = bno

/-- `return_date is null`. -/
def isOut (r : BorrowRow C B D) : Bool := r.returnDate.isNone

end BorrowRow

/-! ## The handlers -/

/-- The reply of `borrow`. -/
inductive BorrowReply
  | succeeded
  | haveBorrowed
  | databaseError
deriving DecidableEq

namespace Database

variable (db : Database C B D) (sameCno : C → C → Bool)

/-- `search`, by the books that the conditions select. -/
def search (listed : List B) : List (B × ℤ) := listed.map (fun b => (b, db.stock b))

/-- The books that a card has out, at most fifty, with their stock. -/
def booksOut (cno : C) : List (B × ℤ) :=
  ((db.borrows.filter (fun r => sameCno r.cno cno && r.isOut)).take 50).map
    (fun r => (r.bno, db.stock r.bno))

/-- `getBorrow`: of any card for an administrator, of the own one for others;
without a reply if nobody is logged in. -/
def getBorrow (session : Option C) (isAdmin : Bool) (cno : C) : Option (List (B × ℤ)) :=
  if isAdmin then some (db.booksOut sameCno cno) else session.map (db.booksOut sameCno)

/-- `borrow`. Nothing is kept of a request that fails half way. -/
def borrow (session : Option C) (now : D) (borrowcno : C) (bno : B) (stock : ℤ) :
    Database C B D × BorrowReply :=
  match db.borrows.find? (fun r => r.isOf borrowcno bno && r.isOut) with
  | some _ => (db, .haveBorrowed)
  | none =>
    if FitsInt (stock - 1) then
      match session with
      | none => (db, .databaseError)
      | some admin =>
        (⟨Function.update db.stock bno (stock - 1),
          db.borrows ++ [⟨borrowcno, bno, now, none, admin, none⟩]⟩, .succeeded)
    else (db, .databaseError)

/-- `UPDATE borrow SET return_date=now()`. -/
def setReturnDate (now : D) (cno : C) (bno : B) (rows : List (BorrowRow C B D)) :
    List (BorrowRow C B D) :=
  rows.map (fun r => if r.isOf cno bno then { r with returnDate := some now } else r)

/-- `UPDATE borrow SET return_admin='{}'`. -/
def setReturnAdmin (admin : C) (cno : C) (bno : B) (rows : List (BorrowRow C B D)) :
    List (BorrowRow C B D) :=
  rows.map (fun r => if r.isOf cno bno then { r with returnAdmin := some admin } else r)

/-- `returnBook`. Nothing is kept of a request that fails half way. -/
def returnBook (session : Option C) (now : D) (cno : C) (bno : B) (stock : ℤ) :
    Database C B D × Option (List (B × ℤ)) :=
  if FitsInt (stock + 1) then
    match session with
    | none => (db, none)
    | some admin =>
      let db' : Database C B D :=
        ⟨Function.update db.stock bno (stock + 1),
          setReturnAdmin admin cno bno (setReturnDate now cno bno db.borrows)⟩
      (db', some (db'.booksOut sameCno cno))
  else (db, none)

end Database

/-! ## The pages -/

/-- What a client asks for. -/
inductive Action (C B : Type)
  /-- The search of `SearchBook`. -/
  | search (listed : List B)
  /-- The search of `ReturnBook`. -/
  | getBorrow (isAdmin : Bool) (cno : C)
  /-- The button in a row of `SearchBook`, with the card that is typed in. -/
  | borrow (bno : B) (borrowcno : C)
  /-- The button in a row of `ReturnBook`, with the card in the form. -/
  | returnBook (bno : B) (cno : C)

/-- A request: by whom, in whose session, and when. -/
structure Request (Client C B D : Type) where
  client : Client
  /-- `session['cno']` -/
  session : Option C
  /-- `now()` -/
  now : D
  action : Action C B

/-- The library: the data base, and what stands in the pages. -/
structure State (Client C B D : Type) where
  /-- The data base. -/
  db : Database C B D
  /-- The stock in `tableData` of `SearchBook`. -/
  searchTable : Client → B → Option ℤ
  /-- The stock in `tableData` of `ReturnBook`. -/
  returnTable : Client → B → Option ℤ

/-- The stock in the rows of a reply. -/
def tableData (reply : List (B × ℤ)) (bno : B) : Option ℤ :=
  (reply.find? (fun row => row.1 = bno)).map Prod.snd

namespace State

variable (sameCno : C → C → Bool) (s : State Client C B D)

/-- The library before any page has been filled. -/
def start (db : Database C B D) : State Client C B D := ⟨db, fun _ _ => none, fun _ _ => none⟩

/-- `borrow` of `SearchBook`, with the stock of its row: that one is reduced in the
page too. -/
def clickBorrow (q : Request Client C B D) (bno : B) (borrowcno : C) (stock : ℤ) :
    State Client C B D × Bool :=
  match s.db.borrow q.session q.now borrowcno bno stock with
  | (db', .succeeded) =>
    ({ s with
        db := db'
        searchTable := Function.update s.searchTable q.client
          (Function.update (s.searchTable q.client) bno (some (stock - 1))) }, true)
  | (db', _) => ({ s with db := db' }, false)

/-- `returnBook` of `ReturnBook`, with the stock of its row. -/
def clickReturn (q : Request Client C B D) (bno : B) (cno : C) (stock : ℤ) :
    State Client C B D × Bool :=
  match s.db.returnBook sameCno q.session q.now cno bno stock with
  | (db', some reply) =>
    ({ s with
        db := db'
        returnTable := Function.update s.returnTable q.client (tableData reply) }, true)
  | (db', none) => ({ s with db := db' }, false)

/-- One request. A button that is not there, or is disabled as the stock in its row
is zero, sends none. -/
def step (s : State Client C B D) (q : Request Client C B D) :
    Option (State Client C B D × Bool) :=
  match q.action with
  | .search listed =>
    some ({ s with searchTable :=
      Function.update s.searchTable q.client (tableData (s.db.search listed)) }, true)
  | .getBorrow isAdmin cno =>
    match s.db.getBorrow sameCno q.session isAdmin cno with
    | none => some (s, false)
    | some reply =>
      some ({ s with returnTable :=
        Function.update s.returnTable q.client (tableData reply) }, true)
  | .borrow bno borrowcno =>
    match s.searchTable q.client bno with
    | none => none
    | some stock => if stock = 0 then none else some (s.clickBorrow q bno borrowcno stock)
  | .returnBook bno cno =>
    (s.returnTable q.client bno).map (s.clickReturn sameCno q bno cno)

end State

/-! ## Conservation -/

namespace Database

variable {db db' : Database C B D} {stock₀ : B → ℤ}

/-- How many copies of a book are out. -/
def outCount (db : Database C B D) (bno : B) : ℕ :=
  db.borrows.countP (fun r => r.bno = bno && r.isOut)

/-- How many copies of a book a card has out. -/
def outCountOf (db : Database C B D) (cno : C) (bno : B) : ℕ :=
  db.borrows.countP (fun r => r.isOf cno bno && r.isOut)

/-- **The stock is conserved**: of every book it is not negative, and the initial
one less the copies that are out. -/
def Conserved (stock₀ : B → ℤ) (db : Database C B D) : Prop :=
  ∀ bno, 0 ≤ db.stock bno ∧ db.stock bno = stock₀ bno - db.outCount bno

/-- **No date is changed**: a row that has been returned stays where it is, with
the date of its return. -/
def KeepsReturned (db db' : Database C B D) : Prop :=
  ∀ (i : ℕ) r, db.borrows[i]? = some r → ∀ date, r.returnDate = some date →
    ∃ r', db'.borrows[i]? = some r' ∧ r'.returnDate = some date

omit [DecidableEq C] [DecidableEq B] in
theorem keepsReturned_refl (db : Database C B D) : db.KeepsReturned db :=
  fun _ r hr _ hdate => ⟨r, hr, hdate⟩

omit [DecidableEq C] in
/-- Where the stock of one book is set and the copies of it that are out change by
some number, the stock remains conserved if it changes by the same. -/
theorem Conserved.update_iff (h : Conserved stock₀ db) {bno : B} {z k : ℤ}
    (hstock : db'.stock = Function.update db.stock bno z)
    (hself : (db'.outCount bno : ℤ) = db.outCount bno + k)
    (hother : ∀ b ≠ bno, db'.outCount b = db.outCount b) :
    Conserved stock₀ db' ↔ z = db.stock bno - k ∧ 0 ≤ z := by
  have hbno := (h bno).2
  constructor
  · intro h'
    have hbno' := h' bno
    rw [hstock, Function.update_self, hself] at hbno'
    exact ⟨by omega, hbno'.1⟩
  · rintro ⟨hz, hnonneg⟩ b
    rw [hstock]
    by_cases hb : b = bno
    · subst hb
      rw [Function.update_self, hself]
      exact ⟨hnonneg, by omega⟩
    · rw [Function.update_of_ne hb, hother b hb]
      exact h b

/-! ### One more copy is out -/

omit [DecidableEq C] in
/-- The data base behind a new row of `borrow`. -/
theorem conserved_borrow_iff (h : Conserved stock₀ db) {cno admin : C} {bno : B} {now : D} {z : ℤ} :
    Conserved stock₀ ⟨Function.update db.stock bno z,
        db.borrows ++ [⟨cno, bno, now, none, admin, none⟩]⟩ ↔
      z = db.stock bno - 1 ∧ 0 ≤ z := by
  refine h.update_iff rfl ?_ (fun b hb => ?_)
  · rw [outCount, List.countP_append, outCount]
    simp [BorrowRow.isOut]
  · rw [outCount, List.countP_append, outCount]
    simp [hb.symm]

omit [DecidableEq C] [DecidableEq B] in
theorem keepsReturned_append (stock : B → ℤ) (rows : List (BorrowRow C B D)) :
    db.KeepsReturned ⟨stock, db.borrows ++ rows⟩ := by
  intro i r hr date hdate
  refine ⟨r, ?_, hdate⟩
  rw [List.getElem?_append_left (List.getElem?_eq_some_iff.mp hr).1]
  exact hr

/-! ### A card has no copy out any more -/

/-- Who returns a book does not matter for the copies that are out. -/
theorem countP_setReturnAdmin (admin cno : C) (bno b : B) (rows : List (BorrowRow C B D)) :
    (setReturnAdmin admin cno bno rows).countP (fun r => r.bno = b && r.isOut) =
      rows.countP (fun r => r.bno = b && r.isOut) := by
  rw [setReturnAdmin, List.countP_map]
  refine List.countP_congr (fun r _ => ?_)
  rw [Function.comp_apply]
  split <;> rfl

/-- The copies of the book that the card has out are not out any more. -/
theorem countP_setReturnDate_self (now : D) (cno : C) (bno : B) (rows : List (BorrowRow C B D)) :
    (setReturnDate now cno bno rows).countP (fun r => r.bno = bno && r.isOut) +
        rows.countP (fun r => r.isOf cno bno && r.isOut) =
      rows.countP (fun r => r.bno = bno && r.isOut) := by
  induction rows with
  | nil => rfl
  | cons r rows ih =>
    rw [setReturnDate, List.map_cons, List.countP_cons, List.countP_cons, List.countP_cons, ← ih,
      setReturnDate]
    by_cases hof : r.isOf cno bno
    · have hbno : r.bno = bno := by
        rw [BorrowRow.isOf, Bool.and_eq_true, decide_eq_true_iff, decide_eq_true_iff] at hof
        exact hof.2
      rw [if_pos hof]
      simp [hof, hbno, BorrowRow.isOut]
      omega
    · rw [if_neg hof]
      simp [hof]
      omega

/-- Other books are not concerned. -/
theorem countP_setReturnDate_of_ne (now : D) (cno : C) {bno b : B} (hb : b ≠ bno)
    (rows : List (BorrowRow C B D)) :
    (setReturnDate now cno bno rows).countP (fun r => r.bno = b && r.isOut) =
      rows.countP (fun r => r.bno = b && r.isOut) := by
  rw [setReturnDate, List.countP_map]
  refine List.countP_congr (fun r _ => ?_)
  rw [Function.comp_apply]
  by_cases hof : r.isOf cno bno
  · have hbno : r.bno ≠ b := by
      rw [BorrowRow.isOf, Bool.and_eq_true, decide_eq_true_iff, decide_eq_true_iff] at hof
      exact fun h => hb (h.symm.trans hof.2)
    rw [if_pos hof]
    simp [hbno]
  · rw [if_neg hof]

/-- The data base behind the return of a book. -/
def afterReturn (db : Database C B D) (admin : C) (now : D) (cno : C) (bno : B) (z : ℤ) :
    Database C B D :=
  ⟨Function.update db.stock bno z,
    setReturnAdmin admin cno bno (setReturnDate now cno bno db.borrows)⟩

theorem conserved_return_iff (h : Conserved stock₀ db) {admin cno : C} {bno : B} {now : D} {z : ℤ} :
    Conserved stock₀ (db.afterReturn admin now cno bno z) ↔
      z = db.stock bno + db.outCountOf cno bno := by
  have hstock := (h bno).1
  have hself := countP_setReturnDate_self now cno bno db.borrows
  have hiff : Conserved stock₀ (db.afterReturn admin now cno bno z) ↔
      z = db.stock bno - -(db.outCountOf cno bno : ℤ) ∧ 0 ≤ z := h.update_iff rfl (by
      rw [outCount, afterReturn, countP_setReturnAdmin, outCount, outCountOf]
      omega)
    (fun b hb => by
      rw [outCount, afterReturn, countP_setReturnAdmin, countP_setReturnDate_of_ne now cno hb]
      rfl)
  rw [hiff]
  omega

/-- A row of the card and the book gets a date. -/
theorem exists_row_afterReturn (admin cno : C) (bno : B) (now : D) (z : ℤ) {i : ℕ}
    {r : BorrowRow C B D} (hr : db.borrows[i]? = some r) :
    ∃ r', (db.afterReturn admin now cno bno z).borrows[i]? = some r' ∧
      r'.returnDate = if r.isOf cno bno then some now else r.returnDate := by
  rw [afterReturn, setReturnAdmin, setReturnDate, List.map_map, List.getElem?_map, hr]
  refine ⟨_, rfl, ?_⟩
  rw [Function.comp_apply]
  by_cases hof : r.isOf cno bno
  · have hof' : BorrowRow.isOf { r with returnDate := some now } cno bno = true := hof
    rw [if_pos hof, if_pos hof, if_pos hof']
  · rw [if_neg hof, if_neg hof, if_neg hof]

/-- The dates of the rows that have been returned are kept if they are those that
are set. -/
theorem keepsReturned_return_iff {admin cno : C} {bno : B} {now : D} {z : ℤ} :
    db.KeepsReturned (db.afterReturn admin now cno bno z) ↔
      ∀ r ∈ db.borrows, r.isOf cno bno = true → ∀ date ∈ r.returnDate, date = now := by
  constructor
  · intro hkeeps r hmem hof date hdate
    obtain ⟨i, hr⟩ := List.getElem?_of_mem hmem
    obtain ⟨r₁, hr₁, hdate₁⟩ := exists_row_afterReturn admin cno bno now z hr
    obtain ⟨r₂, hr₂, hdate₂⟩ := hkeeps i r hr date hdate
    cases hr₁.symm.trans hr₂
    rw [if_pos hof] at hdate₁
    exact (Option.some.inj (hdate₁.symm.trans hdate₂)).symm
  · intro hdates i r hr date hdate
    obtain ⟨r', hr', hdate'⟩ := exists_row_afterReturn admin cno bno now z hr
    refine ⟨r', hr', hdate'.trans ?_⟩
    by_cases hof : r.isOf cno bno
    · rw [if_pos hof, hdates r (List.mem_of_getElem? hr) hof date hdate]
    · rw [if_neg hof, hdate]

/-! ### The handlers -/

/-- A request to borrow comes through: somebody is logged in, the new stock fits its
column, and the card does not have the book. -/
def BorrowComesThrough (db : Database C B D) (session : Option C) (borrowcno : C) (bno : B)
    (stock : ℤ) : Prop :=
  session.isSome ∧ FitsInt (stock - 1) ∧ db.outCountOf borrowcno bno = 0

/-- A request to return comes through: somebody is logged in, and the new stock fits its
column. -/
def ReturnComesThrough (session : Option C) (stock : ℤ) : Prop :=
  session.isSome ∧ FitsInt (stock + 1)

/-- The number that is sent back with the return of a book is right: it is the stock,
if the card has the book, and no earlier return of it is dated anew. -/
def ReturnFits (db : Database C B D) (now : D) (cno : C) (bno : B) (stock : ℤ) : Prop :=
  stock + 1 = db.stock bno + db.outCountOf cno bno ∧
    ∀ r ∈ db.borrows, r.isOf cno bno = true → ∀ date ∈ r.returnDate, date = now

instance (db : Database C B D) (session : Option C) (cno : C) (bno : B) (stock : ℤ) :
    Decidable (db.BorrowComesThrough session cno bno stock) :=
  inferInstanceAs (Decidable (_ ∧ _ ∧ _))

instance (session : Option C) (stock : ℤ) : Decidable (ReturnComesThrough session stock) :=
  inferInstanceAs (Decidable (_ ∧ _))

instance [DecidableEq D] (db : Database C B D) (now : D) (cno : C) (bno : B) (stock : ℤ) :
    Decidable (db.ReturnFits now cno bno stock) :=
  inferInstanceAs (Decidable (_ ∧ _))

variable {session : Option C} {now : D} {cno : C} {bno : B} {stock : ℤ}

theorem find?_eq_none_iff :
    db.borrows.find? (fun r => r.isOf cno bno && r.isOut) = none ↔ db.outCountOf cno bno = 0 := by
  rw [List.find?_eq_none, outCountOf, List.countP_eq_zero]

theorem borrow_of_not (h : ¬ db.BorrowComesThrough session cno bno stock) :
    (db.borrow session now cno bno stock).1 = db := by
  unfold borrow
  cases hfind : db.borrows.find? (fun r => r.isOf cno bno && r.isOut) with
  | some _ => rfl
  | none =>
    by_cases hfits : FitsInt (stock - 1)
    · cases session with
      | none => rw [if_pos hfits]
      | some admin => exact absurd ⟨rfl, hfits, find?_eq_none_iff.mp hfind⟩ h
    · rw [if_neg hfits]

theorem borrow_of_comesThrough (now : D) (h : db.BorrowComesThrough session cno bno stock) :
    ∃ admin, (db.borrow session now cno bno stock).1 =
      ⟨Function.update db.stock bno (stock - 1),
        db.borrows ++ [⟨cno, bno, now, none, admin, none⟩]⟩ := by
  obtain ⟨hsession, hfits, hcount⟩ := h
  obtain ⟨admin, rfl⟩ := Option.isSome_iff_exists.mp hsession
  refine ⟨admin, ?_⟩
  rw [borrow, find?_eq_none_iff.mpr hcount]
  show (if FitsInt (stock - 1) then _ else _ : Database C B D × BorrowReply).1 = _
  rw [if_pos hfits]

/-- **Borrowing** keeps the stock right exactly if, where it comes through, the number
that is sent is the stock. -/
theorem borrow_keeps_iff (h : Conserved stock₀ db) (hstock : stock ≠ 0) :
    Conserved stock₀ (db.borrow session now cno bno stock).1 ∧
        db.KeepsReturned (db.borrow session now cno bno stock).1 ↔
      (db.BorrowComesThrough session cno bno stock → stock = db.stock bno) := by
  by_cases hcomes : db.BorrowComesThrough session cno bno stock
  · obtain ⟨admin, heq⟩ := borrow_of_comesThrough now hcomes
    have hnonneg := (h bno).1
    rw [heq, conserved_borrow_iff h, and_iff_left (keepsReturned_append _ _)]
    constructor
    · intro heq _
      omega
    · intro heq
      have hcurrent := heq hcomes
      omega
  · rw [borrow_of_not hcomes]
    exact iff_of_true ⟨h, keepsReturned_refl db⟩ (fun hc => absurd hc hcomes)

/-- **Returning** keeps the stock right and no date is changed exactly if, where it comes
through, the number that is sent and the earlier dates are right. -/
theorem returnBook_keeps_iff (sameCno : C → C → Bool) (h : Conserved stock₀ db) :
    Conserved stock₀ (db.returnBook sameCno session now cno bno stock).1 ∧
        db.KeepsReturned (db.returnBook sameCno session now cno bno stock).1 ↔
      (ReturnComesThrough session stock → db.ReturnFits now cno bno stock) := by
  by_cases hfits : FitsInt (stock + 1)
  · cases session with
    | none =>
      have heq : (db.returnBook sameCno none now cno bno stock).1 = db := by
        unfold returnBook
        rw [if_pos hfits]
      rw [heq]
      exact iff_of_true ⟨h, keepsReturned_refl db⟩ (fun hc => absurd hc.1 Bool.false_ne_true)
    | some admin =>
      have heq : (db.returnBook sameCno (some admin) now cno bno stock).1 =
          db.afterReturn admin now cno bno (stock + 1) := by
        unfold returnBook
        rw [if_pos hfits]
        rfl
      rw [heq, conserved_return_iff h, keepsReturned_return_iff]
      exact ⟨fun hkeeps _ => hkeeps, fun hfit => hfit ⟨rfl, hfits⟩⟩
  · have heq : (db.returnBook sameCno session now cno bno stock).1 = db := by
      unfold returnBook
      rw [if_neg hfits]
    rw [heq]
    exact iff_of_true ⟨h, keepsReturned_refl db⟩ (fun hc => absurd hc.2 hfits)

end Database

/-! ## Runs -/

namespace State

open Database

/-- The client sends the right number: what it has read is still the stock, and a book
that it returns has not been returned by the card before. -/
def SendsCurrent (s : State Client C B D) (q : Request Client C B D) : Prop :=
  match q.action with
  | .search _ => True
  | .getBorrow _ _ => True
  | .borrow bno borrowcno => ∀ stock ∈ s.searchTable q.client bno, stock ≠ 0 →
    s.db.BorrowComesThrough q.session borrowcno bno stock → stock = s.db.stock bno
  | .returnBook bno cno => ∀ stock ∈ s.returnTable q.client bno,
    ReturnComesThrough q.session stock → s.db.ReturnFits q.now cno bno stock

instance [DecidableEq D] (s : State Client C B D) :
    ∀ q : Request Client C B D, Decidable (s.SendsCurrent q)
  | ⟨_, _, _, .search _⟩ => inferInstanceAs (Decidable True)
  | ⟨_, _, _, .getBorrow _ _⟩ => inferInstanceAs (Decidable True)
  | ⟨client, session, _, .borrow bno borrowcno⟩ =>
    inferInstanceAs (Decidable (∀ stock ∈ s.searchTable client bno, stock ≠ 0 →
      s.db.BorrowComesThrough session borrowcno bno stock → stock = s.db.stock bno))
  | ⟨client, session, now, .returnBook bno cno⟩ =>
    inferInstanceAs (Decidable (∀ stock ∈ s.returnTable client bno,
      ReturnComesThrough session stock → s.db.ReturnFits now cno bno stock))

variable {sameCno : C → C → Bool} {s s' : State Client C B D} {stock₀ : B → ℤ}

theorem clickBorrow_db (q : Request Client C B D) (bno : B) (borrowcno : C) (stock : ℤ) :
    (s.clickBorrow q bno borrowcno stock).1.db =
      (s.db.borrow q.session q.now borrowcno bno stock).1 := by
  unfold clickBorrow
  rcases s.db.borrow q.session q.now borrowcno bno stock with ⟨db', _ | _ | _⟩ <;> rfl

theorem clickReturn_db (sameCno : C → C → Bool) (q : Request Client C B D) (bno : B) (cno : C)
    (stock : ℤ) :
    (s.clickReturn sameCno q bno cno stock).1.db =
      (s.db.returnBook sameCno q.session q.now cno bno stock).1 := by
  unfold clickReturn
  rcases s.db.returnBook sameCno q.session q.now cno bno stock with ⟨db', _ | _⟩ <;> rfl

/-- **One request.** The stock is conserved and no date is changed exactly if the client
sends the right number. -/
theorem step_keeps_iff (h : Conserved stock₀ s.db) {q : Request Client C B D} {success : Bool}
    (hs : s.step sameCno q = some (s', success)) :
    Conserved stock₀ s'.db ∧ s.db.KeepsReturned s'.db ↔ s.SendsCurrent q := by
  obtain ⟨client, session, now, action⟩ := q
  cases action with
  | search listed =>
    cases hs
    exact iff_of_true ⟨h, keepsReturned_refl s.db⟩ trivial
  | getBorrow isAdmin cno =>
    have hdb : s'.db = s.db := by
      unfold step at hs
      cases hreply : s.db.getBorrow sameCno session isAdmin cno with
      | none => simp only [hreply] at hs; cases hs; rfl
      | some reply => simp only [hreply] at hs; cases hs; rfl
    rw [hdb]
    exact iff_of_true ⟨h, keepsReturned_refl s.db⟩ trivial
  | borrow bno borrowcno =>
    unfold step at hs
    cases htable : s.searchTable client bno with
    | none => simp only [htable] at hs; cases hs
    | some stock =>
      simp only [htable] at hs
      obtain ⟨hne, hclick⟩ := Option.ite_none_left_eq_some.mp hs
      have hdb := clickBorrow_db (s := s) ⟨client, session, now, .borrow bno borrowcno⟩ bno
        borrowcno stock
      rw [Option.some.inj hclick] at hdb
      rw [hdb, borrow_keeps_iff h hne]
      refine ⟨fun hcurrent v hv _ => ?_, fun hall => hall stock htable hne⟩
      cases htable.symm.trans hv
      exact hcurrent
  | returnBook bno cno =>
    obtain ⟨stock, htable, hclick⟩ := Option.map_eq_some_iff.mp hs
    have hdb := clickReturn_db (s := s) sameCno
      ⟨client, session, now, .returnBook bno cno⟩ bno cno stock
    rw [hclick] at hdb
    rw [hdb, returnBook_keeps_iff sameCno h]
    refine ⟨fun hcurrent v hv => ?_, fun hall => hall stock htable⟩
    cases htable.symm.trans hv
    exact hcurrent

/-- A request that cannot be sent has no number that is wrong. -/
theorem sendsCurrent_of_step_eq_none {q : Request Client C B D} (hs : s.step sameCno q = none) :
    s.SendsCurrent q := by
  obtain ⟨client, session, now, action⟩ := q
  cases action with
  | search listed => trivial
  | getBorrow isAdmin cno => trivial
  | borrow bno borrowcno =>
    intro stock hstock hne
    have htable : s.searchTable client bno = some stock := hstock
    unfold step at hs
    simp only [htable] at hs
    exact absurd (hs.symm.trans (if_neg hne)) nofun
  | returnBook bno cno =>
    intro stock hstock
    have htable : s.returnTable client bno = some stock := hstock
    unfold step at hs
    simp only [htable] at hs
    exact absurd hs nofun

/-- **The stock is conserved.** Where no book is out at the start, every request of any
interleaving leaves the stock of every book not negative and the initial one less the
copies that are out, and changes no date of a return, exactly if every client sends the
right numbers. -/
theorem conserved_iff {db : Database C B D} (hstock : ∀ bno, 0 ≤ db.stock bno)
    (hreturned : ∀ r ∈ db.borrows, r.returnDate ≠ none)
    (requests : List (Request Client C B D)) :
    Machine.Always (step sameCno)
        (fun s _ s' => Conserved db.stock s'.db ∧ s.db.KeepsReturned s'.db) (start db) requests ↔
      Machine.Meets (step sameCno) SendsCurrent (start db) requests := by
  have h₀ : Conserved db.stock (start db : State Client C B D).db := by
    intro bno
    have hzero : db.outCount bno = 0 := List.countP_eq_zero.mpr (fun r hr => by
      simp [BorrowRow.isOut, hreturned r hr])
    refine ⟨hstock bno, ?_⟩
    show db.stock bno = db.stock bno - db.outCount bno
    omega
  exact Machine.always_iff_meets (I := fun s : State Client C B D => Conserved db.stock s.db) h₀
    (fun s q s' success h hs => ⟨step_keeps_iff h hs, And.left⟩)
    (fun s q _ hs => sendsCurrent_of_step_eq_none hs) requests

/-- A library with five copies of each book. -/
def fiveCopies : Database ℕ ℕ ℕ := ⟨fun _ => 5, []⟩

/-- A request of a client to whom card `9` has logged in. -/
def ask (client now : ℕ) (action : Action ℕ ℕ) : Request ℕ ℕ ℕ ℕ := ⟨client, some 9, now, action⟩

/-- Client `0` finds book `7` and lends it to card `1`; client `1` takes it back. -/
def borrowAndReturn : List (Request ℕ ℕ ℕ ℕ) :=
  [ask 0 1 (.search [7]), ask 0 2 (.borrow 7 1), ask 1 3 (.getBorrow true 1),
    ask 1 4 (.returnBook 7 1)]

/-- They keep the stock right. -/
theorem conserved_iff_borrowAndReturn :
    Machine.Always (step (· == ·))
        (fun s _ s' => Conserved fiveCopies.stock s'.db ∧ s.db.KeepsReturned s'.db)
        (start fiveCopies) borrowAndReturn ∧
      ∃ s, Machine.run (step (· == ·)) (start fiveCopies) borrowAndReturn =
          some (s, [true, true, true, true]) ∧ s.db.stock 7 = 5 := by
  have hstock : ∀ bno, 0 ≤ fiveCopies.stock bno := fun _ => Int.zero_le_ofNat 5
  exact ⟨(conserved_iff hstock nofun borrowAndReturn).mpr (by decide), _, rfl, rfl⟩

/-- Two clients find book `7` before each of them lends it. -/
def overlappingReads : List (Request ℕ ℕ ℕ ℕ) :=
  [ask 0 1 (.search [7]), ask 1 2 (.search [7]), ask 0 3 (.borrow 7 1), ask 1 4 (.borrow 7 2)]

/-- Card `1` borrows book `7` again after it has returned it. -/
def borrowAgain : List (Request ℕ ℕ ℕ ℕ) :=
  borrowAndReturn ++ [ask 0 5 (.search [7]), ask 0 6 (.borrow 7 1), ask 1 7 (.getBorrow true 1)]

/-- After overlapping reads two copies are out and the stock is only one less, and the
second return of a book changes the date of the first one. -/
theorem not_conserved_overlappingReads :
    (¬ ∀ (requests : List (Request ℕ ℕ ℕ ℕ)) (s : State ℕ ℕ ℕ ℕ) (answers : List Bool),
      Machine.run (step (· == ·)) (start fiveCopies) requests = some (s, answers) →
        Conserved fiveCopies.stock s.db) ∧
    ¬ ∀ requests : List (Request ℕ ℕ ℕ ℕ),
      Machine.Always (step (· == ·)) (fun s _ s' => s.db.KeepsReturned s'.db)
        (start fiveCopies) requests := by
  refine ⟨fun hall => ?_, fun hall => ?_⟩
  · have hrun : ∃ s, Machine.run (step (· == ·)) (start fiveCopies) overlappingReads =
        some (s, [true, true, true, true]) ∧ s.db.stock 7 = 4 ∧ s.db.outCount 7 = 2 :=
      ⟨_, rfl, rfl, rfl⟩
    obtain ⟨s, hrun, hstock, hout⟩ := hrun
    have hconserved := (hall _ _ _ hrun 7).2
    rw [hstock, hout] at hconserved
    exact absurd hconserved (by decide)
  · have hlast := (hall (borrowAgain ++ [ask 1 8 (.returnBook 7 1)])).of_append rfl
    obtain ⟨r, hr, hdate⟩ := (hlast _ _ rfl).1 0 _ rfl 4 rfl
    cases hr
    exact absurd hdate (by decide)

end State

end Library
