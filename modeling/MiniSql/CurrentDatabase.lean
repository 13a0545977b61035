import MiniSql.Config
import MiniSql.Machine
import Mathlib.Data.List.AList
import Mathlib.Data.Finset.Basic

/-!
# The databases that are open and the one in use

`ExecuteEngine` keeps the engines of all databases in the map `dbs_` and the
name of the one in use in `current_db_`. `CREATE DATABASE` makes an entry,
`DROP DATABASE` erases one, `USE` looks for one before it keeps its name, and
every statement about tables goes to the engine of `current_db_`: ten executors
ask only whether this name is empty, and then index the map, which makes an
entry without an engine where there is none, or look the name up and use what
is found, whether or not anything is.

`DROP DATABASE` does not touch `current_db_`. So the name in use is that of an
open database after every statement exactly as long as no database is dropped
while it is in use (`sound_iff`); then no statement comes upon a missing engine,
and the destructor lists the databases that have been created and not dropped.

What an engine is, and what an executor does with it once it has it, does not
matter here and is left open.
-/

namespace MiniSql

/-- `MAX_FILE_NAME_LENGTH`. -/
def maxFileNameLength : ℕ := 1000

/-! ## The map of the engines -/

/-- `dbs_`: pointers to engines, by name. -/
abbrev Dbs (E : Type) := AList (fun _ : StdString => Option E)

namespace Dbs

variable {E : Type}

/-- `insert`: no entry is overwritten. -/
def emplace (dbs : Dbs E) (name : StdString) (engine : Option E) : Dbs E :=
  if name ∈ dbs then dbs else dbs.insert name engine

/-- `operator[]`: an entry is made where there is none, with a null pointer. -/
def index (dbs : Dbs E) (name : StdString) : Dbs E × Option E :=
  match dbs.lookup name with
  | some engine => (dbs, engine)
  | none => (dbs.insert name none, none)

end Dbs

/-! ## Statements -/

/-- The statements about the tables of the database in use. -/
inductive StatementOnTables
  | showTables
  | createTable
  | dropTable
  | showIndexes
  | createIndex
  | dropIndex
  | select
  | insert
  | delete
  | update
deriving DecidableEq

/-- A syntax tree, by its node type. -/
inductive EngineStatement (T : Type)
  | createDatabase (name : StdString)
  | dropDatabase (name : StdString)
  | showDatabases
  | useDatabase (name : StdString)
  | onTables (kind : StatementOnTables) (ast : T)
  | trxBegin
  | trxCommit
  | trxRollback
  | execFile
  | quit
  /-- The null pointer, and any other node type. -/
  | unknown

/-- How a statement ends. -/
inductive Outcome
  /-- With an answer, `DB_SUCCESS` or not. -/
  | answered (success : Bool)
  /-- On a null pointer in place of an engine, or behind the end of the map. -/
  | missingEngine
  /-- Behind the end of the buffer for the path of a database. -/
  | overrun
  /-- On a failed assertion or an exception in the work on an engine. -/
  | stopped
deriving DecidableEq

/-- What is left open about engines `E` and syntax trees `T`. -/
structure Engines (E T : Type) where
  /-- `DBStorageEngine`: the engine of a database, new or from its file. -/
  new : StdString → Bool → E
  /-- `ExecuteCreateTable` gives up on the definitions of the columns. -/
  refusesColumns : T → Bool
  /-- What an executor does with the engine of the database in use. -/
  work : StatementOnTables → T → E → Option (E × Bool)

/-! ## The executors -/

/-- `ExecuteEngine`. -/
structure Databases (E : Type) where
  /-- `dbs_` -/
  dbs : Dbs E
  /-- `current_db_` -/
  currentDb : StdString

namespace Databases

variable {E T : Type} (e : Engines E T) (s : Databases E)

/-- The path of a database fits its buffer, with `.db` and the end. -/
def PathFits (name : StdString) : Prop := name.length + 3 < maxFileNameLength

instance (name : StdString) : Decidable (PathFits name) :=
  inferInstanceAs (Decidable (_ < _))

/-- The loop of `ExecuteEngine::ExecuteEngine` over the lines of the list file,
up to an empty one or the end. -/
def openListed : List StdString → Dbs E → Option (Dbs E)
  | [], dbs => some dbs
  | name :: lines, dbs =>
    if name = [] then some dbs
    else if PathFits name then openListed lines (dbs.emplace name (some (e.new name false)))
    else none

/-- `ExecuteEngine::ExecuteEngine`. -/
def construct (lines : List StdString) : Option (Databases E) :=
  (openListed e lines ∅).map (fun dbs => ⟨dbs, []⟩)

/-- `ExecuteEngine::~ExecuteEngine`: the names that are written to the list
file. -/
def listFile : List StdString := s.dbs.keys

/-- `ExecuteCreateDatabase`. -/
def executeCreateDatabase (name : StdString) : Databases E × Outcome :=
  if name ∈ s.dbs then (s, .answered false)
  else if PathFits name then
    ({ s with dbs := s.dbs.emplace name (some (e.new name true)) }, .answered true)
  else (s, .overrun)

/-- `ExecuteDropDatabase`. -/
def executeDropDatabase (name : StdString) : Databases E × Outcome :=
  ({ s with dbs := s.dbs.erase name }, .answered true)

/-- `ExecuteShowDatabases`. -/
def executeShowDatabases : Databases E × Outcome := (s, .answered (!s.dbs.keys.isEmpty))

/-- `ExecuteUseDatabase`. -/
def executeUseDatabase (name : StdString) : Databases E × Outcome :=
  if name ∈ s.dbs then ({ s with currentDb := name }, .answered true) else (s, .answered false)

/-- What an executor does with the pointer that it has come to. -/
def workOn (kind : StatementOnTables) (ast : T) : Option E → Databases E × Outcome
  | none => (s, .missingEngine)
  | some engine =>
    match e.work kind ast engine with
    | none => (s, .stopped)
    | some (engine', success) =>
      ({ s with dbs := s.dbs.insert s.currentDb (some engine') }, .answered success)

/-- The executors that work on `dbs_[current_db_]`. -/
def atCurrent (kind : StatementOnTables) (ast : T) : Databases E × Outcome :=
  if s.currentDb = [] then (s, .answered false)
  else workOn e { s with dbs := (s.dbs.index s.currentDb).1 } kind ast (s.dbs.index s.currentDb).2

/-- The executors that work on `dbs_.find(current_db_)->second`. -/
def findCurrent (kind : StatementOnTables) (ast : T) : Databases E × Outcome :=
  if s.currentDb = [] then (s, .answered false)
  else workOn e s kind ast ((s.dbs.lookup s.currentDb).bind id)

/-- `ExecuteShowTables`. -/
def executeShowTables (ast : T) : Databases E × Outcome := atCurrent e s .showTables ast

/-- `ExecuteCreateTable`: the columns are looked at before the engine. -/
def executeCreateTable (ast : T) : Databases E × Outcome :=
  if s.currentDb = [] then (s, .answered false)
  else if e.refusesColumns ast then (s, .answered false)
  else atCurrent e s .createTable ast

/-- `ExecuteDropTable`. -/
def executeDropTable (ast : T) : Databases E × Outcome := atCurrent e s .dropTable ast

/-- `ExecuteShowIndexes`. -/
def executeShowIndexes (ast : T) : Databases E × Outcome := atCurrent e s .showIndexes ast

/-- `ExecuteCreateIndex`. -/
def executeCreateIndex (ast : T) : Databases E × Outcome := atCurrent e s .createIndex ast

/-- `ExecuteDropIndex`. -/
def executeDropIndex (ast : T) : Databases E × Outcome := atCurrent e s .dropIndex ast

/-- `ExecuteSelect`: the only one that asks whether the database is there. -/
def executeSelect (ast : T) : Databases E × Outcome :=
  if s.currentDb = [] then (s, .answered false)
  else if s.currentDb ∈ s.dbs then findCurrent e s .select ast
  else (s, .answered false)

/-- `ExecuteInsert`. -/
def executeInsert (ast : T) : Databases E × Outcome := atCurrent e s .insert ast

/-- `ExecuteDelete`. -/
def executeDelete (ast : T) : Databases E × Outcome := findCurrent e s .delete ast

/-- `ExecuteUpdate`. -/
def executeUpdate (ast : T) : Databases E × Outcome := findCurrent e s .update ast

/-- `Execute`. -/
def execute : EngineStatement T → Databases E × Outcome
  | .createDatabase name => executeCreateDatabase e s name
  | .dropDatabase name => executeDropDatabase s name
  | .showDatabases => executeShowDatabases s
  | .useDatabase name => executeUseDatabase s name
  | .onTables .showTables ast => executeShowTables e s ast
  | .onTables .createTable ast => executeCreateTable e s ast
  | .onTables .dropTable ast => executeDropTable e s ast
  | .onTables .showIndexes ast => executeShowIndexes e s ast
  | .onTables .createIndex ast => executeCreateIndex e s ast
  | .onTables .dropIndex ast => executeDropIndex e s ast
  | .onTables .select ast => executeSelect e s ast
  | .onTables .insert ast => executeInsert e s ast
  | .onTables .delete ast => executeDelete e s ast
  | .onTables .update ast => executeUpdate e s ast
  | .trxBegin => (s, .answered false)
  | .trxCommit => (s, .answered false)
  | .trxRollback => (s, .answered false)
  | .execFile => (s, .answered false)
  | .quit => (s, .answered true)
  | .unknown => (s, .answered false)

/-- One statement of a program that goes on as long as it gets answers. -/
def step (s : Databases E) (i : EngineStatement T) : Option (Databases E × Bool) :=
  match execute e s i with
  | (s', .answered success) => some (s', success)
  | _ => none

/-! ## The database in use is there -/

/-- **The database in use is there**, if one is in use, and no entry is without
an engine. -/
structure Sound (s : Databases E) : Prop where
  /-- `current_db_` is empty or a key of `dbs_`. -/
  current : s.currentDb = [] ∨ s.currentDb ∈ s.dbs
  /-- No entry of `dbs_` is a null pointer. -/
  engines : ∀ name, s.dbs.lookup name ≠ some none

/-- The statement does not drop the database in use. -/
def KeepsCurrent (s : Databases E) : EngineStatement T → Prop
  | .dropDatabase name => s.currentDb = [] ∨ name ≠ s.currentDb
  | _ => True

instance (s : Databases E) : ∀ i : EngineStatement T, Decidable (s.KeepsCurrent i) := fun i =>
  match i with
  | .dropDatabase name => inferInstanceAs (Decidable (s.currentDb = [] ∨ name ≠ s.currentDb))
  | .createDatabase _ => inferInstanceAs (Decidable True)
  | .showDatabases => inferInstanceAs (Decidable True)
  | .useDatabase _ => inferInstanceAs (Decidable True)
  | .onTables _ _ => inferInstanceAs (Decidable True)
  | .trxBegin => inferInstanceAs (Decidable True)
  | .trxCommit => inferInstanceAs (Decidable True)
  | .trxRollback => inferInstanceAs (Decidable True)
  | .execFile => inferInstanceAs (Decidable True)
  | .quit => inferInstanceAs (Decidable True)
  | .unknown => inferInstanceAs (Decidable True)

/-- The databases that have been created and not dropped, after a statement. -/
def created (names : Finset StdString) : EngineStatement T → Finset StdString
  | .createDatabase name => insert name names
  | .dropDatabase name => names.erase name
  | _ => names

variable {e} {s} {s' : Databases E} {i : EngineStatement T} {kind : StatementOnTables} {ast : T}

/-- An engine is there to work on. -/
theorem Sound.exists_engine (h : s.Sound) (hcurrent : s.currentDb ≠ []) :
    ∃ engine, s.dbs.lookup s.currentDb = some (some engine) := by
  obtain ⟨ptr, hptr⟩ := Option.isSome_iff_exists.mp
    (AList.lookup_isSome.mpr (h.current.resolve_left hcurrent))
  cases ptr with
  | none => exact absurd hptr (h.engines _)
  | some engine => exact ⟨engine, hptr⟩

/-- Indexing the map and looking the name up are the same there. -/
theorem Sound.atCurrent_eq (h : s.Sound) : atCurrent e s kind ast = findCurrent e s kind ast := by
  unfold atCurrent findCurrent
  by_cases hcurrent : s.currentDb = []
  · rw [if_pos hcurrent, if_pos hcurrent]
  · obtain ⟨engine, hengine⟩ := h.exists_engine hcurrent
    rw [if_neg hcurrent, if_neg hcurrent, Dbs.index, hengine]
    rfl

/-- So every executor that gets to an engine is the same up to its work. -/
theorem Sound.execute_onTables (h : s.Sound) (kind : StatementOnTables) (ast : T) :
    execute e s (.onTables kind ast) = (s, .answered false) ∨
      execute e s (.onTables kind ast) = findCurrent e s kind ast := by
  cases kind with
  | createTable =>
    show executeCreateTable e s ast = _ ∨ executeCreateTable e s ast = _
    unfold executeCreateTable
    split
    · exact .inl rfl
    · split
      · exact .inl rfl
      · exact .inr h.atCurrent_eq
  | select =>
    show executeSelect e s ast = _ ∨ executeSelect e s ast = _
    unfold executeSelect
    split
    · exact .inl rfl
    · split
      · exact .inr rfl
      · exact .inl rfl
  | delete => exact .inr rfl
  | update => exact .inr rfl
  | _ => exact .inr h.atCurrent_eq

/-- A new engine in place of the one of the database in use. -/
theorem Sound.insert_current (h : s.Sound) (hcurrent : s.currentDb ≠ []) (engine : E) :
    Sound { s with dbs := s.dbs.insert s.currentDb (some engine) } ∧
      ∀ name, name ∈ s.dbs.insert s.currentDb (some engine) ↔ name ∈ s.dbs := by
  have hmem := h.current.resolve_left hcurrent
  refine ⟨⟨.inr ((AList.mem_insert _).mpr (.inl rfl)), fun name => ?_⟩, fun name => ?_⟩
  · show (s.dbs.insert s.currentDb (some engine)).lookup name ≠ some none
    by_cases hname : name = s.currentDb
    · rw [hname, AList.lookup_insert]
      exact nofun
    · rw [AList.lookup_insert_ne hname]
      exact h.engines name
  · rw [AList.mem_insert]
    exact ⟨fun h' => h'.elim (fun heq => heq ▸ hmem) id, .inr⟩

/-- **The statements about tables** never come upon a missing engine, and leave
the databases and the choice of one as they are. -/
theorem Sound.onTables (h : s.Sound) (kind : StatementOnTables) (ast : T) :
    (execute e s (.onTables kind ast)).2 ≠ .missingEngine ∧
      (execute e s (.onTables kind ast)).1.Sound ∧
      ∀ name, name ∈ (execute e s (.onTables kind ast)).1.dbs ↔ name ∈ s.dbs := by
  rcases h.execute_onTables (e := e) kind ast with heq | heq
  · rw [heq]
    exact ⟨nofun, h, fun _ => Iff.rfl⟩
  rw [heq, findCurrent]
  by_cases hcurrent : s.currentDb = []
  · rw [if_pos hcurrent]
    exact ⟨nofun, h, fun _ => Iff.rfl⟩
  obtain ⟨engine, hengine⟩ := h.exists_engine hcurrent
  rw [if_neg hcurrent, hengine]
  show (workOn e s kind ast (some engine)).2 ≠ _ ∧ (workOn e s kind ast (some engine)).1.Sound ∧
    ∀ name, name ∈ (workOn e s kind ast (some engine)).1.dbs ↔ name ∈ s.dbs
  rw [workOn]
  cases e.work kind ast engine with
  | none => exact ⟨nofun, h, fun _ => Iff.rfl⟩
  | some r => exact ⟨nofun, h.insert_current hcurrent r.1⟩

theorem mem_emplace {dbs : Dbs E} {name name' : StdString} {engine : Option E} :
    name' ∈ dbs.emplace name engine ↔ name' = name ∨ name' ∈ dbs := by
  unfold Dbs.emplace
  split
  · rename_i hmem
    exact ⟨.inr, fun h => h.elim (fun heq => heq ▸ hmem) id⟩
  · exact AList.mem_insert _

/-- An entry with an engine. -/
theorem lookup_emplace_ne {dbs : Dbs E} (h : ∀ name, dbs.lookup name ≠ some none)
    (name : StdString) (engine : E) (name' : StdString) :
    (dbs.emplace name (some engine)).lookup name' ≠ some none := by
  unfold Dbs.emplace
  split
  · exact h name'
  · by_cases hname : name' = name
    · rw [hname, AList.lookup_insert]
      exact nofun
    · rw [AList.lookup_insert_ne hname]
      exact h name'

/-- No statement comes upon a missing engine. -/
theorem Sound.execute_ne_missingEngine (h : s.Sound) (i : EngineStatement T) :
    (execute e s i).2 ≠ .missingEngine := by
  cases i with
  | onTables kind ast => exact (h.onTables kind ast).1
  | createDatabase name =>
    show (executeCreateDatabase e s name).2 ≠ _
    unfold executeCreateDatabase
    split
    · exact nofun
    · split <;> exact nofun
  | useDatabase name =>
    show (executeUseDatabase s name).2 ≠ _
    unfold executeUseDatabase
    split <;> exact nofun
  | _ => exact nofun

/-- **One statement.** The database in use stays there exactly if it is not
dropped. -/
theorem Sound.execute_iff (h : s.Sound) (i : EngineStatement T) :
    (execute e s i).1.Sound ↔ s.KeepsCurrent i := by
  cases i with
  | dropDatabase name =>
    show Sound { s with dbs := s.dbs.erase name } ↔ s.currentDb = [] ∨ name ≠ s.currentDb
    constructor
    · exact fun h' => h'.current.imp_right (fun hmem => (AList.mem_erase.mp hmem).1.symm)
    · intro hkeeps
      refine ⟨?_, fun name' => ?_⟩
      · by_cases hcurrent : s.currentDb = []
        · exact .inl hcurrent
        · exact .inr (AList.mem_erase.mpr ⟨(hkeeps.resolve_left hcurrent).symm,
            h.current.resolve_left hcurrent⟩)
      · show (s.dbs.erase name).lookup name' ≠ some none
        by_cases hname : name' = name
        · rw [hname, AList.lookup_erase]
          exact nofun
        · rw [AList.lookup_erase_ne hname]
          exact h.engines name'
  | createDatabase name =>
    refine iff_of_true ?_ trivial
    show (executeCreateDatabase e s name).1.Sound
    unfold executeCreateDatabase
    split
    · exact h
    · split
      · exact ⟨h.current.imp_right (fun hmem => mem_emplace.mpr (.inr hmem)),
          lookup_emplace_ne h.engines name _⟩
      · exact h
  | useDatabase name =>
    refine iff_of_true ?_ trivial
    show (executeUseDatabase s name).1.Sound
    unfold executeUseDatabase
    split
    · rename_i hmem
      exact ⟨.inr hmem, h.engines⟩
    · exact h
  | onTables kind ast => exact iff_of_true (h.onTables kind ast).2.1 trivial
  | _ => exact iff_of_true h trivial

/-- A statement that is answered is one step. -/
theorem step_eq_some {success : Bool} :
    step e s i = some (s', success) ↔ execute e s i = (s', .answered success) := by
  unfold step
  rcases execute e s i with ⟨s₁, _ | _⟩ <;> simp

/-- **One statement.** The databases are those that have been created and not
dropped. -/
theorem Sound.mem_dbs_iff (h : s.Sound) {success : Bool} (hs : step e s i = some (s', success))
    {names : Finset StdString} (hnames : ∀ name, name ∈ s.dbs ↔ name ∈ names) (name : StdString) :
    name ∈ s'.dbs ↔ name ∈ created names i := by
  have hexecute := step_eq_some.mp hs
  cases i with
  | dropDatabase name' =>
    obtain ⟨rfl, -⟩ := Prod.mk.inj (hexecute : (_, _) = _)
    show name ∈ s.dbs.erase name' ↔ name ∈ names.erase name'
    rw [AList.mem_erase, Finset.mem_erase, hnames]
  | createDatabase name' =>
    have hcreate : executeCreateDatabase e s name' = (s', .answered success) := hexecute
    show _ ↔ name ∈ insert name' names
    unfold executeCreateDatabase at hcreate
    rw [Finset.mem_insert, ← hnames]
    split at hcreate
    · rename_i hmem
      obtain ⟨rfl, -⟩ := Prod.mk.inj hcreate
      exact ⟨.inr, fun h' => h'.elim (fun heq => heq ▸ hmem) id⟩
    · split at hcreate
      · obtain ⟨rfl, -⟩ := Prod.mk.inj hcreate
        exact mem_emplace
      · exact absurd hcreate (by simp)
  | useDatabase name' =>
    have huse : executeUseDatabase s name' = (s', .answered success) := hexecute
    unfold executeUseDatabase at huse
    split at huse
    all_goals
      obtain ⟨rfl, -⟩ := Prod.mk.inj huse
      exact hnames name
  | onTables kind ast =>
    have hmem := (h.onTables (e := e) kind ast).2.2 name
    rw [hexecute] at hmem
    exact hmem.trans (hnames name)
  | _ =>
    obtain ⟨rfl, -⟩ := Prod.mk.inj (hexecute : (_, _) = _)
    exact hnames name

/-! ## Runs -/

/-- The engines of the list file are there, and no others. -/
theorem sound_of_construct {lines : List StdString} (h : construct e lines = some s) :
    s.Sound ∧ ∀ name, name ∈ s.dbs ↔ name ∈ (lines.takeWhile (· ≠ [])).toFinset := by
  obtain ⟨dbs, hopen, rfl⟩ := Option.map_eq_some_iff.mp h
  have hall : ∀ (lines : List StdString) (dbs₀ : Dbs E), openListed e lines dbs₀ = some dbs →
      (∀ name, dbs₀.lookup name ≠ some none) → (∀ name, dbs.lookup name ≠ some none) ∧
        ∀ name, name ∈ dbs ↔ name ∈ dbs₀ ∨ name ∈ lines.takeWhile (· ≠ []) := by
    intro lines
    induction lines with
    | nil =>
      intro dbs₀ hopen hengines
      cases hopen
      exact ⟨hengines, fun name => by simp⟩
    | cons line lines ih =>
      intro dbs₀ hopen hengines
      unfold openListed at hopen
      by_cases hline : line = []
      · rw [if_pos hline] at hopen
        cases hopen
        exact ⟨hengines, fun name => by simp [hline]⟩
      · rw [if_neg hline] at hopen
        obtain ⟨-, hopen⟩ := Option.ite_none_right_eq_some.mp hopen
        obtain ⟨hrest, hmem⟩ := ih _ hopen (lookup_emplace_ne hengines line _)
        refine ⟨hrest, fun name => ?_⟩
        rw [hmem name, mem_emplace, List.takeWhile_cons_of_pos (by simpa using hline),
          List.mem_cons, or_assoc, or_left_comm]
  obtain ⟨hengines, hmem⟩ := hall lines ∅ hopen (fun name => by
    rw [AList.lookup_empty]
    exact nofun)
  refine ⟨⟨.inl rfl, hengines⟩, fun name => ?_⟩
  rw [List.mem_toFinset]
  exact (hmem name).trans (or_iff_right (AList.notMem_empty name))

/-- What holds after a sequence of statements none of which drops the database in
use. -/
theorem sound_of_run {calls : List (EngineStatement T)} {answers : List Bool}
    {names : Finset StdString} (h : s.Sound) (hnames : ∀ name, name ∈ s.dbs ↔ name ∈ names)
    (hm : Machine.Meets (step e) KeepsCurrent s calls)
    (hrun : Machine.run (step e) s calls = some (s', answers)) :
    s'.Sound ∧ ∀ name, name ∈ s'.dbs ↔ name ∈ calls.foldl created names := by
  induction calls generalizing s names answers with
  | nil =>
    cases hrun
    exact ⟨h, hnames⟩
  | cons i calls ih =>
    obtain ⟨s₁, success, answers', hs, hrest, -⟩ := Machine.run_cons_eq_some hrun
    have h₁ : s₁.Sound := by
      have hsound := (h.execute_iff (e := e) i).mpr hm.1
      rwa [step_eq_some.mp hs] at hsound
    exact ih h₁ (h.mem_dbs_iff hs hnames) (hm.2 s₁ success hs) hrest

/-- **The database in use exists.** From the engines of any list file, the
database in use is there after every statement, with no entry without an engine,
exactly if no statement drops the database in use. Then no further statement
comes upon a missing engine, and the destructor writes the databases that have
been created and not dropped, each of them once. -/
theorem sound_iff {lines : List StdString} {s₀ : Databases E}
    (h₀ : construct e lines = some s₀) (calls : List (EngineStatement T)) :
    (Machine.Always (step e) (fun _ _ s => s.Sound) s₀ calls ↔
        Machine.Meets (step e) KeepsCurrent s₀ calls) ∧
      (Machine.Meets (step e) KeepsCurrent s₀ calls →
        ∀ s answers, Machine.run (step e) s₀ calls = some (s, answers) →
          (∀ i, (execute e s i).2 ≠ .missingEngine) ∧ s.listFile.Nodup ∧
          ∀ name, name ∈ s.listFile ↔
            name ∈ calls.foldl created (lines.takeWhile (· ≠ [])).toFinset) := by
  obtain ⟨hsound, hnames⟩ := sound_of_construct h₀
  constructor
  · refine Machine.always_iff_meets hsound (fun s i s' o h hs => ⟨?_, id⟩)
      (fun s i _ hs => ?_) calls
    · rw [← h.execute_iff (e := e) i, step_eq_some.mp hs]
    · cases i with
      | dropDatabase name => exact absurd hs nofun
      | _ => trivial
  · intro hm s answers hrun
    obtain ⟨h, hmem⟩ := sound_of_run hsound hnames hm hrun
    exact ⟨h.execute_ne_missingEngine, AList.keys_nodup _, fun name =>
      AList.mem_keys.symm.trans (hmem name)⟩

/-- Engines that count the statements that have worked on them. -/
def countingEngines : Engines ℕ Unit where
  new _ _ := 0
  refusesColumns _ := false
  work _ _ n := some (n + 1, true)

/-- Two databases are created, one is used, a table is made there, and the other
one is dropped. -/
def dropsOther : List (EngineStatement Unit) :=
  [.createDatabase [97], .createDatabase [98], .useDatabase [97], .onTables .createTable (),
    .dropDatabase [98]]

/-- The one in use stays there. -/
theorem sound_iff_dropsOther :
    Machine.Always (step countingEngines) (fun _ _ s => s.Sound) ⟨∅, []⟩ dropsOther ∧
      ∃ s, Machine.run (step countingEngines) ⟨∅, []⟩ dropsOther =
          some (s, [true, true, true, true, true]) ∧ s.listFile = [[97]] := by
  have h₀ : construct countingEngines [] = some ⟨∅, []⟩ := rfl
  obtain ⟨hiff, -⟩ := sound_iff h₀ dropsOther
  exact ⟨hiff.mpr (by decide), _, rfl, rfl⟩

/-- A database is created, used and dropped. -/
def dropsCurrent : List (EngineStatement Unit) :=
  [.createDatabase [97], .useDatabase [97], .dropDatabase [97]]

/-- Its name is still the one in use, and the next statement about tables comes
upon a missing engine. -/
theorem not_sound_dropsCurrent :
    (¬ ∀ calls : List (EngineStatement Unit),
      Machine.Always (step countingEngines) (fun _ _ s => s.Sound) ⟨∅, []⟩ calls) ∧
    ¬ ∀ (calls : List (EngineStatement Unit)) (s : Databases ℕ) (answers : List Bool),
      Machine.run (step countingEngines) ⟨∅, []⟩ calls = some (s, answers) →
        ∀ i, (execute countingEngines s i).2 ≠ .missingEngine := by
  refine ⟨fun hall => ?_, fun hall => ?_⟩
  · obtain ⟨-, hused⟩ := hall dropsCurrent _ _ rfl
    obtain ⟨-, hdropped⟩ := hused _ _ rfl
    obtain ⟨hsound, -⟩ := hdropped ⟨∅, [97]⟩ true rfl
    exact hsound.current.elim (List.cons_ne_nil _ _) (AList.notMem_empty _)
  · exact hall dropsCurrent ⟨∅, [97]⟩ [true, true, true] rfl (.onTables .showTables ()) rfl

end Databases

end MiniSql
