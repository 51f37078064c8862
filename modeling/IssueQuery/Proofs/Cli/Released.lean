import IssueQuery.Cli
import IssueQuery.Proofs.Engine.Draining

/-!
# The database is released

However a run of the command ends, a database that it opened is closed in the end, and what it
printed is all or nothing: a run that fails has printed nothing to standard output, be it that an
argument, a setting or the query is wrong, that the tables cannot be created, that the store refuses
a statement in the middle, or that a row is unfit.

* `runQuery_cases`            a query on an open database gets a result or a rejection;
* `Ends`, `ends_run`          the ways in which a run ends;
* `Released`, `Complete`      what is promised of the database and of the output;
* `run_releases`              exit codes, output and closing agree on all ways.
-/

namespace IssueQuery.Cli

open Engine (Stated)

/-! ## Queries on an open database -/

/-- The engine when the query was called and all turns have passed. -/
def answered (config : Config) (db : Database) (text : Text) : Engine.State :=
  let cfg : Engine.Settings := ⟨config.cacheTtl, config.cacheDisabled, ⟨"[bql] ", config.logLevel⟩⟩
  Engine.drain cfg db.store (Engine.call cfg db.store (.initial 0) text none)

theorem answered_settles (config : Config) (db : Database) (text : Text) :
    ∃ result, (answered config db text).result? 0 = some result :=
  Engine.drain_settles _ db.store 0 text none

theorem answered_stated (config : Config) (db : Database) (text : Text) :
    Stated (answered config db text).journal :=
  Engine.drain_journal _ db.store 0 text none

/-- A query prints all issues of its result, or fails with the message of its rejection. -/
theorem runQuery_cases (config : Config) (db : Database) (text : Text) (asJson : Bool) :
    let s := answered config db text
    (∃ result, s.result? 0 = some (.ok result) ∧ runQuery config db text asJson =
      ⟨0, issuesText result.outcome.issues asJson, truncationWarning result.outcome, s.lines,
        s.journal⟩) ∨
    ∃ rejection, s.result? 0 = some (.error rejection) ∧ runQuery config db text asJson =
      { complaint rejection.message with lines := s.lines, journal := s.journal } := by
  obtain ⟨result | result, hresult⟩ := answered_settles config db text
  · refine .inr ⟨result, hresult, ?_⟩
    unfold answered at hresult
    unfold runQuery
    dsimp only at hresult ⊢
    rw [hresult]
    rfl
  · refine .inl ⟨result, hresult, ?_⟩
    unfold answered at hresult
    unfold runQuery
    dsimp only at hresult ⊢
    rw [hresult]
    rfl

theorem runQuery_stated (config : Config) (db : Database) (text : Text) (asJson : Bool) :
    Stated (runQuery config db text asJson).journal := by
  have hstated := answered_stated config db text
  obtain ⟨result, -, hquery⟩ | ⟨rejection, -, hquery⟩ := runQuery_cases config db text asJson
  · rw [hquery]
    exact hstated
  · rw [hquery]
    exact hstated

/-! ## How a run ends -/

/-- What is done with an open database: the script that creates tables fails, or the query among the
arguments is run. -/
inductive Work (args : List Text) (env : Environment) (db : Database) : Report → Prop
  | unscripted (fault : StoreFault) (told : fault.message?.isSome) :
    Work args env db (complaint (fault.message?.get told))
  | queried (text : Text) (overrides : Overrides) (config : Config)
    (htext : positional args ["--db", "--log-level"] = some text)
    (hconfig : Config.load env overrides = .ok config) :
    Work args env db (runQuery config db text (hasFlag args "--json"))

/-- The ways in which a run of the command ends. -/
inductive Ends (args : List Text) (env : Environment) (db : Database) : Report → Prop
  /-- It only prints something. -/
  | printed (out : Text) : Ends args env db (.printed out)
  /-- It fails before it turns to the database. -/
  | refused (err : Text) : Ends args env db (.refused err)
  /-- The database cannot be opened. -/
  | shut (path message : Text) (mustExist : Bool) (hfault : db.openFault = some message) :
    Ends args env db { complaint message with journal := [.opened path mustExist] }
  /-- The database is opened, worked on and closed. -/
  | worked (path : Text) (init : Bool) (report : Report) (hopen : db.openFault = none)
    (hwork : Work args env db report) :
    Ends args env db { report with
      journal := .opened path (!init) :: (if init then [.script Store.schema] else [])
        ++ report.journal ++ [.closed] }

variable {args : List Text} {env : Environment} {db : Database} {report : Report}

theorem ends_withDatabase {text : Text} {overrides : Overrides} {config : Config}
    (htext : positional args ["--db", "--log-level"] = some text)
    (hconfig : Config.load env overrides = .ok config) (path : Text) (db : Database)
    (init : Bool) :
    Ends args env db (withDatabase config path db init text (hasFlag args "--json")) := by
  have hqueried : Work args env db _ := .queried text overrides config htext hconfig
  unfold withDatabase
  cases hopen : db.openFault with
  | some message => exact .shut path message (!init) hopen
  | none =>
    cases init with
    | false => exact .worked path false _ hopen hqueried
    | true =>
      cases db.schemaFault with
      | some fault => exact .worked path true _ hopen (.unscripted fault.val fault.property)
      | none => exact .worked path true _ hopen hqueried

theorem ends_query (args : List Text) (env : Environment) (db : Database) :
    Ends args env db (query args env db) := by
  unfold query
  split
  · exact .refused _
  · rename_i text htext
    dsimp only
    split
    · exact .refused _
    · split
      · exact .refused _
      · rename_i config hconfig
        split
        · exact .refused _
        · exact .refused _
        · exact ends_withDatabase htext hconfig _ db _

theorem ends_check (args' : List Text) : Ends args env db (check args') := by
  unfold check
  split
  · exact .refused _
  · split
    · exact .refused _
    · split
      · exact .refused _
      · exact .printed _

theorem ends_tokens (args' : List Text) : Ends args env db (tokens args') := by
  unfold tokens
  split
  · exact .refused _
  · exact .printed _

theorem ends_run (args : List Text) (env : Environment) (db : Database) :
    Ends args env db (run args env db) := by
  unfold run
  split
  · exact .printed _
  · split
    · exact .printed _
    · split
      · exact .printed _
      · split
        · exact ends_query _ env db
        · split
          · exact ends_check _
          · split
            · exact ends_tokens _
            · exact .refused _

/-! ## What all ends have in common -/

/-- The exit code says whether there is output: a failure comes with none. -/
def Report.Whole (report : Report) : Prop :=
  report.code = 0 ∨ report.code = 1 ∧ report.out = []

/-- A run that opens the database closes it, once and in the end. -/
structure Released (journal : List StoreCall) : Prop where
  once : journal.count .closed = 1
  last : journal.getLast? = some .closed

/-- The output is what the query among the arguments selects, with nothing left out. -/
def Report.Complete (args : List Text) (env : Environment) (db : Database) (report : Report) :
    Prop :=
  ∃ text overrides config result, positional args ["--db", "--log-level"] = some text ∧
    Config.load env overrides = .ok config ∧
    (answered config db text).result? 0 = some (.ok result) ∧
    report.out = issuesText result.outcome.issues (hasFlag args "--json")

namespace Work

theorem whole (h : Work args env db report) : report.Whole := by
  cases h with
  | unscripted fault told => exact .inr ⟨rfl, rfl⟩
  | queried text overrides config htext hconfig =>
    obtain ⟨result, -, hquery⟩ | ⟨rejection, -, hquery⟩ := runQuery_cases config db text _
    · rw [hquery]
      exact .inl rfl
    · rw [hquery]
      exact .inr ⟨rfl, rfl⟩

theorem stated (h : Work args env db report) : Stated report.journal := by
  cases h with
  | unscripted fault told => exact Engine.stated_nil
  | queried text overrides config htext hconfig => exact runQuery_stated config db text _

theorem complete (h : Work args env db report) (hcode : report.code = 0) :
    report.Complete args env db := by
  cases h with
  | unscripted fault told => cases hcode
  | queried text overrides config htext hconfig =>
    obtain ⟨result, hresult, hquery⟩ | ⟨rejection, -, hquery⟩ := runQuery_cases config db text _
    · exact ⟨text, overrides, config, result, htext, hconfig, hresult, by rw [hquery]⟩
    · rw [hquery] at hcode
      cases hcode

end Work

theorem released_of_stated {journal script : List StoreCall} (hscript : .closed ∉ script)
    (hstated : Stated journal) (path : Text) (mustExist : Bool) :
    Released (.opened path mustExist :: script ++ journal ++ [.closed]) where
  once := by
    -- the engine notes nothing but statements
    have hjournal : StoreCall.closed ∉ journal := fun hclosed => by
      obtain ⟨sql, params, hentry⟩ := hstated _ hclosed
      cases hentry
    rw [List.count_append, List.count_append, List.count_cons,
      List.count_eq_zero.mpr hscript, List.count_eq_zero.mpr hjournal]
    rfl
  last := List.getLast?_concat

namespace Ends

theorem whole (h : Ends args env db report) : report.Whole := by
  cases h with
  | printed out => exact .inl rfl
  | refused err => exact .inr ⟨rfl, rfl⟩
  | shut path message mustExist hfault => exact .inr ⟨rfl, rfl⟩
  | worked path init report hopen hwork => exact hwork.whole

theorem released (h : Ends args env db report) (hopen : db.openFault = none) {path : Text}
    {mustExist : Bool} (hopened : .opened path mustExist ∈ report.journal) :
    Released report.journal ∧ (report.code = 0 → report.Complete args env db) := by
  cases h with
  | printed out => cases hopened
  | refused err => cases hopened
  | shut path message mustExist hfault => cases hopen.symm.trans hfault
  | worked path init report hopen hwork =>
    have hscript : .closed ∉ if init then [StoreCall.script Store.schema] else [] := by
      cases init <;> simp
    exact ⟨released_of_stated hscript hwork.stated path (!init), hwork.complete⟩

/-- What could not be opened is not closed. -/
theorem not_closed (h : Ends args env db report) (hshut : db.openFault ≠ none) :
    .closed ∉ report.journal := by
  cases h with
  | printed out => exact List.not_mem_nil
  | refused err => exact List.not_mem_nil
  | shut path message mustExist hfault => simp
  | worked path init report hopen hwork => exact absurd hopen hshut

end Ends

/-- However a run ends, it gives an exit code, and the database that it opened is closed.

The exit code is 0 or 1, and with 1 nothing is printed to standard output. If the database was
opened, it is closed once, and nothing is done with it afterwards; with 0 all issues of the result
are printed then. A database that could not be opened is not closed. There is always an exit code,
for the engine gives the call of the command a result or a rejection, whatever the store answers. -/
theorem run_releases (args : List Text) (env : Environment) (db : Database) :
    let report := run args env db
    (report.code = 0 ∨ report.code = 1) ∧ (report.code = 1 → report.out = []) ∧
    (db.openFault = none → ∀ path mustExist, .opened path mustExist ∈ report.journal →
      Released report.journal ∧ (report.code = 0 → report.Complete args env db)) ∧
    (db.openFault ≠ none → .closed ∉ report.journal) ∧
    ∀ config text, ∃ result, (answered config db text).result? 0 = some result := by
  intro report
  have hends : Ends args env db report := ends_run args env db
  refine ⟨?_, fun hcode => ?_, fun hopen path mustExist => hends.released hopen, hends.not_closed,
    fun config text => answered_settles config db text⟩
  · exact hends.whole.imp_right And.left
  · exact hends.whole.elim (fun hzero => nomatch hzero.symm.trans hcode) And.right

/-- A store that is locked when it is given the third statement. -/
def lockedStore : Store := fun n statement =>
  if n = 2 then .refused "database is locked" else Engine.wordStore [["a"]] n statement

/-- A run over the store. -/
def lockedRun : Report :=
  run ["query", "status = open", "--db", "issues.db"] [] ⟨none, none, lockedStore⟩

/-- The run fails between the statements of its query. -/
theorem run_releases_locked :
    lockedRun.code = 1 ∧ lockedRun.out = [] ∧ lockedRun.journal.length = 5 ∧
      Released lockedRun.journal := by
  have hrun : lockedRun.code = 1 ∧ lockedRun.journal.length = 5 ∧
      lockedRun.journal.head? = some (.opened "issues.db" true) := by
    decide +kernel
  obtain ⟨hcode, hlength, hhead⟩ := hrun
  obtain ⟨-, hout, hreleased, -⟩ :=
    run_releases ["query", "status = open", "--db", "issues.db"] [] ⟨none, none, lockedStore⟩
  have hopened : .opened "issues.db" true ∈ lockedRun.journal := List.mem_of_head? hhead
  exact ⟨hcode, hout hcode, hlength, (hreleased rfl "issues.db" true hopened).1⟩

end IssueQuery.Cli
