import IssueQuery.Proofs.Cli.Released
import IssueQuery.Proofs.Engine.Announcing
import IssueQuery.Proofs.Engine.Tables

/-!
# What goes to standard output

A query that is asked for JSON prints its issues and nothing else, and what the log has to say goes
to standard error, with one exception: at the level `debug` the log announces the result, and it does
so on standard output, in front of the issues.

* `query_of_code`         a query that does not fail prints what the engine gave it;
* `Report.standardOutput` all that goes to standard output;
* `query_output`          it is the issues as JSON, but for the announcement.
-/

namespace IssueQuery.Cli

variable {args : List Text} {env : Environment} {db : Database} {config : Config} {text : Text}

/-! ## Queries that do not fail -/

/-- The settings that the arguments of a query give. -/
def overrides (args : List Text) : Overrides where
  database := flagValue args "--db"
  cacheTtl := none
  cacheDisabled := if hasFlag args "--no-cache" then some true else none
  logLevel := (flagValue args "--log-level").bind LogLevel.ofName?

/-- The report is that of the result that the engine gave. -/
def Report.Tells (report : Report) (config : Config) (db : Database) (text : Text) (asJson : Bool) :
    Prop :=
  ∃ result, (answered config db text).result? 0 = some (.ok result) ∧
    report.out = issuesText result.outcome.issues asJson ∧
    report.lines = (answered config db text).lines

theorem tells_runQuery {asJson : Bool} (h : (runQuery config db text asJson).code = 0) :
    (runQuery config db text asJson).Tells config db text asJson := by
  obtain ⟨result, hresult, hquery⟩ | ⟨rejection, -, hquery⟩ := runQuery_cases config db text asJson
  · rw [hquery]
    exact ⟨result, hresult, rfl, rfl⟩
  · rw [hquery] at h
    cases h

theorem tells_withDatabase {path : Text} {init asJson : Bool}
    (h : (withDatabase config path db init text asJson).code = 0) :
    (withDatabase config path db init text asJson).Tells config db text asJson := by
  unfold withDatabase at h ⊢
  dsimp only at h ⊢
  split at h
  · cases h
  · split at h
    · cases h
    · exact tells_runQuery h

theorem query_of_code (h : (query args env db).code = 0) :
    ∃ text config, positional args ["--db", "--log-level"] = some text ∧
      Config.load env (overrides args) = .ok config ∧
      (query args env db).Tells config db text (hasFlag args "--json") := by
  unfold query at h ⊢
  split at h
  · cases h
  · rename_i text htext
    dsimp only at h ⊢
    split at h
    · cases h
    · split at h
      · cases h
      · rename_i config hconfig
        split at h
        · cases h
        · cases h
        · exact ⟨text, config, htext, hconfig, tells_withDatabase h⟩

theorem run_query (hcommand : args.head? = some (Text.ofString "query"))
    (hhelp : hasFlag args "--help" = false) (hshort : hasFlag args "-h" = false) :
    run args env db = query args env db := by
  cases args with
  | nil => cases hcommand
  | cons command rest =>
    obtain rfl := Option.some.inj hcommand
    unfold run
    rw [hhelp, hshort]
    exact (if_neg (by decide)).trans ((if_neg (by decide)).trans (if_pos rfl))

/-! ## Standard output -/

/-- All that a run writes to standard output, where a line of the log looks as shown. The lines come
first, for the engine has done its work when the issues are printed. -/
def Report.standardOutput (report : Report) (shown : LogLine → Text) : Text :=
  ((outputLines report.lines).map shown).flatten ++ report.out

/-- The announcement of a result on standard output. -/
def announcement (r : Engine.Result) : LogLine where
  diagnostic := false
  text := "[bql] query complete"
  values := [.obj [("query", .str r.text), ("count", Issue.jsonInt r.outcome.issues.length),
    ("elapsed_ms", .num r.elapsed)]]

/-- Only a logger that passes on everything announces results. -/
theorem announcement?_eq (level : LogLevel) (r : Engine.Result) :
    (Engine.announcement? ⟨"[bql] ", level⟩ r).toList =
      if level = .debug then [announcement r] else [] := by
  cases level <;> rfl

theorem outputLines_answered {result : Engine.Result}
    (hresult : (answered config db text).result? 0 = some (.ok result)) :
    outputLines (answered config db text).lines =
      if config.logLevel = .debug then [announcement result] else [] := by
  rw [← announcement?_eq]
  exact Engine.drain_outputLines hresult

/-- What is shown of the lines of a log is nothing only if there are no lines. -/
theorem standardOutput_eq_out {report : Report} {shown : LogLine → Text}
    (hshown : ∀ l, shown l ≠ []) :
    report.standardOutput shown = report.out ↔ outputLines report.lines = [] := by
  rw [Report.standardOutput, List.append_left_eq_self, List.flatten_eq_nil_iff]
  constructor
  · intro hnone
    refine List.eq_nil_iff_forall_not_mem.mpr fun l hl => hshown l ?_
    exact hnone _ (List.mem_map_of_mem hl)
  · rintro hnone text htext
    rw [hnone] at htext
    cases htext

/-- What a query that is asked for JSON writes to standard output if it does not fail.

What it prints itself are the issues of its result as JSON, and a line break. Of the log there is
nothing but the announcement of the result, and that only at the level `debug`, be it that an argument
or the environment asked for it. So at any other level standard output is the issues, and the log goes
to standard error; but at that level, however lines are shown, it is not. -/
theorem query_output (hcommand : args.head? = some (Text.ofString "query"))
    (hjson : hasFlag args "--json" = true) (hhelp : hasFlag args "--help" = false)
    (hshort : hasFlag args "-h" = false) (hcode : (run args env db).code = 0) :
    let report := run args env db
    ∃ text config result, positional args ["--db", "--log-level"] = some text ∧
      Config.load env (overrides args) = .ok config ∧
      (answered config db text).result? 0 = some (.ok result) ∧
      report.out = line (Json.arr (result.outcome.issues.map Issue.toJson)).pretty ∧
      outputLines report.lines = (if config.logLevel = .debug then [announcement result] else []) ∧
      ∀ shown, (∀ l, shown l ≠ []) →
        (report.standardOutput shown = report.out ↔ config.logLevel ≠ .debug) := by
  intro report
  have hquery : report = query args env db := run_query hcommand hhelp hshort
  obtain ⟨text, config, htext, hconfig, result, hresult, hout, hlines⟩ :=
    query_of_code ((congrArg Report.code hquery).symm.trans hcode)
  rw [← hquery] at hout hlines
  -- of the lines of the log only the announcement goes to standard output
  have houtput : outputLines report.lines =
      if config.logLevel = .debug then [announcement result] else [] :=
    (congrArg outputLines hlines).trans (outputLines_answered hresult)
  refine ⟨text, config, result, htext, hconfig, hresult, ?_, houtput, fun shown hshown => ?_⟩
  · rw [hout, hjson]
    rfl
  · rw [standardOutput_eq_out hshown, houtput]
    by_cases hlevel : config.logLevel = .debug
    · simp [hlevel]
    · simp [hlevel]

/-- The arguments of a query that is asked for JSON, with a level. -/
def jsonArguments (level : String) : List Text :=
  ["query", "type = bug", "--db", "issues.db", "--json", "--log-level", Text.ofString level]

/-- At the level `info` the one issue of the store is all that is there. -/
theorem query_output_info :
    let report := run (jsonArguments "info") [] ⟨none, none, Engine.wordStore [["a"]]⟩
    report.code = 0 ∧ report.out = line (Json.arr [(Engine.issueOf "a").toJson]).pretty ∧
      report.standardOutput (fun l => line l.text) = report.out := by
  intro report
  have hrun : report.code = 0 ∧
      report.out = line (Json.arr [(Engine.issueOf "a").toJson]).pretty := by decide +kernel
  obtain ⟨hcode, hout⟩ := hrun
  obtain ⟨text, config, result, -, hconfig, -, -, -, houtput⟩ :=
    @query_output (jsonArguments "info") [] ⟨none, none, Engine.wordStore [["a"]]⟩ rfl (by decide)
      (by decide) (by decide) hcode
  have hlevel : config.logLevel = .info := by
    have hloaded : Config.load [] (overrides (jsonArguments "info")) =
        .ok ⟨some "issues.db", 300000, false, .info⟩ := by decide +kernel
    obtain rfl := Except.ok.inj (hloaded.symm.trans hconfig)
    rfl
  refine ⟨hcode, hout, (houtput _ fun l => ?_).mpr (hlevel ▸ by decide)⟩
  exact List.append_ne_nil_of_right_ne_nil _ (by decide)

/-- A store without issues. -/
def emptyStore : Store := fun _ _ => .ran 0 [] (.ok [])

/-- At the level `debug` the announcement stands in front of the issues. -/
theorem query_output_debug :
    let report := run (jsonArguments "debug") [] ⟨none, none, emptyStore⟩
    report.code = 0 ∧ report.out = line "[]" ∧
      report.standardOutput (fun l => line l.text) = line "[bql] query complete" ++ line "[]" := by
  decide +kernel

end IssueQuery.Cli
