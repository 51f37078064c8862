import IssueQuery.Proofs.Engine.Invalidation
import IssueQuery.Proofs.Engine.Meanwhile

/-!
# Stores with tables

What is promised of stores with a primary key is stated by the rows that they give for each of the
engine's statements. A store with a table of issues and a table of dependencies, which looks up the
values that it is given, keeps all of these promises.

* `given`       the rows that a store gives for its statement of a number;
* `Keyed`       no statement gives an issue twice;
* `Relates`     dependencies are those of a fixed relation;
* `tableStore`  a store with two tables.
-/

namespace IssueQuery

namespace Engine

/-- The rows that a store gives for its statement of a number. -/
def given (store : Store) (k : Nat) : Draws := fun statement rows =>
  ∃ elapsed aborts, store k statement = .ran elapsed aborts (.ok rows)

/-- Each statement for issues gives an issue once at most. -/
structure Keyed (store : Store) : Prop where
  selected : ∀ k selection found,
    (given store k).Reads (.selected selection) Issue.ofRow found → (found.map Issue.id).Nodup
  withIds : ∀ k ids found, ids ≠ [] →
    (given store k).Reads (.withIds ids) Issue.ofRow found → (found.map Issue.id).Nodup

/-- The store is asked for the dependencies of some issues, and gives just those of a relation that
have one of these issues at an end, each of them once. -/
def Relates (R : Dependency → Prop) (store : Store) : Prop :=
  ∀ k ids ds, ids ≠ [] → (given store k).Reads (.dependencies ids) Dependency.ofRow ds →
    ds.Nodup ∧ ∀ d, d ∈ ds ↔ R d ∧ (d.issueId ∈ ids ∨ d.dependsOnId ∈ ids)

variable {store : Store} {s : State} {n : Nat} {α : Type} {statement : Statement}
  {read : Option Json → RowReading α} {items : List α}

/-- What was drawn was given to one of the statements. -/
theorem Draws.Reads.given (h : (s.drawn store n).Reads statement read items) :
    ∃ k, (given store k).Reads statement read items := by
  obtain ⟨rows, ⟨k, -, -, elapsed, aborts, hreply⟩, hread⟩ := h
  exact ⟨k, rows, ⟨elapsed, aborts, hreply⟩, hread⟩

/-! ## Rows of words and of dependencies -/

/-- The issue that says a word wherever it may. -/
def issueOf (word : Text) : Issue :=
  .ofColumns word word (some word) (some word) (some word) (some word) word 1 word (some word)
    (some 1) word word (some word)

theorem ofRow_rowOf (word : Text) : Issue.ofRow (some (rowOf word)) = .ok (issueOf word) := rfl

/-- A row of the table of dependencies. -/
def rowOfDependency (d : Dependency) : Json :=
  .obj [("issue_id", .str d.issueId), ("depends_on_id", .str d.dependsOnId), ("type", .str d.type)]

theorem ofRow_rowOfDependency (d : Dependency) :
    Dependency.ofRow (some (rowOfDependency d)) = .ok d := rfl

theorem readRows_map {β : Type} {row : β → Json} {item : β → α}
    (h : ∀ b, read (some (row b)) = .ok (item b)) (bs : List β) :
    readRows read (bs.map row) = .ok (bs.map item) := by
  have hrows : (bs.map row).mapM (fun row => read (some row)) = .ok (bs.map item) := by
    induction bs with
    | nil => rfl
    | cons b bs ih =>
      rw [List.map_cons, List.mapM_cons, h b, ih]
      rfl
  rw [readRows, hrows]
  rfl

/-! ## A store with two tables -/

/-- A statement with values is for what has one of them. -/
def sought (params : List Sql.Param) (id : Text) : Bool :=
  params.isEmpty || params.contains (.text id)

/-- What the text of a statement begins with, which tells what it is for. Bytes are quicker to look at
than characters. -/
def beginning (sql : String) : List UInt8 := sql.toByteArray.data.toList.take 9

/-- The rows of a table of issues, each of which says a word, and of one of dependencies. -/
def tableRows (words : List Text) (ds : List Dependency) (statement : Statement) : List Json :=
  if beginning statement.sql = beginning "SELECT i." then
    (words.filter (sought statement.params)).map rowOf
  else if beginning statement.sql = beginning "SELECT d." then
    (ds.filter fun d => sought statement.params d.issueId || sought statement.params d.dependsOnId)
      |>.map rowOfDependency
  else []

/-- The store that looks statements up in these tables. -/
def tableStore (words : List Text) (ds : List Dependency) : Store := fun _ statement =>
  .ran 0 [] (.ok (tableRows words ds statement))

variable {words : List Text} {ds : List Dependency} {k : Nat}

theorem reads_tableStore :
    (given (tableStore words ds) k).Reads statement read items ↔
      readRows read (tableRows words ds statement) = .ok items := by
  constructor
  · rintro ⟨rows, ⟨elapsed, aborts, hreply⟩, hread⟩
    obtain ⟨rfl, rfl, hrows⟩ := Reply.ran.inj hreply
    obtain rfl := Except.ok.inj hrows
    exact hread
  · exact fun hread => ⟨_, ⟨0, [], rfl⟩, hread⟩

theorem beginning_append {first : String} (h : 9 ≤ first.toByteArray.data.size) (more : String) :
    beginning (first ++ more) = beginning first := by
  rw [beginning, String.toByteArray_append, ByteArray.data_append, Array.toList_append,
    List.take_append_of_le_length h]
  rfl

theorem beginning_issues (condition order : String) (params : List Sql.Param) :
    beginning (Statement.issues condition order params).sql = beginning "SELECT i." := by
  have hall : 9 ≤ Statement.allIssues.toByteArray.data.size ∧
      beginning Statement.allIssues = beginning "SELECT i." := by decide +kernel
  rw [Statement.issues, String.append_assoc, beginning_append hall.1, hall.2]

theorem beginning_dependencies (ids : List Text) :
    beginning (Statement.dependencies ids).sql = beginning "SELECT d." := by
  have hfirst : 9 ≤ "SELECT d.issue_id, d.depends_on_id, d.type".toByteArray.data.size ∧
      beginning "SELECT d.issue_id, d.depends_on_id, d.type" = beginning "SELECT d." := by
    decide +kernel
  unfold Statement.dependencies
  dsimp only
  repeat rw [String.append_assoc]
  rw [beginning_append hfirst.1, hfirst.2]

theorem mem_of_sought {ids : List Text} {id : Text} (hne : ids ≠ []) :
    sought (Statement.idParams ids) id = true ↔ id ∈ ids := by
  simp [sought, Statement.idParams, hne]

theorem sought_append (params : List Sql.Param) (id : Text) :
    sought (params ++ params) id = sought params id := by
  have hempty : (params ++ params).isEmpty = params.isEmpty := by cases params <;> rfl
  simp [sought, hempty]

theorem tableRows_issues (condition order : String) (params : List Sql.Param) :
    tableRows words ds (.issues condition order params) =
      (words.filter (sought params)).map rowOf := by
  rw [tableRows, if_pos (beginning_issues condition order params)]
  rfl

theorem tableRows_dependencies (ids : List Text) :
    tableRows words ds (.dependencies ids) =
      (ds.filter fun d => sought (Statement.idParams ids) d.issueId ||
        sought (Statement.idParams ids) d.dependsOnId).map rowOfDependency := by
  have hother : beginning (Statement.dependencies ids).sql ≠ beginning "SELECT i." := by
    rw [beginning_dependencies]
    decide +kernel
  rw [tableRows, if_neg hother, if_pos (beginning_dependencies ids)]
  have hparams : (Statement.dependencies ids).params =
      Statement.idParams ids ++ Statement.idParams ids := rfl
  simp only [hparams, sought_append]

theorem reads_issues {condition order : String} {params : List Sql.Param} {found : List Issue}
    (h : (given (tableStore words ds) k).Reads (.issues condition order params) Issue.ofRow found) :
    found = (words.filter (sought params)).map issueOf := by
  rw [reads_tableStore, tableRows_issues, readRows_map ofRow_rowOf] at h
  exact (Except.ok.inj h).symm

theorem map_id_issueOf (words : List Text) : (words.map issueOf).map Issue.id = words :=
  (List.map_map ..).trans (List.map_id words)

/-- Words that are different are a key. -/
theorem keyed_tableStore (hwords : words.Nodup) : Keyed (tableStore words ds) := by
  have hkeyed {k : Nat} {condition order : String} {params : List Sql.Param} {found : List Issue}
      (h : (given (tableStore words ds) k).Reads (.issues condition order params) Issue.ofRow
        found) : (found.map Issue.id).Nodup := by
    rw [reads_issues h, map_id_issueOf]
    exact hwords.filter _
  exact ⟨fun _ _ _ h => hkeyed h, fun _ _ _ _ h => hkeyed h⟩

theorem relates_tableStore (hds : ds.Nodup) : Relates (· ∈ ds) (tableStore words ds) := by
  intro k ids found hne h
  rw [reads_tableStore, tableRows_dependencies, readRows_map ofRow_rowOfDependency] at h
  obtain rfl := Except.ok.inj h
  rw [List.map_id']
  refine ⟨hds.filter _, fun d => ?_⟩
  simp [List.mem_filter, mem_of_sought hne]

/-- What is asked for by identifiers is what was asked for. -/
theorem mem_of_reads_tableStore {ids : List Text} {found : List Issue} (hne : ids ≠ [])
    (h : (given (tableStore words ds) k).Reads (.withIds ids) Issue.ofRow found) :
    ∀ issue ∈ found, issue.id ∈ ids := by
  intro issue hissue
  rw [Statement.withIds] at h
  rw [reads_issues h] at hissue
  obtain ⟨word, hword, rfl⟩ := List.mem_map.mp hissue
  exact (mem_of_sought hne).mp (List.mem_filter.mp hword).2

theorem tableRows_eq_nil {first more : String} (hsql : statement.sql = first ++ more)
    (hother : 9 ≤ first.toByteArray.data.size ∧ beginning first ≠ beginning "SELECT i." ∧
      beginning first ≠ beginning "SELECT d.") : tableRows words ds statement = [] := by
  obtain ⟨hlength, hissues, hdependencies⟩ := hother
  rw [← beginning_append hlength more, ← hsql] at hissues hdependencies
  rw [tableRows, if_neg hissues, if_neg hdependencies]

theorem unfailing_tableStore (words : List Text) (ds : List Dependency) :
    Unfailing (tableStore words ds) where
  selected n selection :=
    ⟨0, [], _, _, rfl, by rw [Statement.selected, tableRows_issues, readRows_map ofRow_rowOf]⟩
  withIds n ids :=
    ⟨0, [], _, _, rfl, by rw [Statement.withIds, tableRows_issues, readRows_map ofRow_rowOf]⟩
  dependencies n ids :=
    ⟨0, [], _, _, rfl, by rw [tableRows_dependencies, readRows_map ofRow_rowOfDependency]⟩
  labels n ids := by
    have hrows : tableRows words ds (.labels ids) = [] := by
      apply tableRows_eq_nil (String.append_assoc ..)
      decide +kernel
    exact ⟨0, [], _, [], rfl, by rw [hrows]; rfl⟩
  commentCounts n ids := by
    have hrows : tableRows words ds (.commentCounts ids) = [] := by
      apply tableRows_eq_nil (String.append_assoc ..)
      decide +kernel
    exact ⟨0, [], _, [], rfl, by rw [hrows]; rfl⟩
  allDependencies n := by
    have hbegins : beginning Statement.allDependencies.sql = beginning "SELECT d." ∧
        beginning Statement.allDependencies.sql ≠ beginning "SELECT i." := by decide +kernel
    exact ⟨0, [], _, _, rfl, by
      rw [tableRows, if_neg hbegins.2, if_pos hbegins.1, readRows_map ofRow_rowOfDependency]⟩

end Engine

end IssueQuery
