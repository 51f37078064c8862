/-!
# The tables of the store

The script that creates the tables which are missing. Queries only read them.
-/

namespace IssueQuery.Store

/-- Creates the tables, indices and views that do not exist yet. -/
def schema : String := "
    CREATE TABLE IF NOT EXISTS issues (
      id                  TEXT PRIMARY KEY,
      title               TEXT NOT NULL,
      description         TEXT,
      design              TEXT,
      acceptance_criteria TEXT,
      notes               TEXT,
      status              TEXT NOT NULL DEFAULT 'open',
      priority            INTEGER NOT NULL DEFAULT 2,
      issue_type          TEXT NOT NULL DEFAULT 'task',
      assignee            TEXT,
      pinned              INTEGER,
      created_at          TEXT NOT NULL DEFAULT CURRENT_TIMESTAMP,
      updated_at          TEXT NOT NULL DEFAULT CURRENT_TIMESTAMP,
      closed_at           TEXT,
      deleted_at          TEXT
    );

    CREATE INDEX IF NOT EXISTS idx_issues_status ON issues(status);
    CREATE INDEX IF NOT EXISTS idx_issues_updated ON issues(updated_at);

    CREATE TABLE IF NOT EXISTS labels (
      issue_id TEXT NOT NULL,
      label    TEXT NOT NULL,
      PRIMARY KEY (issue_id, label)
    );

    CREATE TABLE IF NOT EXISTS dependencies (
      issue_id      TEXT NOT NULL,
      depends_on_id TEXT NOT NULL,
      type          TEXT NOT NULL DEFAULT 'blocks', -- blocks | parent-child | discovered-from | related
      PRIMARY KEY (issue_id, depends_on_id, type)
    );

    CREATE INDEX IF NOT EXISTS idx_dependencies_target ON dependencies(depends_on_id);

    CREATE TABLE IF NOT EXISTS comments (
      id         INTEGER PRIMARY KEY AUTOINCREMENT,
      issue_id   TEXT NOT NULL,
      author     TEXT NOT NULL DEFAULT '',
      text       TEXT NOT NULL,
      created_at TEXT NOT NULL DEFAULT CURRENT_TIMESTAMP
    );

    CREATE INDEX IF NOT EXISTS idx_comments_issue ON comments(issue_id);

    CREATE TABLE IF NOT EXISTS blocked_issues_cache (
      issue_id TEXT PRIMARY KEY
    );

    CREATE VIEW IF NOT EXISTS ready_issues AS
      SELECT i.id
      FROM issues i
      WHERE i.status IN ('open', 'in_progress')
        AND i.deleted_at IS NULL
        AND i.id NOT IN (SELECT issue_id FROM blocked_issues_cache);
  "

end IssueQuery.Store
