import IssueQuery.Issue

/-!
# What belongs to issues

Relationships, labels and numbers of comments come in rows of their own and are attached to issues
one row after the other. Should several issues have the same identifier, the last one gets what
belongs to it.
-/

namespace IssueQuery

/-- The relationships that issues show. -/
inductive Relation where
  | parentChild
  | blocks
  | discoveredFrom
deriving DecidableEq, Repr, Inhabited

/-- The relationship that a dependency stands for, if issues show it. -/
def Dependency.relation? (d : Dependency) : Option Relation :=
  if d.type = Text.ofString "parent-child" then some .parentChild
  else if d.type = Text.ofString "blocks" then some .blocks
  else if d.type = Text.ofString "discovered-from" then some .discoveredFrom
  else none

namespace Issue

/-- Adds the other end of a dependency to the issue that depends on it. An issue has one parent, the
first one found. -/
def addTarget (relation : Relation) (target : Text) (issue : Issue) : Issue :=
  match relation with
  | .parentChild => if issue.parentId.isNone then { issue with parentId := some target } else issue
  | .blocks => { issue with blockedBy := issue.blockedBy ++ [target] }
  | .discoveredFrom => { issue with discoveredFrom := issue.discoveredFrom ++ [target] }

/-- Adds an issue that depends on this one. -/
def addDependent (relation : Relation) (source : Text) (issue : Issue) : Issue :=
  match relation with
  | .parentChild => { issue with children := issue.children ++ [source] }
  | .blocks => { issue with blocks := issue.blocks ++ [source] }
  | .discoveredFrom => { issue with discovered := issue.discovered ++ [source] }

/-- Changes the last issue of an identifier. -/
def updateLast (id : Text) (change : Issue → Issue) : List Issue → List Issue
  | [] => []
  | issue :: rest =>
    if rest.any fun other => other.id == id then issue :: updateLast id change rest
    else if issue.id = id then change issue :: rest
    else issue :: rest

/-- Attaches a dependency at both of its ends. -/
def attachDependency (issues : List Issue) (d : Dependency) : List Issue :=
  match d.relation? with
  | none => issues
  | some relation =>
    updateLast d.dependsOnId (addDependent relation d.issueId)
      (updateLast d.issueId (addTarget relation d.dependsOnId) issues)

/-- Attaches a label. -/
def attachLabel (issues : List Issue) (l : Labelling) : List Issue :=
  updateLast l.issueId (fun issue => { issue with labels := issue.labels ++ [l.label] }) issues

/-- Attaches a number of comments. -/
def attachCommentCount (issues : List Issue) (c : CommentCount) : List Issue :=
  updateLast c.issueId (fun issue => { issue with commentCount := c.count }) issues

end Issue

end IssueQuery
