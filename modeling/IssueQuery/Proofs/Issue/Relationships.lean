import IssueQuery.Issue.Attach
import Mathlib.Data.List.Nodup

/-!
# Issues show their relationships

Dependencies are attached one after the other, each at both of its ends. For issues with different
identifiers this comes to the same as looking at every issue on its own: it shows the other ends of
the dependencies that have it at one end, in the order of the dependencies. So two issues always
show the same about each other, and a dependency that is given twice shows twice.

* `targets`, `dependents`  the other ends of the dependencies of an identifier;
* `Issue.Shows`            the issue shows what dependencies say about it;
* `Issue.Mirrored`         two issues show a dependency between them at both of its ends.
-/

namespace IssueQuery

/-- The word of the relationship. -/
def Relation.word : Relation → Text
  | .parentChild => Text.ofString "parent-child"
  | .blocks => Text.ofString "blocks"
  | .discoveredFrom => Text.ofString "discovered-from"

theorem Relation.word_injective : Function.Injective Relation.word := by
  intro r r'
  cases r <;> cases r' <;> decide

theorem Dependency.relation?_eq_some_iff {d : Dependency} {r : Relation} :
    d.relation? = some r ↔ d.type = r.word := by
  have hword : ∀ r : Relation, d.type = r.word → d.relation? = some r := by
    intro r h
    unfold Dependency.relation?
    rw [h]
    cases r <;> decide
  refine ⟨fun h => ?_, hword r⟩
  unfold Dependency.relation? at h
  split at h
  · obtain rfl := Option.some.inj h
    assumption
  · split at h
    · obtain rfl := Option.some.inj h
      assumption
    · split at h
      · obtain rfl := Option.some.inj h
        assumption
      · exact nomatch h

variable {d : Dependency} {ds ds' : List Dependency} {r : Relation} {id other : Text}
  {issue a b : Issue} {issues : List Issue}

/-! ## The other ends of dependencies -/

/-- The issues on which an issue depends by a relationship, in the order of the dependencies. -/
def targets (ds : List Dependency) (r : Relation) (id : Text) : List Text :=
  (ds.filter fun d => d.issueId = id ∧ d.type = r.word).map Dependency.dependsOnId

/-- The issues that depend on an issue by a relationship, in the order of the dependencies. -/
def dependents (ds : List Dependency) (r : Relation) (id : Text) : List Text :=
  (ds.filter fun d => d.dependsOnId = id ∧ d.type = r.word).map Dependency.issueId

theorem targets_append : targets (ds ++ ds') r id = targets ds r id ++ targets ds' r id := by
  simp [targets]

theorem dependents_append :
    dependents (ds ++ ds') r id = dependents ds r id ++ dependents ds' r id := by
  simp [dependents]

/-- An issue is a target as often as the dependency is given. -/
theorem count_targets : (targets ds r id).count other = ds.count ⟨id, other, r.word⟩ := by
  rw [targets, List.count_eq_countP, List.countP_map, List.countP_filter, List.count_eq_countP]
  apply List.countP_congr
  rintro ⟨issueId, dependsOnId, type⟩ -
  simp [and_left_comm]

theorem count_dependents : (dependents ds r id).count other = ds.count ⟨other, id, r.word⟩ := by
  rw [dependents, List.count_eq_countP, List.countP_map, List.countP_filter, List.count_eq_countP]
  apply List.countP_congr
  rintro ⟨issueId, dependsOnId, type⟩ -
  simp

theorem mem_targets : other ∈ targets ds r id ↔ ⟨id, other, r.word⟩ ∈ ds := by
  rw [← List.count_pos_iff, count_targets, List.count_pos_iff]

theorem mem_dependents : other ∈ dependents ds r id ↔ ⟨other, id, r.word⟩ ∈ ds := by
  rw [← List.count_pos_iff, count_dependents, List.count_pos_iff]

/-- Dependencies that are given once each show once each. -/
theorem nodup_targets (h : ds.Nodup) : (targets ds r id).Nodup := by
  rw [List.nodup_iff_count_le_one] at h ⊢
  exact fun other => count_targets ▸ h _

theorem nodup_dependents (h : ds.Nodup) : (dependents ds r id).Nodup := by
  rw [List.nodup_iff_count_le_one] at h ⊢
  exact fun other => count_dependents ▸ h _

/-! ## What an issue shows -/

/-- The issue shows what the dependencies say about it. -/
structure Issue.Shows (ds : List Dependency) (issue : Issue) : Prop where
  parentId : issue.parentId = (targets ds .parentChild issue.id).head?
  blockedBy : issue.blockedBy = targets ds .blocks issue.id
  discoveredFrom : issue.discoveredFrom = targets ds .discoveredFrom issue.id
  children : issue.children = dependents ds .parentChild issue.id
  blocks : issue.blocks = dependents ds .blocks issue.id
  discovered : issue.discovered = dependents ds .discoveredFrom issue.id

/-- Two issues show a dependency of the one on the other at both of its ends, a given number of
times. -/
structure Issue.Mirrored (times : Dependency → Nat) (a b : Issue) : Prop where
  blockedBy : a.blockedBy.count b.id = times ⟨a.id, b.id, Relation.blocks.word⟩
  blocks : b.blocks.count a.id = times ⟨a.id, b.id, Relation.blocks.word⟩
  discoveredFrom : a.discoveredFrom.count b.id = times ⟨a.id, b.id, Relation.discoveredFrom.word⟩
  discovered : b.discovered.count a.id = times ⟨a.id, b.id, Relation.discoveredFrom.word⟩
  children : b.children.count a.id = times ⟨a.id, b.id, Relation.parentChild.word⟩

theorem Issue.Shows.mirrored (ha : a.Shows ds) (hb : b.Shows ds) : a.Mirrored ds.count b where
  blockedBy := ha.blockedBy ▸ count_targets
  blocks := hb.blocks ▸ count_dependents
  discoveredFrom := ha.discoveredFrom ▸ count_targets
  discovered := hb.discovered ▸ count_dependents
  children := hb.children ▸ count_dependents

/-- Nothing is shown only if there is no parent. -/
theorem Issue.Shows.parentId_eq_none_iff (h : issue.Shows ds) :
    issue.parentId = none ↔ ∀ parent, ⟨issue.id, parent, Relation.parentChild.word⟩ ∉ ds := by
  rw [h.parentId, List.head?_eq_none_iff, List.eq_nil_iff_forall_not_mem]
  exact forall_congr' fun _ => not_congr mem_targets

/-- The parent that is shown is one. -/
theorem Issue.Shows.mem_of_parentId (h : issue.Shows ds) {parent : Text}
    (hparent : issue.parentId = some parent) :
    ⟨issue.id, parent, Relation.parentChild.word⟩ ∈ ds :=
  mem_targets.mp (List.mem_of_head? (h.parentId ▸ hparent))

/-! ## One dependency after the other -/

/-- Adds to an issue what a dependency says about it. -/
def Issue.relate (issue : Issue) (d : Dependency) : Issue :=
  match d.relation? with
  | none => issue
  | some r =>
    let issue := if d.issueId = issue.id then issue.addTarget r d.dependsOnId else issue
    if d.dependsOnId = issue.id then issue.addDependent r d.issueId else issue

@[simp]
theorem Issue.id_addTarget : (issue.addTarget r other).id = issue.id := by
  cases r <;> simp only [addTarget]
  split <;> rfl

@[simp]
theorem Issue.id_addDependent : (issue.addDependent r other).id = issue.id := by
  cases r <;> rfl

theorem Issue.id_relate : (issue.relate d).id = issue.id := by
  unfold Issue.relate
  split
  · rfl
  · dsimp only
    split <;> split <;> simp

theorem targets_singleton : targets [d] r id =
    if d.issueId = id ∧ d.type = r.word then [d.dependsOnId] else [] := by
  by_cases h : d.issueId = id ∧ d.type = r.word <;> simp [targets, h]

theorem dependents_singleton : dependents [d] r id =
    if d.dependsOnId = id ∧ d.type = r.word then [d.issueId] else [] := by
  by_cases h : d.dependsOnId = id ∧ d.type = r.word <;> simp [dependents, h]

/-- The first parent stays. -/
theorem Issue.addTarget_parentChild :
    issue.addTarget .parentChild other =
      { issue with parentId := issue.parentId.or (some other) } := by
  unfold addTarget
  cases hparent : issue.parentId with
  | none => rfl
  | some parent =>
    show issue = { issue with parentId := some parent }
    rw [← hparent]

/-- What a dependency adds to an issue are the ends that it has besides the issue. -/
theorem Issue.relate_eq (issue : Issue) (d : Dependency) :
    issue.relate d =
      { issue with
        parentId := issue.parentId.or (targets [d] .parentChild issue.id).head?
        blockedBy := issue.blockedBy ++ targets [d] .blocks issue.id
        discoveredFrom := issue.discoveredFrom ++ targets [d] .discoveredFrom issue.id
        children := issue.children ++ dependents [d] .parentChild issue.id
        blocks := issue.blocks ++ dependents [d] .blocks issue.id
        discovered := issue.discovered ++ dependents [d] .discoveredFrom issue.id } := by
  unfold Issue.relate
  cases hrelation : d.relation? with
  | none =>
    -- a dependency of another type relates nothing
    have hother : ∀ r : Relation, d.type ≠ r.word := fun r hr => by
      rw [Dependency.relation?_eq_some_iff.mpr hr] at hrelation
      exact nomatch hrelation
    simp [targets_singleton, dependents_singleton, hother]
  | some r =>
    have hword : ∀ r' : Relation, d.type = r'.word ↔ r = r' := fun r' => by
      rw [Dependency.relation?_eq_some_iff.mp hrelation, Relation.word_injective.eq_iff]
    simp only [targets_singleton, dependents_singleton, hword]
    -- the issue may stand at either end of the dependency, or at both
    by_cases hsource : d.issueId = issue.id <;> by_cases htarget : d.dependsOnId = issue.id <;>
      cases r with
      | parentChild => simp [hsource, htarget, addTarget_parentChild, addDependent]
      | blocks => simp [hsource, htarget, addTarget, addDependent]
      | discoveredFrom => simp [hsource, htarget, addTarget, addDependent]

theorem Issue.Shows.relate (h : issue.Shows ds) : (issue.relate d).Shows (ds ++ [d]) := by
  rw [relate_eq]
  constructor
  · simp [targets_append, h.parentId]
  · simp [targets_append, h.blockedBy]
  · simp [targets_append, h.discoveredFrom]
  · simp [dependents_append, h.children]
  · simp [dependents_append, h.blocks]
  · simp [dependents_append, h.discovered]

/-- An issue with nothing yet shows, in the end, what all dependencies say. -/
theorem Issue.Shows.foldl_relate (h : issue.Shows ds) (ds' : List Dependency) :
    (ds'.foldl Issue.relate issue).Shows (ds ++ ds') := by
  induction ds' generalizing issue ds with
  | nil => simpa using h
  | cons d ds' ih => simpa using ih h.relate

/-! ## Issues with different identifiers -/

/-- There is no later issue of an identifier if identifiers are different. -/
theorem Issue.updateLast_eq_map {change : Issue → Issue} (h : (issues.map Issue.id).Nodup) :
    updateLast id change issues = issues.map fun i => if id = i.id then change i else i := by
  induction issues with
  | nil => rfl
  | cons issue rest ih =>
    obtain ⟨hnew, hrest⟩ := List.nodup_cons.mp h
    have hlater : (rest.any fun i => i.id == id) = true ↔ id ∈ rest.map Issue.id := by simp
    unfold updateLast
    split
    · rename_i hany
      -- the first issue has another identifier than the one that is found later
      have hne : id ≠ issue.id := fun heq => hnew (heq ▸ hlater.mp hany)
      rw [ih hrest, List.map_cons, if_neg hne]
    · rename_i hnone
      have hsame : rest.map (fun i => if id = i.id then change i else i) = rest := by
        refine (List.map_congr_left fun i hi => if_neg ?_).trans (List.map_id rest)
        rintro rfl
        exact hnone (hlater.mpr (List.mem_map_of_mem hi))
      rw [List.map_cons, hsame]
      split
      · rename_i heq
        rw [if_pos heq.symm]
      · rename_i hne
        rw [if_neg (Ne.symm hne)]

/-- To attach a dependency is to look at every issue on its own. -/
theorem Issue.attachDependency_eq_map (h : (issues.map Issue.id).Nodup) (d : Dependency) :
    attachDependency issues d = issues.map fun issue => issue.relate d := by
  unfold attachDependency relate
  cases d.relation? with
  | none => exact (List.map_id issues).symm
  | some r =>
    dsimp only
    have hids : (issues.map fun i =>
        if d.issueId = i.id then i.addTarget r d.dependsOnId else i).map Issue.id =
          issues.map Issue.id := by
      rw [List.map_map]
      refine List.map_congr_left fun i _ => ?_
      rw [Function.comp_apply]
      split <;> simp
    rw [updateLast_eq_map h, updateLast_eq_map (hids ▸ h), List.map_map]
    rfl

theorem Issue.map_id_relate (issues : List Issue) (d : Dependency) :
    (issues.map fun issue => issue.relate d).map Issue.id = issues.map Issue.id := by
  rw [List.map_map]
  exact List.map_congr_left fun _ _ => id_relate

theorem Issue.foldl_attachDependency_eq_map (h : (issues.map Issue.id).Nodup)
    (ds : List Dependency) :
    ds.foldl attachDependency issues = issues.map fun issue => ds.foldl relate issue := by
  induction ds generalizing issues with
  | nil => exact (List.map_id issues).symm
  | cons d ds ih =>
    have hrelated : ((issues.map fun issue => issue.relate d).map Issue.id).Nodup :=
      map_id_relate issues d ▸ h
    rw [List.foldl_cons, attachDependency_eq_map h, ih hrelated, List.map_map]
    rfl

/-- Dependencies of other words change nothing, whatever the identifiers are. -/
theorem Issue.foldl_attachDependency_filter (ds : List Dependency) (issues : List Issue) :
    (ds.filter fun d => d.relation?.isSome).foldl attachDependency issues =
      ds.foldl attachDependency issues := by
  induction ds generalizing issues with
  | nil => rfl
  | cons d ds ih =>
    cases hrelation : d.relation? with
    | none =>
      have hsame : attachDependency issues d = issues := by rw [attachDependency, hrelation]
      rw [List.filter_cons_of_neg (by simp [hrelation]), ih, List.foldl_cons, hsame]
    | some r =>
      rw [List.filter_cons_of_pos (by simp [hrelation]), List.foldl_cons, List.foldl_cons, ih]

/-! ## Labels and comments -/

/-- What holds of all issues and is kept by a change still holds when one is changed. -/
theorem Issue.forall_updateLast {P : Issue → Prop} {change : Issue → Issue}
    (hchange : ∀ issue, P issue → P (change issue)) (h : ∀ issue ∈ issues, P issue) :
    ∀ issue ∈ updateLast id change issues, P issue := by
  induction issues with
  | nil => exact h
  | cons issue rest ih =>
    obtain ⟨hissue, hrest⟩ := List.forall_mem_cons.mp h
    unfold updateLast
    split
    · exact List.forall_mem_cons.mpr ⟨hissue, ih hrest⟩
    · split
      · exact List.forall_mem_cons.mpr ⟨hchange issue hissue, hrest⟩
      · exact h

/-- What no change to one issue alters can be read off the issues as they were. -/
theorem Issue.map_updateLast {α : Type} {f : Issue → α} {change : Issue → Issue}
    (hchange : ∀ issue, f (change issue) = f issue) (id : Text) (issues : List Issue) :
    (updateLast id change issues).map f = issues.map f := by
  induction issues with
  | nil => rfl
  | cons issue rest ih =>
    unfold updateLast
    split
    · rw [List.map_cons, List.map_cons, ih]
    · split
      · rw [List.map_cons, List.map_cons, hchange]
      · rfl

theorem Issue.Shows.attachLabel (h : ∀ issue ∈ issues, issue.Shows ds) (l : Labelling) :
    ∀ issue ∈ Issue.attachLabel issues l, issue.Shows ds :=
  forall_updateLast (fun _ hshows => { hshows with }) h

theorem Issue.Shows.attachCommentCount (h : ∀ issue ∈ issues, issue.Shows ds) (c : CommentCount) :
    ∀ issue ∈ Issue.attachCommentCount issues c, issue.Shows ds :=
  forall_updateLast (fun _ hshows => { hshows with }) h

/-! ## Bare issues -/

/-- The issue without what other tables say about it. -/
def Issue.bare (issue : Issue) : Issue :=
  { issue with
    labels := [], parentId := none, blockedBy := [], blocks := [], children := []
    discoveredFrom := [], discovered := [], commentCount := 0 }

@[simp]
theorem Issue.id_bare : issue.bare.id = issue.id := rfl

@[simp]
theorem Issue.bare_addTarget : (issue.addTarget r other).bare = issue.bare := by
  cases r with
  | parentChild => rw [addTarget_parentChild]; rfl
  | blocks => rfl
  | discoveredFrom => rfl

@[simp]
theorem Issue.bare_addDependent : (issue.addDependent r other).bare = issue.bare := by
  cases r <;> rfl

theorem Issue.map_bare_attachDependency (issues : List Issue) (d : Dependency) :
    (attachDependency issues d).map bare = issues.map bare := by
  unfold attachDependency
  split
  · rfl
  · rw [map_updateLast fun _ => bare_addDependent, map_updateLast fun _ => bare_addTarget]

theorem Issue.map_bare_attachLabel (issues : List Issue) (l : Labelling) :
    (attachLabel issues l).map bare = issues.map bare := by
  unfold attachLabel
  apply map_updateLast
  exact fun _ => rfl

theorem Issue.map_bare_attachCommentCount (issues : List Issue) (c : CommentCount) :
    (attachCommentCount issues c).map bare = issues.map bare := by
  unfold attachCommentCount
  apply map_updateLast
  exact fun _ => rfl

/-- What holds whatever the next part is holds with the next part. -/
theorem RowReading.forall_and {α β : Type} {f : RowReading (α → β)} {a : RowReading α}
    {P : β → Prop} (h : ∀ g, f = .ok g → ∀ x, P (g x)) : ∀ b, f.and a = .ok b → P b := by
  intro b hb
  cases f with
  | error faults => cases a <;> exact nomatch hb
  | ok g =>
    cases a with
    | error faults => exact nomatch hb
    | ok x => exact Except.ok.inj hb ▸ h g rfl x

/-- An issue is read without what other tables say about it. -/
theorem Issue.bare_of_ofRow {value : Option Json} :
    ∀ issue, Issue.ofRow value = .ok issue → issue.bare = issue := by
  unfold Issue.ofRow
  cases Row.ofJson value with
  | error faults => exact fun _ h => nomatch h
  | ok row =>
    dsimp only [bind, Except.bind]
    -- one column after the other, the last one first
    repeat apply RowReading.forall_and
    rintro g hg
    obtain rfl := Except.ok.inj hg
    intros
    rfl

theorem Issue.shows_nil (h : issue.bare = issue) : issue.Shows [] := by
  rw [← h]
  exact ⟨rfl, rfl, rfl, rfl, rfl, rfl⟩

theorem Issue.map_id_bare (issues : List Issue) :
    (issues.map Issue.bare).map Issue.id = issues.map Issue.id :=
  List.map_map ..

/-! ## Everything that belongs to issues -/

/-- Issues with everything that belongs to them are the issues of their rows. -/
theorem Issue.map_bare_attached (hbare : ∀ issue ∈ issues, issue.bare = issue)
    (ds : List Dependency) (labels : List Labelling) (counts : List CommentCount) :
    (counts.foldl attachCommentCount
      (labels.foldl attachLabel (ds.foldl attachDependency issues))).map bare = issues := by
  have hkeeps {α : Type} {attach : List Issue → α → List Issue}
      (h : ∀ issues a, (attach issues a).map bare = issues.map bare) (items : List α)
      (issues : List Issue) : (items.foldl attach issues).map bare = issues.map bare := by
    induction items generalizing issues with
    | nil => rfl
    | cons a items ih => rw [List.foldl_cons, ih, h]
  rw [hkeeps map_bare_attachCommentCount, hkeeps map_bare_attachLabel,
    hkeeps map_bare_attachDependency]
  exact (List.map_congr_left hbare).trans (List.map_id issues)

/-- Issues with everything that belongs to them show what the dependencies say. -/
theorem Issue.shows_attached (hbare : ∀ issue ∈ issues, issue.bare = issue)
    (hids : (issues.map Issue.id).Nodup) (ds : List Dependency) (labels : List Labelling)
    (counts : List CommentCount) :
    ∀ issue ∈ counts.foldl attachCommentCount
      (labels.foldl attachLabel (ds.foldl attachDependency issues)), issue.Shows ds := by
  have hrelated : ∀ issue ∈ ds.foldl attachDependency issues, issue.Shows ds := by
    rw [foldl_attachDependency_eq_map hids]
    intro issue hissue
    obtain ⟨found, hfound, rfl⟩ := List.mem_map.mp hissue
    exact (shows_nil (hbare found hfound)).foldl_relate ds
  have hlabelled : ∀ issue ∈ labels.foldl attachLabel (ds.foldl attachDependency issues),
      issue.Shows ds :=
    List.foldlRecOn (motive := fun issues => ∀ issue ∈ issues, issue.Shows ds) labels attachLabel
      hrelated fun _ h l _ => Shows.attachLabel h l
  exact List.foldlRecOn (motive := fun issues => ∀ issue ∈ issues, issue.Shows ds) counts
    attachCommentCount hlabelled fun _ h c _ => Shows.attachCommentCount h c

end IssueQuery
