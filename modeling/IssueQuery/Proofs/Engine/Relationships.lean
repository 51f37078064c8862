import IssueQuery.Proofs.Engine.Batches

/-!
# Results show relationships at both ends

A result is made of one or two batches of issues, each of which was fetched with its own statement
for dependencies. Within a batch every row shows at both of its ends, as often as it was given. If
the rows are those of one relation, the batches agree, and any two issues of the result show the
relation between them.

* `Issue.Related`        two issues show the relation between them at both ends;
* `Issue.Knows`          dependencies are those of a relation, as far as an issue is concerned;
* `relationships_mirror` what results show.
-/

namespace IssueQuery

namespace Issue

/-- Two issues show a relation of the one to the other at both ends, and once. -/
structure Related (R : Dependency → Prop) (a b : Issue) : Prop where
  blockedBy : b.id ∈ a.blockedBy ↔ R ⟨a.id, b.id, Relation.blocks.word⟩
  blocks : a.id ∈ b.blocks ↔ R ⟨a.id, b.id, Relation.blocks.word⟩
  discoveredFrom : b.id ∈ a.discoveredFrom ↔ R ⟨a.id, b.id, Relation.discoveredFrom.word⟩
  discovered : a.id ∈ b.discovered ↔ R ⟨a.id, b.id, Relation.discoveredFrom.word⟩
  children : a.id ∈ b.children ↔ R ⟨a.id, b.id, Relation.parentChild.word⟩
  once : a.blockedBy.Nodup ∧ b.blocks.Nodup ∧ a.discoveredFrom.Nodup ∧ b.discovered.Nodup ∧
    b.children.Nodup

/-- The dependencies are those of a relation, as far as an issue is at one of their ends. -/
structure Knows (R : Dependency → Prop) (ds : List Dependency) (id : Text) : Prop where
  nodup : ds.Nodup
  mem_iff : ∀ d : Dependency, d.issueId = id ∨ d.dependsOnId = id → (d ∈ ds ↔ R d)

variable {R : Dependency → Prop} {ds ds' : List Dependency} {a b : Issue}

/-- It does not matter whether both issues show the same dependencies. -/
theorem Shows.related (ha : a.Shows ds) (hb : b.Shows ds') (hsource : Knows R ds a.id)
    (htarget : Knows R ds' b.id) : a.Related R b where
  blockedBy := by rw [ha.blockedBy, mem_targets, hsource.mem_iff _ (.inl rfl)]
  blocks := by rw [hb.blocks, mem_dependents, htarget.mem_iff _ (.inr rfl)]
  discoveredFrom := by rw [ha.discoveredFrom, mem_targets, hsource.mem_iff _ (.inl rfl)]
  discovered := by rw [hb.discovered, mem_dependents, htarget.mem_iff _ (.inr rfl)]
  children := by rw [hb.children, mem_dependents, htarget.mem_iff _ (.inr rfl)]
  once := by
    rw [ha.blockedBy, hb.blocks, ha.discoveredFrom, hb.discovered, hb.children]
    exact ⟨nodup_targets hsource.nodup, nodup_dependents htarget.nodup,
      nodup_targets hsource.nodup, nodup_dependents htarget.nodup,
      nodup_dependents htarget.nodup⟩

end Issue

namespace Engine

variable {store : Store} {s : State} {R : Dependency → Prop}

/-- The dependencies of a batch are those of the relation, as far as its issues are concerned. -/
theorem Relates.knows (hrelates : Relates R store) {n : Nat} {ids : List Text}
    {ds : List Dependency}
    (hreads : (s.drawn store n).Reads (.dependencies ids) Dependency.ofRow ds) {id : Text}
    (hid : id ∈ ids) : Issue.Knows R ds id := by
  obtain ⟨k, hk⟩ := hreads.given
  obtain ⟨hnodup, hmem⟩ := hrelates k ids ds (List.ne_nil_of_mem hid) hk
  refine ⟨hnodup, fun d hd => (hmem d).trans ?_⟩
  obtain rfl | rfl := hd <;> simp [hid]

/-! ## What results show -/

/-- Results show relationships at both of their ends.

Whatever rows a store with a key gives for dependencies, a result is made of two batches. Within a
batch every row shows as often as it was given, at the issue that depends and at the one that it
depends on, and an issue has the first parent in the order of the rows. Rows of other words change
nothing.

If the rows are those of a fixed relation with one of the issues at an end, this holds across the
batches: an issue shows another one if and only if the relation has them, which is if and only if the
other issue shows it, and once. An issue has a parent if and only if the relation has one; it is the
first one in the order of the rows, and has the issue among its children. -/
theorem relationships_mirror (cfg : Settings) (store : Store) (s : State) (i : Nat)
    (result : Result) (hkeyed : Keyed store) (hs : Reachable cfg store s)
    (hresult : s.result? i = some (.ok result)) :
    (∃ base extra, result.outcome.issues = base ++ extra ∧ ∀ issues ∈ [base, extra],
      issues = [] ∨ ∃ ids ds, ids.Perm (issues.map Issue.id) ∧
        (s.drawn store 0).Reads (.dependencies ids) Dependency.ofRow ds ∧
        (∀ a ∈ issues, ∀ b ∈ issues, a.Mirrored ds.count b) ∧
        ∀ a ∈ issues, a.parentId = (targets ds .parentChild a.id).head?) ∧
    (∀ (ds : List Dependency) (issues : List Issue),
      (ds.filter fun d => d.relation?.isSome).foldl Issue.attachDependency issues =
        ds.foldl Issue.attachDependency issues) ∧
    ∀ R, Relates R store →
      (∀ a ∈ result.outcome.issues, ∀ b ∈ result.outcome.issues, a.Related R b) ∧
      ∀ a ∈ result.outcome.issues,
        (a.parentId = none ↔ ∀ parent, ¬ R ⟨a.id, parent, Relation.parentChild.word⟩) ∧
        (∃ ids ds, a.id ∈ ids ∧
          (s.drawn store 0).Reads (.dependencies ids) Dependency.ofRow ds ∧
          a.parentId = (targets ds .parentChild a.id).head?) ∧
        ∀ b ∈ result.outcome.issues, a.parentId = some b.id → a.id ∈ b.children := by
  obtain ⟨c, q, -, -, -, hgives⟩ := hs.gives hresult
  obtain ⟨base, extra, hissues, hbase, hextra⟩ := hgives.batches hkeyed
  refine ⟨⟨base, extra, hissues, ?_⟩, Issue.foldl_attachDependency_filter, ?_⟩
  · have hbatch : ∀ issues, (s.drawn store 0).Together issues → issues = [] ∨
        ∃ ids ds, ids.Perm (issues.map Issue.id) ∧
          (s.drawn store 0).Reads (.dependencies ids) Dependency.ofRow ds ∧
          (∀ a ∈ issues, ∀ b ∈ issues, a.Mirrored ds.count b) ∧
          ∀ a ∈ issues, a.parentId = (targets ds .parentChild a.id).head? := by
      rintro issues (hnone | ⟨ids, ds, hids, hreads, hshows⟩)
      · exact .inl hnone
      · exact .inr ⟨ids, ds, hids, hreads,
          fun a ha b hb => (hshows a ha).mirrored (hshows b hb),
          fun a ha => (hshows a ha).parentId⟩
    exact List.forall_mem_cons.mpr ⟨hbatch base hbase, List.forall_mem_singleton.mpr
      (hbatch extra hextra)⟩
  · intro R hrelates
    -- every issue shows dependencies for which it was asked itself
    have hshown : ∀ a ∈ result.outcome.issues, ∃ ids ds, a.id ∈ ids ∧
        (s.drawn store 0).Reads (.dependencies ids) Dependency.ofRow ds ∧ a.Shows ds := by
      intro a ha
      rw [hissues] at ha
      obtain ha | ha := List.mem_append.mp ha
      · exact hbase.shown a ha
      · exact hextra.shown a ha
    refine ⟨fun a ha b hb => ?_, fun a ha => ?_⟩
    · obtain ⟨ids, ds, hid, hreads, hshows⟩ := hshown a ha
      obtain ⟨ids', ds', hid', hreads', hshows'⟩ := hshown b hb
      exact hshows.related hshows' (hrelates.knows hreads hid) (hrelates.knows hreads' hid')
    · obtain ⟨ids, ds, hid, hreads, hshows⟩ := hshown a ha
      have hknows := hrelates.knows hreads hid
      refine ⟨?_, ⟨ids, ds, hid, hreads, hshows.parentId⟩, fun b hb hparent => ?_⟩
      · rw [hshows.parentId_eq_none_iff]
        exact forall_congr' fun parent => not_congr (hknows.mem_iff _ (.inl rfl))
      · obtain ⟨ids', ds', hid', hreads', hshows'⟩ := hshown b hb
        have hknows' := hrelates.knows hreads' hid'
        have hparent' := (hknows.mem_iff _ (.inl rfl)).mp (hshows.mem_of_parentId hparent)
        exact (hshows.related hshows' hknows hknows').children.mpr hparent'

/-- An issue that is blocked by another one, which is its parent and was found in its course; it is
also given as a parent of itself, and there is a row of another word. -/
def kinship : List Dependency :=
  [⟨"a", "b", "blocks"⟩, ⟨"a", "b", "parent-child"⟩, ⟨"a", "a", "parent-child"⟩,
    ⟨"b", "a", "discovered-from"⟩, ⟨"a", "b", "related"⟩]

/-- The one issue is selected, and the other one is found by the expansion. -/
def relatives : State :=
  run ⟨5, false, default⟩ (tableStore ["a", "b"] kinship) (.initial 0)
    (.call "id=a expand up" none :: List.replicate 12 .tick)

/-- The issues are of different batches, and show the relation all the same. -/
theorem relationships_mirror_relatives :
    Keyed (tableStore ["a", "b"] kinship) ∧
    Relates (· ∈ kinship) (tableStore ["a", "b"] kinship) ∧
    ∃ result, relatives.result? 0 = some (.ok result) ∧
      result.outcome.issues.map Issue.title = ["a", "b"] ∧
      (∀ a ∈ result.outcome.issues, ∀ b ∈ result.outcome.issues, a.Related (· ∈ kinship) b) ∧
      ∀ a ∈ result.outcome.issues, ∀ b ∈ result.outcome.issues,
        a.parentId = some b.id → a.id ∈ b.children := by
  have hrun : relatives.titles? 0 = some (["a", "b"] : List Text) := by decide +kernel
  have hkeyed : Keyed (tableStore ["a", "b"] kinship) := keyed_tableStore (by decide)
  have hrelates : Relates (· ∈ kinship) (tableStore ["a", "b"] kinship) :=
    relates_tableStore (by decide)
  have hreachable : Reachable ⟨5, false, default⟩ (tableStore ["a", "b"] kinship) relatives :=
    ⟨0, none, none, none, none, _, rfl⟩
  obtain ⟨c, result, hc, hsettled, htitles⟩ := exists_of_titles? hrun
  have hresult : relatives.result? 0 = some (.ok result) := by
    rw [State.result?, hc]
    exact hsettled
  obtain ⟨-, -, hrelation⟩ := relationships_mirror _ _ _ 0 result hkeyed hreachable hresult
  obtain ⟨hrelated, hparents⟩ := hrelation (· ∈ kinship) hrelates
  exact ⟨hkeyed, hrelates, result, hresult, htitles, hrelated,
    fun a ha => (hparents a ha).2.2⟩

end Engine

end IssueQuery
