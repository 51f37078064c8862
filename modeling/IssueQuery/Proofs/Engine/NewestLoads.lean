import IssueQuery.Proofs.Engine.Courses

/-!
# The newest load of a text

A load of a text starts only when there is nothing of the text. So whatever is kept of a text comes from
the newest load that a call of it has, and no older load of it can be joined.

* `State.Claims`, `State.Newest` the loads that calls of a text have, and the last one of them;
* `Current`       what there is of a text is of its newest load;
* `Current.step`  every event keeps it so;
* `Current.not_has` if the newest load of a text has failed and is over, there is nothing of the text.
-/

namespace IssueQuery.Engine

variable {store : Store} {F F' : Charts} {s s' : State} {event : Event} {text : Text} {load : Nat}

/-! ## Claims -/

/-- A call of the text has the load. -/
def State.Claims (s : State) (text : Text) (load : Nat) : Prop :=
  ∃ (i : Nat) (c : Call), s.calls[i]? = some c ∧ c.text = text ∧ c.load = some load

/-- The load is the newest one that calls of the text have. -/
structure State.Newest (s : State) (text : Text) (load : Nat) : Prop where
  claimed : s.Claims text load
  last : ∀ k, s.Claims text k → k ≤ load

theorem State.Newest.congr (h : s.Newest text load)
    (hclaims : ∀ k, s'.Claims text k ↔ s.Claims text k) : s'.Newest text load where
  claimed := (hclaims load).mpr h.claimed
  last := fun k hk => h.last k ((hclaims k).mp hk)

/-- What there is of a text is of its newest load: the load that can be joined, and the one that came to
the outcome that is kept. -/
structure Current (F : Charts) (s : State) : Prop where
  flights : ∀ f ∈ s.queries.flights, f.attached = true → s.Newest f.key f.id
  kept : ∀ text outcome, s.queries.store.Holds text outcome →
    ∃ load, s.Newest text load ∧ (F.loads load).fate = some (.ok outcome)

/-- Calls keep their loads. -/
theorem Shape.claims (h : Shape store s event s') (hclaims : s.Claims text load) :
    s'.Claims text load := by
  obtain ⟨i, c, hc, htext, hload⟩ := hclaims
  obtain ⟨c', hc', hcontinues⟩ := h.continues hc
  exact ⟨i, c', hc', hcontinues.text.trans htext, hcontinues.load.trans hload⟩

/-- What signals abort makes no difference to that. -/
theorem Aborting.claims (h : Aborting s s') (hclaims : s'.Claims text load) :
    s.Claims text load := by
  obtain ⟨i, c', hc', htext, hload⟩ := hclaims
  cases hc : s.calls[i]? with
  | none => exact nomatch (h.none_made hc).symm.trans hc'
  | some c =>
    obtain ⟨c'', hc'', hweathers⟩ := h.call hc
    obtain rfl := Option.some.inj (hc'.symm.trans hc'')
    exact ⟨i, c, hc, hweathers.text.symm.trans htext, hweathers.load.symm.trans hload⟩

/-- A call that joins a load joins the newest one. -/
theorem Quiet.claims (h : Quiet store s s') (hcurrent : Current F s)
    (hclaims : s'.Claims text load) : s.Claims text load := by
  obtain ⟨i, c', hc', htext, hload⟩ := hclaims
  cases hc : s.calls[i]? with
  | none =>
    obtain ⟨f, hf, hattached, hid, hkey⟩ := h.joined i c' hc' hc load hload
    rw [← htext, ← hkey, ← hid]
    exact (hcurrent.flights f hf hattached).claimed
  | some c =>
    obtain ⟨c'', hc'', hcontinues⟩ := h.calls i c hc
    obtain rfl := Option.some.inj (hc'.symm.trans hc'')
    exact ⟨i, c, hc, hcontinues.text.symm.trans htext, hcontinues.load.symm.trans hload⟩

/-- A load that starts is claimed by the call that starts it, and nothing else is claimed anew. -/
theorem Opens.claims_iff {middle last : State} {opened : Text} (h : Opens s s' opened middle last)
    (hforth : s.Claims text load → s'.Claims text load) :
    s'.Claims text load ↔ s.Claims text load ∨ text = opened ∧ load = s.queries.started := by
  obtain ⟨made, hmade, hfree, -, hcalls, hc⟩ := h.made
  obtain ⟨change, hjoined, hchange⟩ : ∃ change : Call → Call,
      s'.calls = last.calls.modify s.calls.length change ∧
      ∀ c, (change c).text = c.text ∧ (change c).load = some s.queries.started :=
    ⟨_, (congrArg State.calls h.joins).trans (join_calls ..), fun _ => ⟨rfl, rfl⟩⟩
  constructor
  · rintro ⟨i, c', hc', htext, hload⟩
    rw [hjoined] at hc'
    obtain ⟨c₀, hc₀, ⟨rfl, rfl⟩ | ⟨hne, rfl⟩⟩ := getElem?_modify_cases hc'
    · obtain rfl := Option.some.inj (hc₀.symm.trans hc)
      obtain ⟨hsame, hjoins⟩ := hchange c₀
      exact .inr ⟨htext.symm.trans (hsame.trans hmade), Option.some.inj (hload.symm.trans hjoins)⟩
    · -- the call that was made has no load yet, so an older one has this
      obtain ⟨j, c, hc, htext', hload'⟩ := h.aborting.claims ⟨i, c', hc₀, htext, hload⟩
      obtain ⟨c₀, hc₀, hload₀, htext₀⟩ :=
        (sameClaims_append hfree).calls c (hcalls ▸ List.mem_of_getElem? hc) load hload'
      obtain ⟨k, hk⟩ := List.mem_iff_getElem?.mp hc₀
      exact .inl ⟨k, c₀, hk, htext₀.trans htext', hload₀⟩
  · rintro (hold | ⟨rfl, rfl⟩)
    · exact hforth hold
    · obtain ⟨hsame, hjoins⟩ := hchange made
      refine ⟨s.calls.length, change made, ?_, hsame.trans hmade, hjoins⟩
      rw [hjoined, List.getElem?_modify_eq, hc]
      rfl

/-! ## What there is of a text -/

namespace Current

/-- Nothing new comes up of any text. -/
theorem of_subsides (h : Current F s) (hF : F.Grows F')
    (hclaims : ∀ text load, s'.Claims text load ↔ s.Claims text load)
    (hqueries : s.queries.Subsides s'.queries) : Current F' s' where
  flights := by
    intro f hf hattached
    obtain ⟨g, hg, hgattached, hid, hkey⟩ := hqueries.flights f hf hattached
    rw [← hid, ← hkey]
    exact (h.flights g hg hgattached).congr (hclaims g.key)
  kept := by
    intro text outcome hholds
    obtain ⟨load, hnewest, hfate⟩ := h.kept text outcome (hqueries.holds _ _ hholds)
    exact ⟨load, hnewest.congr (hclaims text), (hF.loads load).fate _ hfate⟩

/-- A load ends: its outcome is kept, if at all, of the text of which it is the newest load. -/
theorem settles (h : Current F s) (hF : F.Grows F') {outcome : Except LoadFailure Outcome}
    (hfate : (F.loads load).fate = some outcome)
    (hclaims : ∀ text load, s'.Claims text load ↔ s.Claims text load)
    (hqueries : s'.queries = s.queries.settle load outcome.toOption s.now) : Current F' s' where
  flights := by
    rw [hqueries]
    exact fun f hf hattached =>
      (h.flights f (ReadThrough.mem_settle_flights.mp hf).1 hattached).congr (hclaims f.key)
  kept := by
    intro text out hholds
    rw [hqueries] at hholds
    obtain ⟨hvalue, f, hf, rfl, rfl, hattached⟩ | hheld := ReadThrough.holds_settle hholds
    · refine ⟨f.id, (h.flights f hf hattached).congr (hclaims f.key), (hF.loads f.id).fate _ ?_⟩
      cases outcome with
      | error e => exact nomatch hvalue
      | ok out' =>
        obtain rfl : out' = out := Option.some.inj hvalue
        exact hfate
    · obtain ⟨k, hnewest, hkept⟩ := h.kept text out hheld
      exact ⟨k, hnewest.congr (hclaims text), (hF.loads k).fate _ hkept⟩

/-- A load of a text starts: there was nothing of the text, and the load is newer than all others. -/
theorem opens (h : Current F s) (hF : F.Grows F') (halert : Alert store s s.Pending)
    {opened : Text} {middle last : State} (hopens : Opens s s' opened middle last)
    (hforth : ∀ text load, s.Claims text load → s'.Claims text load) : Current F' s' := by
  have hclaims {text : Text} {load : Nat} :
      s'.Claims text load ↔ s.Claims text load ∨ text = opened ∧ load = s.queries.started :=
    hopens.claims_iff (hforth text load)
  have hqueries : s'.queries = last.queries :=
    (congrArg State.queries hopens.joins).trans (join_queries ..)
  have hother {text : Text} {load : Nat} (hne : text ≠ opened) (hnewest : s.Newest text load) :
      s'.Newest text load :=
    hnewest.congr fun k => hclaims.trans (or_iff_left fun hsame => hne hsame.1)
  -- the loads that calls have had have started before
  have hbelow {text : Text} {k : Nat} (hk : s.Claims text k) : k < s.queries.started := by
    obtain ⟨i, c, hc, -, hload⟩ := hk
    obtain ⟨l, hl, rfl, -⟩ := (halert.attentive.calls i c hc).loaded k hload
    exact (halert.attentive.loads l hl).below
  obtain ⟨ttl, hflights⟩ := hopens.starts.flights
  constructor
  · intro f hf hattached
    rw [hqueries] at hf
    obtain ⟨g, hg, hgattached, hid, hkey⟩ := hopens.aborting.queries.flights f hf hattached
    rw [hflights] at hg
    rw [← hid, ← hkey]
    obtain hold | hnew := List.mem_append.mp hg
    · exact hother (hopens.starts.other g hold hgattached) (h.flights g hold hgattached)
    · obtain rfl := List.mem_singleton.mp hnew
      refine ⟨hclaims.mpr (.inr ⟨rfl, rfl⟩), fun k hk => ?_⟩
      obtain hold | ⟨-, rfl⟩ := hclaims.mp hk
      · exact Nat.le_of_lt (hbelow hold)
      · exact Nat.le_refl _
  · intro text outcome hholds
    rw [hqueries] at hholds
    obtain ⟨hheld, hne⟩ := hopens.starts.holds _ _ (hopens.aborting.queries.holds _ _ hholds)
    obtain ⟨k, hnewest, hfate⟩ := h.kept text outcome hheld
    exact ⟨k, hother hne hnewest, (hF.loads k).fate _ hfate⟩

theorem step (h : Current F s) (hF : F.Grows F') (hcharted : Charted store F s)
    (htidy : Tidy store s) (hshape : Shape store s event s') : Current F' s' := by
  have hforth : ∀ text load, s.Claims text load → s'.Claims text load := fun _ _ => hshape.claims
  cases hshape with
  | aborting haborting =>
    exact h.of_subsides hF (fun text load => ⟨haborting.claims, hforth text load⟩) haborting.queries
  | quiet hquiet hqueries =>
    exact h.of_subsides hF (fun text load => ⟨hquiet.claims h, hforth text load⟩) hqueries
  | @settles hquiet load outcome rest htick hagenda hqueries =>
    have hfate : (F.loads load).fate = some outcome :=
      hcharted.jobs (.settle load outcome) (pending_head hagenda)
    exact h.settles hF hfate (fun text load => ⟨hquiet.claims h, hforth text load⟩) hqueries
  | opens hcall hopens => exact h.opens hF htidy.alert hopens hforth

/-- If the newest load of a text came to no outcome and is over, then there is nothing of the text. -/
theorem not_has (h : Current F s) (hnewest : s.Newest text load)
    (hdetached : Detached s.queries load) (hfate : ∀ out, (F.loads load).fate ≠ some (.ok out)) :
    ¬ Has s.queries text := by
  have heq {k : Nat} (hk : s.Newest text k) : k = load :=
    Nat.le_antisymm (hnewest.last k hk.claimed) (hk.last load hnewest.claimed)
  rintro (⟨outcome, hholds⟩ | ⟨f, hf, hattached, rfl⟩)
  · obtain ⟨k, hk, hkept⟩ := h.kept text outcome hholds
    exact hfate outcome (heq hk ▸ hkept)
  · rw [hdetached.flights f hf (heq (h.flights f hf hattached))] at hattached
    exact nomatch hattached

end Current

end IssueQuery.Engine
