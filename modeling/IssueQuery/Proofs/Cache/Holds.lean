import IssueQuery.Cache.Ttl

/-!
# What a cache with deadlines may hold

A cache holds a value at a key if it has an entry with that value there, past its deadline or not.
Only writing makes a cache hold something; everything else leaves or drops it.

* `TtlCache.holds_get`, `TtlCache.holds_set`, … one lemma for each operation, which says what was
  held before of whatever is held behind it;
* `TtlCache.holds_of_get` what a read gives was held.
-/

namespace IssueQuery

namespace OrderedMap

variable {κ α : Type} [DecidableEq κ]

theorem mem_of_mem_insertEntry {k : κ} {v : α} {e : κ × α} {es : List (κ × α)}
    (h : e ∈ insertEntry k v es) : e = (k, v) ∨ e ∈ es := by
  induction es with
  | nil => exact .inl (by simpa [insertEntry] using h)
  | cons first rest ih =>
    unfold insertEntry at h
    split at h
    · obtain h | h := List.mem_cons.mp h
      · exact .inl h
      · exact .inr (List.mem_cons_of_mem first h)
    · obtain rfl | h := List.mem_cons.mp h
      · exact .inr List.mem_cons_self
      · exact (ih h).imp_right (List.mem_cons_of_mem first)

theorem mem_of_get? {m : OrderedMap κ α} {k : κ} {v : α} (h : m.get? k = some v) :
    (k, v) ∈ m.entries := by
  unfold get? at h
  generalize m.entries = es at h
  induction es with
  | nil => exact nomatch h
  | cons first rest ih =>
    obtain ⟨j, u⟩ := first
    rw [List.lookup_cons] at h
    split at h
    · rename_i hj
      obtain rfl : k = j := by simpa using hj
      obtain rfl : u = v := by simpa using h
      exact List.mem_cons_self
    · exact List.mem_cons_of_mem _ (ih h)

theorem not_mem_of_get? {m : OrderedMap κ α} {k : κ} (h : m.get? k = none) (v : α) :
    (k, v) ∉ m.entries := fun hmem => by
  have hne := List.lookup_eq_none_iff.mp h (k, v) hmem
  simp at hne

end OrderedMap

namespace TtlCache

variable {κ ν : Type} [DecidableEq κ] {c : TtlCache κ ν} {j k : κ} {u v : ν} {now : Time}
  {ttl : Option Time}

/-- The cache has an entry with a value at a key. -/
def Holds (c : TtlCache κ ν) (k : κ) (v : ν) : Prop :=
  ∃ e : Stored ν, (k, e) ∈ c.entries.entries ∧ e.value = v

theorem holds_of_erase (h : { c with entries := c.entries.erase j }.Holds k v) :
    k ≠ j ∧ c.Holds k v := by
  obtain ⟨e, he, rfl⟩ := h
  have hmem := List.mem_filter.mp he
  exact ⟨by simpa using hmem.2, e, hmem.1, rfl⟩

theorem holds_of_get (h : (c.get k now).1 = some v) : c.Holds k v := by
  unfold get at h
  split at h
  · exact nomatch h
  · rename_i e he
    split at h
    · obtain rfl : e.value = v := by simpa using h
      exact ⟨e, OrderedMap.mem_of_get? he, rfl⟩
    · exact nomatch h

theorem holds_get (h : (c.get j now).2.Holds k v) : c.Holds k v := by
  unfold get at h
  split at h
  · exact h
  · split at h
    · exact h
    · exact (holds_of_erase h).2

/-- Behind a read that gives nothing, nothing is held. -/
theorem not_holds_of_get (h : (c.get k now).1 = none) : ¬ (c.get k now).2.Holds k v := by
  unfold get at h ⊢
  split
  · rename_i hnone
    rintro ⟨e, he, -⟩
    exact OrderedMap.not_mem_of_get? hnone e he
  · rename_i e he
    rw [he] at h
    dsimp only at h
    split
    · rename_i hlive
      rw [if_pos hlive] at h
      exact nomatch h
    · exact fun hheld => (holds_of_erase hheld).1 rfl

theorem holds_set (h : (c.set j u ttl now).Holds k v) : (k = j ∧ v = u) ∨ c.Holds k v := by
  obtain ⟨e, he, rfl⟩ := h
  obtain hnew | hold := OrderedMap.mem_of_mem_insertEntry he
  · obtain ⟨rfl, rfl⟩ := Prod.mk.inj hnew
    exact .inl ⟨rfl, rfl⟩
  · exact .inr ⟨e, hold, rfl⟩

theorem getWithRefresh_fst : (c.getWithRefresh k ttl now).1 = (c.get k now).1 := by
  unfold getWithRefresh
  split <;> rename_i heq <;> simp [heq]

theorem holds_getWithRefresh (h : (c.getWithRefresh j ttl now).2.Holds k v) : c.Holds k v := by
  unfold getWithRefresh at h
  split at h
  · rename_i u c' hget
    have hread : (c.get j now).1 = some u := by rw [hget]
    obtain ⟨rfl, rfl⟩ | hold := holds_set h
    · exact holds_of_get hread
    · have hdropped : (c.get j now).2.Holds k v := by rw [hget]; exact hold
      exact holds_get hdropped
  · rename_i c' hget
    have hdropped : (c.get j now).2.Holds k v := by rw [hget]; exact h
    exact holds_get hdropped

theorem not_holds_of_getWithRefresh (h : (c.getWithRefresh k ttl now).1 = none) :
    ¬ (c.getWithRefresh k ttl now).2.Holds k v := by
  have hmiss : (c.get k now).1 = none := getWithRefresh_fst.symm.trans h
  unfold getWithRefresh
  split
  · rename_i heq
    rw [heq] at hmiss
    exact nomatch hmiss
  · rename_i c' heq
    have hnot := not_holds_of_get (v := v) hmiss
    rw [heq] at hnot
    exact hnot

theorem holds_delete (h : (c.delete [j]).Holds k v) : k ≠ j ∧ c.Holds k v := holds_of_erase h

omit [DecidableEq κ] in
theorem not_holds_flush : ¬ c.flush.Holds k v := by
  rintro ⟨e, he, -⟩
  exact nomatch he

omit [DecidableEq κ] in
theorem holds_advance (h : (c.advance now).Holds k v) : c.Holds k v := by
  unfold advance at h
  split at h
  · exact h
  · split at h
    · exact h
    · obtain ⟨e, he, rfl⟩ := h
      exact ⟨e, (List.mem_filter.mp he).1, rfl⟩

omit [DecidableEq κ] in
theorem not_holds_new {defaultTtl interval : Option Time} :
    ¬ (new now defaultTtl interval : TtlCache κ ν).Holds k v := by
  rintro ⟨e, he, -⟩
  exact nomatch he

end TtlCache

end IssueQuery
