/-!
# Maps in insertion order

A finite map whose keys keep the order in which they first came. Writing to a key that is there
leaves its place; a key that was erased comes back at the end.

* `get?_insert` what is read after a write;
* `get?_erase`  what is read after an erasure.
-/

namespace IssueQuery

/-- The items of a list without repetitions, each at the place of its first occurrence. -/
def firstOccurrences {α : Type} [BEq α] : List α → List α
  | [] => []
  | a :: rest => a :: (firstOccurrences rest).filter (· != a)

/-- A finite map whose keys keep the order in which they first came. -/
structure OrderedMap (κ α : Type) where
  entries : List (κ × α)
  nodup_keys : (entries.map Prod.fst).Nodup

namespace OrderedMap

variable {κ α : Type} [DecidableEq κ]

/-- The map without keys. -/
def empty : OrderedMap κ α := ⟨[], List.nodup_nil⟩

instance : Inhabited (OrderedMap κ α) := ⟨empty⟩

/-- The keys in the order in which they first came. -/
def keys (m : OrderedMap κ α) : List κ := m.entries.map Prod.fst

/-- The number of keys. -/
def size (m : OrderedMap κ α) : Nat := m.entries.length

/-- The value at a key. -/
def get? (m : OrderedMap κ α) (k : κ) : Option α := m.entries.lookup k

/-- Whether the map has a value at a key. -/
def contains (m : OrderedMap κ α) (k : κ) : Bool := (m.get? k).isSome

/-- Writes to the entry of a key, or adds one at the end. -/
def insertEntry (k : κ) (v : α) : List (κ × α) → List (κ × α)
  | [] => [(k, v)]
  | e :: rest => if e.1 = k then (k, v) :: rest else e :: insertEntry k v rest

theorem mem_keys_insertEntry {k j : κ} {v : α} {es : List (κ × α)} :
    j ∈ (insertEntry k v es).map Prod.fst ↔ j = k ∨ j ∈ es.map Prod.fst := by
  induction es with
  | nil => simp [insertEntry]
  | cons e rest ih =>
    by_cases h : e.1 = k
    · simp [insertEntry, h]
    · simp only [insertEntry, h, if_false, List.map_cons, List.mem_cons, ih]
      constructor
      · rintro (h₁ | h₁ | h₁) <;> simp [h₁]
      · rintro (h₁ | h₁ | h₁) <;> simp [h₁]

theorem nodup_keys_insertEntry {k : κ} {v : α} {es : List (κ × α)}
    (h : (es.map Prod.fst).Nodup) : ((insertEntry k v es).map Prod.fst).Nodup := by
  induction es with
  | nil => simp [insertEntry]
  | cons e rest ih =>
    rw [List.map_cons, List.nodup_cons] at h
    by_cases hk : e.1 = k
    · rw [insertEntry, if_pos hk, List.map_cons, List.nodup_cons, ← hk]
      exact h
    · rw [insertEntry, if_neg hk, List.map_cons, List.nodup_cons]
      refine ⟨fun hmem => ?_, ih h.2⟩
      rcases mem_keys_insertEntry.1 hmem with h₁ | h₁
      · exact hk h₁
      · exact h.1 h₁

/-- Sets the value at a key. -/
def insert (m : OrderedMap κ α) (k : κ) (v : α) : OrderedMap κ α :=
  ⟨insertEntry k v m.entries, nodup_keys_insertEntry m.nodup_keys⟩

/-- Keeps the entries that pass a test. -/
def filter (m : OrderedMap κ α) (keep : κ → α → Bool) : OrderedMap κ α :=
  ⟨m.entries.filter fun e => keep e.1 e.2,
    m.nodup_keys.sublist ((List.filter_sublist).map Prod.fst)⟩

/-- Removes a key. -/
def erase (m : OrderedMap κ α) (k : κ) : OrderedMap κ α := m.filter fun j _ => j != k

theorem lookup_insertEntry (k j : κ) (v : α) (es : List (κ × α)) :
    (insertEntry k v es).lookup j = if j = k then some v else es.lookup j := by
  induction es with
  | nil =>
    by_cases h : j = k
    · simp [insertEntry, h]
    · simp [insertEntry, h, List.lookup_cons, beq_eq_false_iff_ne.2 h]
  | cons e rest ih =>
    obtain ⟨i, u⟩ := e
    by_cases hk : i = k
    · by_cases h : j = k
      · simp [insertEntry, hk, h]
      · simp [insertEntry, hk, h, List.lookup_cons, beq_eq_false_iff_ne.2 h]
    · by_cases h : j = i
      · simp [insertEntry, hk, h]
      · simp [insertEntry, hk, List.lookup_cons, beq_eq_false_iff_ne.2 h, ih]

/-- Reading after a write gives the new value at its key and the old ones elsewhere. -/
theorem get?_insert (m : OrderedMap κ α) (k j : κ) (v : α) :
    (m.insert k v).get? j = if j = k then some v else m.get? j :=
  lookup_insertEntry k j v m.entries

theorem lookup_filter_ne (k j : κ) (es : List (κ × α)) :
    (es.filter fun e => e.1 != k).lookup j = if j = k then none else es.lookup j := by
  induction es with
  | nil => simp
  | cons e rest ih =>
    obtain ⟨i, u⟩ := e
    by_cases hk : i = k
    · by_cases h : j = k
      · simp [hk, h] at ih ⊢; exact ih
      · simp [hk, h, List.lookup_cons] at ih ⊢
        rw [beq_eq_false_iff_ne.2 h]
        exact ih
    · by_cases h : j = i
      · have hj : j ≠ k := by rw [h]; exact hk
        simp [hk, h]
      · simp [hk, List.lookup_cons, beq_eq_false_iff_ne.2 h, ih]

/-- Reading after an erasure finds nothing at its key and the old values elsewhere. -/
theorem get?_erase (m : OrderedMap κ α) (k j : κ) :
    (m.erase k).get? j = if j = k then none else m.get? j :=
  lookup_filter_ne k j m.entries

@[simp] theorem get?_empty (k : κ) : (empty : OrderedMap κ α).get? k = none := rfl

end OrderedMap

end IssueQuery
