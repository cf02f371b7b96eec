/-
  Tables that keep the order in which their keys came.

  * `insert` gives a key a new value. A key that is already there keeps its place.
  * `get?_insert` and `keys_insert` say what a table holds afterwards, and in which order.
-/
namespace Corrections

/-- Values by keys, in the order in which the keys came. -/
structure Table (κ ν : Type) where
  entries : List (κ × ν)
  deriving DecidableEq, Inhabited

namespace Table

variable {κ ν : Type}

/-- The table without keys. -/
def empty : Table κ ν := ⟨[]⟩

/-- The keys, in the order in which they came. -/
def keys (t : Table κ ν) : List κ := t.entries.map Prod.fst

/-- The values, in the order in which their keys came. -/
def values (t : Table κ ν) : List ν := t.entries.map Prod.snd

variable [DecidableEq κ]

/-- The value of `k` in a list of entries. -/
def find? (k : κ) : List (κ × ν) → Option ν
  | [] => none
  | e :: rest => if e.1 = k then some e.2 else find? k rest

/-- The value of a key. -/
def get? (t : Table κ ν) (k : κ) : Option ν := find? k t.entries

/-- A list of entries in which `k` has the value `v`. -/
def put (k : κ) (v : ν) : List (κ × ν) → List (κ × ν)
  | [] => [(k, v)]
  | e :: rest => if e.1 = k then (k, v) :: rest else e :: put k v rest

/-- The table in which `k` has the value `v`. -/
def insert (t : Table κ ν) (k : κ) (v : ν) : Table κ ν := ⟨put k v t.entries⟩

theorem find?_put (k k' : κ) (v : ν) (es : List (κ × ν)) :
    find? k' (put k v es) = if k = k' then some v else find? k' es := by
  induction es with
  | nil => simp [put, find?]
  | cons e rest ih =>
    by_cases hk : e.1 = k
    · subst hk
      by_cases h : e.1 = k' <;> simp [put, find?, h]
    · by_cases h : e.1 = k'
      · subst h
        simp [put, find?, hk, Ne.symm hk]
      · simp [put, find?, hk, h, ih]

/-- The table holds the new value, and every other key keeps its value. -/
theorem get?_insert (t : Table κ ν) (k k' : κ) (v : ν) :
    (t.insert k v).get? k' = if k = k' then some v else t.get? k' :=
  find?_put k k' v t.entries

theorem put_put (k : κ) (v v' : ν) (es : List (κ × ν)) : put k v' (put k v es) = put k v' es := by
  induction es with
  | nil => simp [put]
  | cons e rest ih => by_cases hk : e.1 = k <;> simp [put, hk, ih]

/-- The last value of a key is the one that counts. -/
theorem insert_insert (t : Table κ ν) (k : κ) (v v' : ν) : (t.insert k v).insert k v' = t.insert k v' :=
  congrArg mk (put_put k v v' t.entries)

/-- A new key comes last, and a known key keeps its place. -/
theorem keys_insert (t : Table κ ν) (k : κ) (v : ν) :
    (t.insert k v).keys = if k ∈ t.keys then t.keys else t.keys ++ [k] := by
  obtain ⟨es⟩ := t
  simp only [insert, keys]
  induction es with
  | nil => simp [put]
  | cons e rest ih =>
    by_cases hk : e.1 = k
    · simp [put, hk]
    · simp only [put, hk, if_false, List.map_cons, ih, List.mem_cons, Ne.symm hk, false_or]
      by_cases h : k ∈ rest.map Prod.fst <;> simp [h]

theorem mem_put {k : κ} {v : ν} {e : κ × ν} {es : List (κ × ν)} (h : e ∈ put k v es) :
    e = (k, v) ∨ e ∈ es := by
  induction es with
  | nil => exact .inl (by simpa [put] using h)
  | cons e' rest ih =>
    by_cases hk : e'.1 = k
    · simp only [put, hk, if_true, List.mem_cons] at h
      exact h.imp_right (List.mem_cons_of_mem _)
    · simp only [put, hk, if_false, List.mem_cons] at h
      rcases h with rfl | h
      · exact .inr List.mem_cons_self
      · exact (ih h).imp_right (List.mem_cons_of_mem _)

/-- What a table holds afterwards is new or was there. -/
theorem mem_insert {t : Table κ ν} {k : κ} {v : ν} {e : κ × ν} (h : e ∈ (t.insert k v).entries) :
    e = (k, v) ∨ e ∈ t.entries :=
  mem_put h

theorem find?_eq_some_iff {k : κ} {v : ν} {es : List (κ × ν)} (h : (es.map Prod.fst).Nodup) :
    find? k es = some v ↔ (k, v) ∈ es := by
  induction es with
  | nil => simp [find?]
  | cons e rest ih =>
    obtain ⟨hfirst, hrest⟩ := List.nodup_cons.1 h
    by_cases hk : e.1 = k
    · have hnot : (k, v) ∉ rest := fun hmem => hfirst (hk ▸ List.mem_map_of_mem hmem)
      simp [find?, hk, hnot, Prod.ext_iff, eq_comm]
    · simp [find?, hk, ih hrest, Prod.ext_iff, Ne.symm hk]

/-- If no key comes twice, the value of a key is the one that stands beside it. -/
theorem get?_eq_some_iff {t : Table κ ν} (h : t.keys.Nodup) {k : κ} {v : ν} :
    t.get? k = some v ↔ (k, v) ∈ t.entries :=
  find?_eq_some_iff h

end Table

end Corrections
