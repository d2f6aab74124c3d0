/-!
# Ordered tables

A table maps names to values and keeps the order in which the names first came in. Writing a name
again replaces its value in place. No name occurs twice, and the type says so. The view of a table
is the list of its entries.
-/

namespace PropDoc

/-- Entries by name, in order of first insertion, each name once. -/
structure Table (α : Type) where
  entries : List (String × α)
  nodup : (entries.map Prod.fst).Nodup

namespace Table

variable {α β : Type}

/-- Tables with the same entries are the same. -/
@[ext] theorem ext {s t : Table α} (h : s.entries = t.entries) : s = t := by
  cases s
  cases t
  cases h
  rfl

/-- The table with no entry. -/
def empty : Table α := ⟨[], List.nodup_nil⟩

instance : Inhabited (Table α) := ⟨empty⟩

/-- The names, in order. -/
def keys (t : Table α) : List String := t.entries.map Prod.fst

/-- The values, in the order of their names. -/
def values (t : Table α) : List α := t.entries.map Prod.snd

/-- The number of entries. -/
def size (t : Table α) : Nat := t.entries.length

/-- Whether there is no entry. -/
def isEmpty (t : Table α) : Bool := t.entries.isEmpty

/-- The value under a name. -/
def get? (t : Table α) (key : String) : Option α :=
  (t.entries.find? fun entry ↦ entry.1 == key).map Prod.snd

/-- Whether a name has a value. -/
def contains (t : Table α) (key : String) : Bool := t.keys.contains key

private def replaced (key : String) (f : α → α) (entry : String × α) : String × α :=
  if entry.1 = key then (entry.1, f entry.2) else entry

private theorem fst_replaced (key : String) (f : α → α) (entry : String × α) :
    (replaced key f entry).1 = entry.1 := by
  unfold replaced
  split <;> rfl

private theorem keys_replaced (key : String) (f : α → α) (entries : List (String × α)) :
    (entries.map (replaced key f)).map Prod.fst = entries.map Prod.fst := by
  rw [List.map_map]
  exact List.map_congr_left fun entry _ ↦ fst_replaced key f entry

private theorem find?_replaced (key : String) (f : α → α) (entries : List (String × α))
    (k : String) :
    ((entries.map (replaced key f)).find? fun entry ↦ entry.1 == k).map Prod.snd =
      if k = key then ((entries.find? fun entry ↦ entry.1 == k).map Prod.snd).map f
      else (entries.find? fun entry ↦ entry.1 == k).map Prod.snd := by
  induction entries with
  | nil => simp
  | cons entry entries ih =>
    by_cases hentry : entry.1 = k
    · by_cases hk : k = key
      · simp [replaced, hentry, hk]
      · simp [replaced, hentry, hk]
    · have hkeep : (replaced key f entry).1 ≠ k := by rwa [fst_replaced]
      rw [List.map_cons, List.find?_cons_of_neg (by simpa using hkeep),
        List.find?_cons_of_neg (by simpa using hentry), ih]

/-- Change the value under a name, if there is one. -/
def modify (t : Table α) (key : String) (f : α → α) : Table α :=
  ⟨t.entries.map (replaced key f), by rw [keys_replaced]; exact t.nodup⟩

private theorem nodup_append_new {t : Table α} {key : String} {value : α}
    (h : t.contains key = false) :
    ((t.entries ++ [(key, value)]).map Prod.fst).Nodup := by
  have hk : key ∉ t.entries.map Prod.fst := by
    simpa [contains, keys] using h
  rw [List.map_append, List.nodup_append]
  refine ⟨t.nodup, by simp, ?_⟩
  intro a ha b hb
  simp only [List.map_cons, List.map_nil, List.mem_singleton] at hb
  subst hb
  exact fun hab ↦ hk (hab ▸ ha)

/-- Write a value under a name: in place if the name is known, at the end otherwise. -/
def insert (t : Table α) (key : String) (value : α) : Table α :=
  if h : t.contains key then t.modify key fun _ ↦ value
  else ⟨t.entries ++ [(key, value)], nodup_append_new (by simpa using h)⟩

/-- Write a value under a name that has none yet; a known name keeps its value. -/
def insertNew (t : Table α) (key : String) (value : α) : Table α :=
  if h : t.contains key then t
  else ⟨t.entries ++ [(key, value)], nodup_append_new (by simpa using h)⟩

/-- The empty table has no entries. -/
@[simp] theorem entries_empty : (empty : Table α).entries = [] := rfl

/-- Changing a value keeps the names and their order. -/
@[simp] theorem keys_modify (t : Table α) (key : String) (f : α → α) :
    (t.modify key f).keys = t.keys :=
  keys_replaced key f t.entries

/-- Changing the value under a name that is not there changes nothing. -/
theorem modify_of_not_mem {t : Table α} {key : String} (h : key ∉ t.keys) (f : α → α) :
    t.modify key f = t := by
  apply ext
  have hkept : ∀ entry ∈ t.entries, replaced key f entry = id entry := by
    intro entry hentry
    have hne : entry.1 ≠ key := fun hkey ↦ h (hkey ▸ List.mem_map_of_mem hentry)
    exact if_neg hne
  exact (List.map_congr_left hkept).trans (List.map_id _)

/-- Nothing is under any name of the empty table. -/
@[simp] theorem get?_empty (k : String) : (empty : Table α).get? k = none := rfl

/-- A name has a value exactly if it is one of the names. -/
theorem contains_eq_isSome (t : Table α) (k : String) : t.contains k = (t.get? k).isSome := by
  rw [Bool.eq_iff_iff]
  simp [contains, keys, get?, List.find?_isSome]

/-- Changing a value changes what is under its name only. -/
theorem get?_modify (t : Table α) (key : String) (f : α → α) (k : String) :
    (t.modify key f).get? k = if k = key then (t.get? k).map f else t.get? k :=
  find?_replaced key f t.entries k

/-- A written value is found under its name, and all else as before. -/
theorem get?_insert (t : Table α) (key : String) (value : α) (k : String) :
    (t.insert key value).get? k = if k = key then some value else t.get? k := by
  unfold insert
  split
  · next hknown =>
    rw [get?_modify]
    by_cases hk : k = key
    · rw [contains_eq_isSome, Option.isSome_iff_exists] at hknown
      obtain ⟨old, hold⟩ := hknown
      simp [hk, hold]
    · simp [hk]
  · next hnew =>
    by_cases hk : k = key
    · have hnone : t.get? key = none := by
        rwa [contains_eq_isSome, Bool.not_eq_true, Option.isSome_eq_false_iff,
          Option.isNone_iff_eq_none] at hnew
      rw [get?, Option.map_eq_none_iff] at hnone
      simp [get?, hk, List.find?_append, hnone]
    · simp [get?, hk, List.find?_append, Ne.symm hk]

/-- A new name goes to the end; a known one stays where it is. -/
theorem keys_insert (t : Table α) (key : String) (value : α) :
    (t.insert key value).keys = if t.contains key then t.keys else t.keys ++ [key] := by
  unfold insert
  split
  · exact keys_modify t key _
  · simp [keys]

/-- A value is found under a new name, and under a known one what was there before. -/
theorem get?_insertNew (t : Table α) (key : String) (value : α) (k : String) :
    (t.insertNew key value).get? k = (t.get? k).or (if key = k then some value else none) := by
  unfold insertNew
  split
  · next hknown =>
    rw [contains_eq_isSome] at hknown
    by_cases hk : key = k
    · rw [hk] at hknown
      rw [Option.or_of_isSome hknown]
    · rw [if_neg hk, Option.or_none]
  · rw [get?, List.find?_append, Option.map_or, get?]
    by_cases hk : key = k <;> simp [hk]

/-- Writing new names only adds at the end. -/
theorem keys_insertNew (t : Table α) (key : String) (value : α) :
    (t.insertNew key value).keys = if t.contains key then t.keys else t.keys ++ [key] := by
  unfold insertNew
  split
  · rfl
  · simp [keys]

end Table

end PropDoc
