import Mathlib.Data.List.Induction
import PropDoc.Table

/-!
# Tables written entry by entry

A table into which entries are written one after the other lists their names in the order in which
each came first. It holds under each name the value that was written last, or the first one if only
new names are written.
-/

namespace PropDoc.Table

variable {α : Type}

/-- The table of some entries, later ones replacing earlier ones of the same name. -/
def ofEntries (entries : List (String × α)) : Table α :=
  entries.foldl (fun table entry ↦ table.insert entry.1 entry.2) empty

private theorem ofEntries_concat (entries : List (String × α)) (entry : String × α) :
    ofEntries (entries ++ [entry]) = (ofEntries entries).insert entry.1 entry.2 := by
  simp [ofEntries]

private theorem keys_foldl {put : Table α → String → α → Table α}
    (hput : ∀ table key value, (put table key value).keys =
      if table.contains key then table.keys else table.keys ++ [key])
    (entries : List (String × α)) :
    (entries.foldl (fun table entry ↦ put table entry.1 entry.2) empty).keys =
      (entries.map Prod.fst).eraseDups := by
  induction entries using List.reverseRecOn with
  | nil => rfl
  | append_singleton entries entry ih =>
    rw [List.foldl_append, List.foldl_cons, List.foldl_nil, hput, contains, ih, List.map_append,
      List.eraseDups_append]
    by_cases hknown : entry.1 ∈ entries.map Prod.fst
    · simp [List.removeAll, hknown]
    · simp [List.removeAll, hknown, List.eraseDups_cons]

/-- The names come in the order of their first entries. -/
theorem keys_ofEntries (entries : List (String × α)) :
    (ofEntries entries).keys = (entries.map Prod.fst).eraseDups :=
  keys_foldl keys_insert entries

private theorem concat_eq_append_cons {before after entries : List (String × α)}
    {entry found : String × α} (h : entries ++ [entry] = before ++ found :: after) :
    after = [] ∧ entry = found ∨
      ∃ init, after = init ++ [entry] ∧ entries = before ++ found :: init := by
  rcases List.eq_nil_or_concat after with rfl | ⟨init, last, rfl⟩
  · obtain ⟨-, hlast⟩ := List.append_inj' h rfl
    exact .inl ⟨rfl, List.head_eq_of_cons_eq hlast⟩
  · rw [List.concat_eq_append] at h ⊢
    rw [← List.cons_append, ← List.append_assoc] at h
    obtain ⟨hrest, hlast⟩ := List.append_inj' h rfl
    exact .inr ⟨init, by rw [List.head_eq_of_cons_eq hlast], hrest⟩

/-- Under a name is the value of its last entry. -/
theorem get?_ofEntries_eq_some_iff (entries : List (String × α)) (key : String) (value : α) :
    (ofEntries entries).get? key = some value ↔
      ∃ before after, entries = before ++ (key, value) :: after ∧
        ∀ later ∈ after, later.1 ≠ key := by
  induction entries using List.reverseRecOn with
  | nil => simp [ofEntries]
  | append_singleton entries entry ih =>
    rw [ofEntries_concat, get?_insert]
    by_cases hkey : key = entry.1
    · rw [if_pos hkey]
      constructor
      · intro hvalue
        exact ⟨entries, [], by simp [hkey, ← Option.some.inj hvalue], by simp⟩
      · rintro ⟨before, after, hsplit, hafter⟩
        rcases concat_eq_append_cons hsplit with ⟨-, rfl⟩ | ⟨init, rfl, -⟩
        · rfl
        · exact absurd hkey.symm (hafter entry (by simp))
    · rw [if_neg hkey, ih]
      constructor
      · rintro ⟨before, after, rfl, hafter⟩
        refine ⟨before, after ++ [entry], by simp, ?_⟩
        intro later hlater
        rcases List.mem_append.mp hlater with hold | hnew
        · exact hafter later hold
        · obtain rfl := List.mem_singleton.mp hnew
          exact Ne.symm hkey
      · rintro ⟨before, after, hsplit, hafter⟩
        rcases concat_eq_append_cons hsplit with ⟨-, rfl⟩ | ⟨init, rfl, hrest⟩
        · exact absurd rfl hkey
        · exact ⟨before, init, hrest, fun later hlater ↦ hafter later (by simp [hlater])⟩

private theorem entries_insert_of_new {table : Table α} {key : String}
    (h : table.contains key = false) (value : α) :
    (table.insert key value).entries = table.entries ++ [(key, value)] := by
  rw [insert, dif_neg (by simp [h])]

/-- Entries of different names are the entries of their table. -/
theorem entries_ofEntries {entries : List (String × α)} (h : (entries.map Prod.fst).Nodup) :
    (ofEntries entries).entries = entries := by
  induction entries using List.reverseRecOn with
  | nil => rfl
  | append_singleton entries entry ih =>
    rw [List.map_append, List.nodup_append] at h
    obtain ⟨hold, -, hnew⟩ := h
    have hcontains : (ofEntries entries).contains entry.1 = false := by
      rw [contains, keys, ih hold, Bool.eq_false_iff, ne_eq, List.contains_iff_mem]
      intro hmem
      exact hnew entry.1 hmem entry.1 (by simp) rfl
    rw [ofEntries_concat, entries_insert_of_new hcontains, ih hold]

/-- The table of some entries, of which the first of each name counts. -/
def ofNewEntries (entries : List (String × α)) : Table α :=
  entries.foldl (fun table entry ↦ table.insertNew entry.1 entry.2) empty

/-- The names come in the order of their first entries here, too. -/
theorem keys_ofNewEntries (entries : List (String × α)) :
    (ofNewEntries entries).keys = (entries.map Prod.fst).eraseDups :=
  keys_foldl keys_insertNew entries

/-- Under a name is the value of its first entry. -/
theorem get?_ofNewEntries (entries : List (String × α)) (key : String) :
    (ofNewEntries entries).get? key =
      (entries.find? fun entry ↦ entry.1 == key).map Prod.snd := by
  induction entries using List.reverseRecOn with
  | nil => rfl
  | append_singleton entries entry ih =>
    have hlast : ofNewEntries (entries ++ [entry]) =
        (ofNewEntries entries).insertNew entry.1 entry.2 := by
      simp [ofNewEntries]
    rw [hlast, get?_insertNew, ih, List.find?_append, Option.map_or]
    by_cases hkey : entry.1 = key <;> simp [hkey]

end PropDoc.Table
