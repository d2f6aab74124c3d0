import Mathlib.Data.List.Infix
import PropDoc.Proofs.Path
import PropDoc.Proofs.Text.Bytes

/-!
# Order of paths

Paths are ordered component by component: the root comes first, then a dot, two dots, and names in
the order of their bytes. A name below a path is one component more, so paths below one path are
ordered as the names on the way.
-/

namespace PropDoc.Path

/-- What a component is compared by: its kind, and the bytes of a name. -/
def Component.key : Component → List UInt8
  | root => [0]
  | current => [1]
  | parent => [2]
  | name text => 3 :: Text.bytes text

/-- What a path is compared by. -/
def key (path : Path) : List (List UInt8) := path.components.map Component.key

/-- A path comes before another: so does the first component in which they differ. -/
def Precedes (p q : Path) : Prop := p.key < q.key

instance (p q : Path) : Decidable (p.Precedes q) := inferInstanceAs (Decidable (p.key < q.key))

/-- A path does not precede itself. -/
theorem Precedes.ne {p q : Path} (h : p.Precedes q) : p ≠ q := by
  rintro rfl
  exact List.lt_irrefl p.key h

/-! ### Names below a path -/

private theorem steps_append (segments more : List (List Char)) :
    steps (segments ++ more) = steps segments ++ steps more := by
  rw [steps, steps, steps, List.filter_append, List.map_append]

private theorem steps_singleton {name : List Char} (h : IsName name) :
    steps [name] = [.name (String.ofList name)] := by
  simp [steps, stepOf, h.notVoid, h.notParent]

private theorem opening_join (path : Path) {name : String} (h : IsName name.toList) :
    (path.join ⟨name⟩).opening = path.opening := by
  obtain ⟨init, last, hsegments⟩ := path.exists_concat_segments
  have hjoin := segments_join hsegments h.noSlash
  cases init with
  | nil =>
    rw [opening_eq hsegments]
    by_cases hlast : last = []
    · rw [if_pos hlast] at hjoin
      rw [opening_eq hjoin]
      simp [hlast, h.ne_dot]
    · rw [if_neg hlast] at hjoin
      rw [opening_eq hjoin]
      simp [hlast]
  | cons first init =>
    rw [opening_eq hsegments]
    split at hjoin
    · rw [opening_eq hjoin]
      simp
    · rw [opening_eq hjoin]
      simp

/-- A name below a path is one component more. -/
theorem components_join (path : Path) {name : String} (h : IsName name.toList) :
    (path.join ⟨name⟩).components = path.components ++ [.name name] := by
  obtain ⟨init, last, hsegments⟩ := path.exists_concat_segments
  have hsteps : steps (path.join ⟨name⟩).segments = steps path.segments ++ [.name name] := by
    rw [segments_join hsegments h.noSlash, hsegments, steps_append, steps_singleton h,
      String.ofList_toList]
    split
    · next hlast => rw [hlast, steps_append, show steps [[]] = [] from rfl, List.append_nil]
    · rfl
  rw [components, opening_join path h, hsteps, components, List.append_assoc]

variable {path : Path} {names names' : List String}

/-- Joining names to a path adds them to its components. -/
theorem components_joinAll (path : Path) (h : ∀ name ∈ names, IsName name.toList) :
    (path.joinAll names).components = path.components ++ names.map Component.name := by
  induction names generalizing path with
  | nil => simp [joinAll]
  | cons name names ih =>
    have hrest := ih (path.join ⟨name⟩) fun other hother ↦
      h other (List.mem_cons_of_mem name hother)
    rw [components_join path (h name List.mem_cons_self), List.append_assoc] at hrest
    exact hrest

/-- Names can be joined in two parts. -/
theorem joinAll_append (path : Path) (names more : List String) :
    path.joinAll (names ++ more) = (path.joinAll names).joinAll more :=
  List.foldl_append

/-- One path lies below another exactly if so it is by the names on the way. -/
theorem components_joinAll_prefix_iff (h : ∀ name ∈ names, IsName name.toList)
    (h' : ∀ name ∈ names', IsName name.toList) :
    (path.joinAll names).components <+: (path.joinAll names').components ↔ names <+: names' := by
  rw [components_joinAll path h, components_joinAll path h', List.prefix_append_right_inj]
  exact List.prefix_map_iff_of_injective fun _ _ ↦ Component.name.inj

private theorem map_key_lt (h : names < names') :
    names.map (fun name ↦ (Component.name name).key) <
      names'.map fun name ↦ (Component.name name).key := by
  induction names generalizing names' with
  | nil =>
    cases names' with
    | nil => exact absurd h (List.lt_irrefl [])
    | cons name' names' => simp
  | cons name names ih =>
    cases names' with
    | nil => exact absurd h (List.not_lt_nil _)
    | cons name' names' =>
      rw [List.map_cons, List.map_cons, List.cons_lt_cons_iff]
      rcases List.cons_lt_cons_iff.mp h with hfirst | ⟨rfl, hrest⟩
      · exact .inl (List.cons_lt_cons_iff.mpr (.inr ⟨rfl, Text.bytes_lt hfirst⟩))
      · exact .inr ⟨rfl, ih hrest⟩

/-- Paths below one path are ordered as the names on the way. -/
theorem precedes_joinAll (path : Path) (h : ∀ name ∈ names, IsName name.toList)
    (h' : ∀ name ∈ names', IsName name.toList) (hlt : names < names') :
    (path.joinAll names).Precedes (path.joinAll names') := by
  rw [Precedes, key, key, components_joinAll path h, components_joinAll path h', List.map_append,
    List.map_append, List.map_map, List.map_map]
  exact List.append_left_lt (map_key_lt hlt)

end PropDoc.Path
