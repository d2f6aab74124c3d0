import PropDoc.Proofs.FileSystem.Location
import PropDoc.Proofs.Path.Order

/-!
# Walking a tree

The places of the files of a tree come in the order of the names on the way, each once: a place is
among them exactly if there is a file and no directory on the way is passed over. What lies below a
directory that is entered stands together, as walking that directory gives it.
-/

namespace PropDoc

open PropDoc.Path

namespace Entry

/-- Every directory of a tree gives its entries names of their own, none of which holds a slash or
means a directory itself. -/
def WellNamed (entry : Entry) : Prop :=
  ∀ location entries, entry.get? location = some (directory entries) →
    (entries.map Prod.fst).Nodup ∧ ∀ known ∈ entries, IsName known.1.toList

/-- What holds of files, and of a directory if it holds of its entries, holds of all trees. -/
@[elab_as_elim]
theorem induction_on {motive : Entry → Prop} (entry : Entry)
    (hfile : ∀ content, motive (file content))
    (hdirectory : ∀ entries, (∀ known ∈ entries, motive known.2) → motive (directory entries)) :
    motive entry :=
  @Entry.rec motive (fun entries ↦ ∀ known ∈ entries, motive known.2) (fun known ↦ motive known.2)
    hfile hdirectory (by simp) (fun _ _ hfirst hrest ↦ List.forall_mem_cons.mpr ⟨hfirst, hrest⟩)
    (fun _ _ hchild ↦ hchild) entry

variable {entry sub : Entry} {location : Location} {entries : List (String × Entry)}
  {enters : String → Bool}

/-- What is in a well-named entry is well named. -/
theorem WellNamed.of_get? (h : entry.WellNamed) (hget : entry.get? location = some sub) :
    sub.WellNamed := by
  intro rest entries hrest
  apply h (location ++ rest)
  rw [get?_append, hget]
  exact hrest

private theorem lookup_eq_some_iff_mem (hnodup : (entries.map Prod.fst).Nodup) {name : String} :
    entries.lookup name = some sub ↔ (name, sub) ∈ entries := by
  induction entries with
  | nil => simp
  | cons known entries ih =>
    obtain ⟨key, old⟩ := known
    rw [List.map_cons, List.nodup_cons] at hnodup
    by_cases hname : name = key
    · subst hname
      have hnew : (name, sub) ∉ entries := fun hmem ↦
        hnodup.1 (List.mem_map.mpr ⟨(name, sub), hmem, rfl⟩)
      simp [hnew, eq_comm]
    · have hne : (name == key) = false := by simpa using hname
      simp [List.lookup_cons, hne, ih hnodup.2, hname]

private theorem WellNamed.child?_eq_some_iff (h : (directory entries).WellNamed) {name : String} :
    (directory entries).child? name = some sub ↔ (name, sub) ∈ entries :=
  lookup_eq_some_iff_mem (h [] entries rfl).1

private theorem WellNamed.get?_cons_eq_some_iff (h : (directory entries).WellNamed) {name : String}
    {rest : Location} :
    (directory entries).get? (name :: rest) = some sub ↔
      ∃ child, (name, child) ∈ entries ∧ child.get? rest = some sub := by
  rw [get?, Option.bind_eq_some_iff]
  simp only [h.child?_eq_some_iff]

private theorem WellNamed.of_mem (h : (directory entries).WellNamed) {name : String}
    (hmem : (name, sub) ∈ entries) : sub.WellNamed := by
  have hget : (directory entries).get? [name] = some sub :=
    h.get?_cons_eq_some_iff.mpr ⟨sub, hmem, rfl⟩
  exact h.of_get? hget

/-- A file has no names in it that could be wrong. -/
theorem wellNamed_file (content : Syntax.Source) : (file content).WellNamed := by
  intro location entries hget
  cases location <;> cases hget

/-- Names are proper throughout a directory exactly if they are in it and throughout its entries. -/
theorem wellNamed_directory_iff :
    (directory entries).WellNamed ↔
      (entries.map Prod.fst).Nodup ∧ (∀ known ∈ entries, IsName known.1.toList) ∧
        ∀ known ∈ entries, known.2.WellNamed := by
  constructor
  · intro h
    exact ⟨(h [] entries rfl).1, (h [] entries rfl).2, fun known hknown ↦ h.of_mem hknown⟩
  · rintro ⟨hnodup, hnames, hbelow⟩ location found hget
    cases location with
    | nil =>
      cases hget
      exact ⟨hnodup, hnames⟩
    | cons name rest =>
      obtain ⟨child, hchild, hrest⟩ := Option.bind_eq_some_iff.mp hget
      exact hbelow (name, child) ((lookup_eq_some_iff_mem hnodup).mp hchild) rest found hrest

/-- The names on the way to anything in the tree are proper names. -/
theorem WellNamed.isName (h : entry.WellNamed) (hget : entry.get? location = some sub) :
    ∀ name ∈ location, IsName name.toList := by
  induction location generalizing entry with
  | nil => simp
  | cons name rest ih =>
    cases entry with
    | file content => cases hget
    | directory entries =>
      obtain ⟨child, hmem, hrest⟩ := h.get?_cons_eq_some_iff.mp hget
      have hname := (h [] entries rfl).2 _ hmem
      intro other hother
      rcases List.mem_cons.mp hother with rfl | hlater
      · exact hname
      · exact ih (h.of_mem hmem) hrest other hlater

/-! ### The parts of a walk -/

/-- What each entry of a directory adds to a walk, in the order of the names. -/
def parts (enters : String → Bool) (entries : List (String × Entry)) :
    List (String × List Location) :=
  (filesEach enters entries).mergeSort comesBefore

private theorem files_directory (enters : String → Bool) (entries : List (String × Entry)) :
    (directory entries).files enters =
      (parts enters entries).flatMap fun part ↦ part.2.map fun location ↦ part.1 :: location :=
  rfl

/-- A directory that is not entered adds nothing. -/
theorem mem_parts_iff {part : String × List Location} :
    part ∈ parts enters entries ↔
      ∃ known ∈ entries, (known.1,
        if known.2.isDirectory && !enters known.1 then [] else known.2.files enters) = part := by
  rw [parts, List.mem_mergeSort, filesEach_eq_map, List.mem_map]

private theorem pairwise_parts (hnodup : (entries.map Prod.fst).Nodup) (enters : String → Bool) :
    (parts enters entries).Pairwise fun first second ↦ first.1 < second.1 := by
  have hsorted : (parts enters entries).Pairwise fun first second ↦
      comesBefore first second = true := by
    apply List.pairwise_mergeSort
    · intro first second third h h'
      simp only [comesBefore, decide_eq_true_eq] at h h' ⊢
      exact String.le_trans h h'
    · intro first second
      simpa [comesBefore] using String.le_total first.1 second.1
  have hnames : ((parts enters entries).map Prod.fst).Nodup := by
    rw [parts, ((List.mergeSort_perm _ _).map Prod.fst).nodup_iff, filesEach_eq_map, List.map_map]
    exact hnodup
  refine hsorted.imp₂ (fun first second hle hne ↦ ?_) (List.pairwise_map.mp hnames)
  rw [comesBefore, decide_eq_true_eq] at hle
  exact String.not_le.mp fun hge ↦ hne (String.le_antisymm hle hge)

/-! ### The places of files -/

private theorem entered_iff {name : String} {content : Syntax.Source}
    (hget : entry.get? location = some (file content)) :
    (entry.isDirectory && !enters name) = false ∧
        (∀ other ∈ location.dropLast, enters other = true) ↔
      ∀ other ∈ (name :: location).dropLast, enters other = true := by
  cases location with
  | nil =>
    obtain rfl := Option.some.inj hget
    simp [isDirectory]
  | cons next rest =>
    have hdirectory : entry.isDirectory = true := by
      cases entry with
      | file content => cases hget
      | directory entries => rfl
    simp [hdirectory]

private theorem cons_mem_files_iff {name : String} :
    name :: location ∈ (directory entries).files enters ↔
      ∃ child, (name, child) ∈ entries ∧ (child.isDirectory && !enters name) = false ∧
        location ∈ child.files enters := by
  rw [files_directory, List.mem_flatMap]
  constructor
  · rintro ⟨part, hpart, hmem⟩
    obtain ⟨⟨key, child⟩, hknown, rfl⟩ := mem_parts_iff.mp hpart
    obtain ⟨below, hbelow, hcons⟩ := List.mem_map.mp hmem
    obtain ⟨rfl, rfl⟩ := List.cons.inj hcons
    refine ⟨child, hknown, ?_⟩
    split at hbelow
    · cases hbelow
    · next hentered => exact ⟨by simpa using hentered, hbelow⟩
  · rintro ⟨child, hknown, hentered, hlocation⟩
    refine ⟨_, mem_parts_iff.mpr ⟨(name, child), hknown, rfl⟩, ?_⟩
    rw [hentered]
    exact List.mem_map_of_mem hlocation

/-- A place is listed exactly if there is a file and every directory on the way is entered. -/
theorem mem_files_iff (h : entry.WellNamed) :
    location ∈ entry.files enters ↔
      (∃ content, entry.get? location = some (file content)) ∧
        ∀ name ∈ location.dropLast, enters name = true := by
  induction location generalizing entry with
  | nil =>
    cases entry with
    | file content => simp [files]
    | directory entries => simp [files_directory]
  | cons name rest ih =>
    cases entry with
    | file content => simp [files, get?, child?]
    | directory entries =>
      rw [cons_mem_files_iff]
      constructor
      · rintro ⟨child, hknown, hentered, hrest⟩
        obtain ⟨⟨content, hget⟩, hnames⟩ := (ih (h.of_mem hknown)).mp hrest
        exact ⟨⟨content, h.get?_cons_eq_some_iff.mpr ⟨child, hknown, hget⟩⟩,
          (entered_iff hget).mp ⟨hentered, hnames⟩⟩
      · rintro ⟨⟨content, hget⟩, hnames⟩
        obtain ⟨child, hknown, hget⟩ := h.get?_cons_eq_some_iff.mp hget
        obtain ⟨hentered, hnames⟩ := (entered_iff hget).mpr hnames
        exact ⟨child, hknown, hentered, (ih (h.of_mem hknown)).mpr ⟨⟨content, hget⟩, hnames⟩⟩

/-- The places of files come in the order of the names on the way. -/
theorem pairwise_files (h : entry.WellNamed) (enters : String → Bool) :
    (entry.files enters).Pairwise (· < ·) := by
  induction entry using induction_on with
  | hfile content =>
    rw [files]
    exact List.pairwise_singleton _ _
  | hdirectory entries ih =>
    rw [files_directory, List.pairwise_flatMap]
    constructor
    · intro part hpart
      obtain ⟨known, hknown, rfl⟩ := mem_parts_iff.mp hpart
      rw [List.pairwise_map]
      have hbelow : (if known.2.isDirectory && !enters known.1 then []
          else known.2.files enters).Pairwise (· < ·) := by
        split
        · exact List.Pairwise.nil
        · exact ih known hknown (h.of_mem hknown)
      exact hbelow.imp fun hlt ↦ List.cons_lt_cons_iff.mpr (.inr ⟨rfl, hlt⟩)
    · refine (pairwise_parts (h [] entries rfl).1 enters).imp fun hlt location hlocation other
        hother ↦ ?_
      obtain ⟨_, -, rfl⟩ := List.mem_map.mp hlocation
      obtain ⟨_, -, rfl⟩ := List.mem_map.mp hother
      exact List.cons_lt_cons_iff.mpr (.inl hlt)

/-- The places of files below a place that is entered stand together. -/
theorem exists_files_eq_append (h : entry.WellNamed) (hget : entry.get? location = some sub)
    (henters : ∀ name ∈ location, enters name = true) :
    ∃ before after,
      entry.files enters =
        before ++ (sub.files enters).map (fun below ↦ location ++ below) ++ after ∧
      ∀ other ∈ before ++ after, ¬ location <+: other := by
  induction location generalizing entry with
  | nil =>
    obtain rfl := Option.some.inj hget
    exact ⟨[], [], by simp, by simp⟩
  | cons name rest ih =>
    cases entry with
    | file content => cases hget
    | directory entries =>
      obtain ⟨child, hknown, hrest⟩ := h.get?_cons_eq_some_iff.mp hget
      obtain ⟨before, after, hchild, hothers⟩ := ih (h.of_mem hknown) hrest fun other hother ↦
        henters other (List.mem_cons_of_mem name hother)
      have hpart : (name, child.files enters) ∈ parts enters entries :=
        mem_parts_iff.mpr ⟨(name, child), hknown, by simp [henters name List.mem_cons_self]⟩
      obtain ⟨front, back, hparts⟩ := List.append_of_mem hpart
      -- The parts are strictly sorted by name, so no other part starts with this name.
      have hsorted := pairwise_parts (h [] entries rfl).1 enters
      rw [hparts, List.pairwise_append, List.pairwise_cons] at hsorted
      have hkeys : ∀ part ∈ front ++ back, part.1 ≠ name := by
        intro part hmem
        rcases List.mem_append.mp hmem with hfront | hback
        · exact String.ne_of_lt (hsorted.2.2 part hfront _ List.mem_cons_self)
        · exact (String.ne_of_lt (hsorted.2.1.1 part hback)).symm
      let placesOf := fun part : String × List Location ↦ part.2.map fun below ↦ part.1 :: below
      have hapart : ∀ part ∈ front ++ back, ∀ other ∈ placesOf part, ¬ name :: rest <+: other := by
        intro part hpart other hother
        obtain ⟨below, -, rfl⟩ := List.mem_map.mp hother
        exact fun hprefix ↦ hkeys part hpart (List.cons_prefix_cons.mp hprefix).1.symm
      have hbeside : ∀ below ∈ before ++ after, ¬ name :: rest <+: name :: below :=
        fun below hbelow hprefix ↦ hothers below hbelow (List.cons_prefix_cons.mp hprefix).2
      refine ⟨front.flatMap placesOf ++ before.map (name :: ·),
        after.map (name :: ·) ++ back.flatMap placesOf, ?_, ?_⟩
      · rw [files_directory, hparts, List.flatMap_append, List.flatMap_cons, hchild]
        simp [placesOf]
      · intro other hother
        simp only [List.mem_append, List.mem_flatMap, List.mem_map] at hother
        rcases hother with (⟨part, hpart, hmem⟩ | ⟨below, hbelow, rfl⟩) |
          ⟨below, hbelow, rfl⟩ | ⟨part, hpart, hmem⟩
        · exact hapart part (List.mem_append_left _ hpart) other hmem
        · exact hbeside below (List.mem_append_left _ hbelow)
        · exact hbeside below (List.mem_append_right _ hbelow)
        · exact hapart part (List.mem_append_right _ hpart) other hmem

end Entry

namespace FileSystem

variable {fs : FileSystem} {path : Path} {location : Location}

private theorem follow_of_empty_last {segments : List (List Char)}
    (h : fs.follow (segments ++ [[]]) = .ok location) : fs.follow segments = .ok location := by
  rw [follow_concat] at h
  cases hinit : fs.follow segments with
  | error fault =>
    rw [hinit] at h
    cases h
  | ok next =>
    rw [hinit] at h
    obtain ⟨-, -, -, hmove⟩ := step_eq_ok_iff.mp h
    exact congrArg Except.ok hmove

private theorem locate_join (hlocate : fs.locate path = .ok location) {name : String}
    (hname : IsName name.toList) (h : (fs.root.get? (location ++ [name])).isSome) :
    fs.locate (path.join ⟨name⟩) = .ok (location ++ [name]) := by
  obtain ⟨init, last, hsegments⟩ := path.exists_concat_segments
  have hinit : fs.follow (if last = [] then init else init ++ [last]) = .ok location := by
    rw [locate, hsegments] at hlocate
    split
    · next hlast => exact follow_of_empty_last (hlast ▸ hlocate)
    · exact hlocate
  rw [locate, segments_join hsegments hname.noSlash, follow_concat, hinit]
  exact step_of_name hname h

/-- Names below a path lead from where the path leads. -/
theorem locate_joinAll {names : List String} (hlocate : fs.locate path = .ok location)
    (hnames : ∀ name ∈ names, IsName name.toList)
    (h : (fs.root.get? (location ++ names)).isSome) :
    fs.locate (path.joinAll names) = .ok (location ++ names) := by
  induction names generalizing path location with
  | nil => rwa [List.append_nil]
  | cons name names ih =>
    have hassoc : location ++ name :: names = location ++ [name] ++ names := by simp
    rw [hassoc] at h ⊢
    exact ih (locate_join hlocate (hnames name List.mem_cons_self) (Entry.isSome_get?_of_append h))
      (fun other hother ↦ hnames other (List.mem_cons_of_mem name hother)) h

/-- A walk fails only where the path leads nowhere. -/
theorem walk_of_locate (hlocate : fs.locate path = .ok location) {entry : Entry}
    (hget : fs.root.get? location = some entry) (enters : String → Bool) :
    fs.walk enters path = .ok ((entry.files enters).map path.joinAll) := by
  simp only [walk, hlocate, bind, Except.bind, hget]
  rfl

end FileSystem

end PropDoc
