import PropDoc.Proofs.Path

/-!
# Paths from a base

What stands after the components of a base is what the path below the base is made of. Hence a path
is determined, up to what means nothing in it, by its base and by how it is written from there.
-/

namespace PropDoc.Path

/-! ### Steps -/

private theorem steps_cons_of_void {segment : List Char} (h : isVoid segment = true)
    (segments : List (List Char)) : steps (segment :: segments) = steps segments := by
  simp [steps, h]

private theorem steps_cons_of_not_void {segment : List Char} (h : isVoid segment = false)
    (segments : List (List Char)) :
    steps (segment :: segments) = stepOf segment :: steps segments := by
  simp [steps, h]

private theorem steps_dropWhile (segments : List (List Char)) :
    steps (segments.dropWhile isVoid) = steps segments := by
  induction segments with
  | nil => rfl
  | cons segment segments ih =>
    cases hvoid : isVoid segment with
    | true => rw [List.dropWhile_cons_of_pos hvoid, ih, steps_cons_of_void hvoid]
    | false => rw [List.dropWhile_cons_of_neg (by simp [hvoid])]

private theorem steps_reverse (segments : List (List Char)) :
    steps segments.reverse = (steps segments).reverse := by
  simp [steps, List.filter_reverse]

private theorem steps_dropVoidEnd (segments : List (List Char)) :
    steps (dropVoidEnd segments) = steps segments := by
  rw [dropVoidEnd, steps_reverse, steps_dropWhile, steps_reverse, List.reverse_reverse]

private theorem steps_drop_dropWhile (segments : List (List Char)) :
    steps ((segments.dropWhile isVoid).drop 1) = (steps segments).drop 1 := by
  rw [← steps_dropWhile segments]
  cases hrest : segments.dropWhile isVoid with
  | nil => rfl
  | cons segment rest =>
    have hname : isVoid segment = false := by
      have hne : segments.dropWhile isVoid ≠ [] := by simp [hrest]
      simpa [hrest] using List.head_dropWhile_not isVoid hne
    rw [steps_cons_of_not_void hname, List.drop_one, List.drop_one, List.tail_cons, List.tail_cons]

private theorem steps_skipSteps (count : Nat) (segments : List (List Char)) :
    steps (skipSteps count segments) = (steps segments).drop count := by
  induction count generalizing segments with
  | zero => rfl
  | succ count ih => rw [skipSteps, ih, steps_drop_dropWhile, List.drop_drop, Nat.add_comm]

/-! ### Pieces of what is left -/

private theorem isPrefix_dropVoidEnd (segments : List (List Char)) :
    dropVoidEnd segments <+: segments := by
  rw [dropVoidEnd, ← List.reverse_suffix, List.reverse_reverse]
  exact List.dropWhile_suffix isVoid

private theorem mem_of_mem_skipSteps {segment : List Char} {count : Nat}
    {segments : List (List Char)} (h : segment ∈ skipSteps count segments) :
    segment ∈ segments := by
  induction count generalizing segments with
  | zero => exact h
  | succ count ih => exact List.dropWhile_subset isVoid (List.mem_of_mem_drop (ih h))

private theorem segments_joinSegments {segments : List (List Char)} (hne : segments ≠ [])
    (h : ∀ segment ∈ segments, '/' ∉ segment) :
    (Path.mk (joinSegments segments)).segments = segments := by
  rw [Path.segments, joinSegments, String.toList_ofList]
  exact List.splitOn_intercalate '/' h hne

private theorem steps_joinSegments {segments : List (List Char)}
    (h : ∀ segment ∈ segments, '/' ∉ segment) :
    steps (Path.mk (joinSegments segments)).segments = steps segments := by
  cases segments with
  | nil => rfl
  | cons segment segments => rw [segments_joinSegments (List.cons_ne_nil _ _) h]

/-! ### Components of what is left -/

private theorem exists_void_of_opening {path : Path} (h : path.opening ≠ []) :
    ∃ first rest, path.segments = first :: rest ∧ isVoid first = true := by
  unfold opening at h
  split at h
  · next habsolute =>
    obtain ⟨next, rest, hsegments⟩ := (isAbsolute_iff path).mp habsolute
    exact ⟨[], next :: rest, hsegments, rfl⟩
  · split at h
    · next hdot =>
      obtain ⟨rest, hsegments⟩ := List.head?_eq_some_iff.mp (beq_iff_eq.mp hdot)
      exact ⟨['.'], rest, hsegments, rfl⟩
    · exact absurd rfl h

private theorem steps_drop_one {path : Path} (h : path.opening ≠ []) :
    steps (path.segments.drop 1) = steps path.segments := by
  obtain ⟨first, rest, hsegments, hvoid⟩ := exists_void_of_opening h
  rw [hsegments, List.drop_one, List.tail_cons, steps_cons_of_void hvoid]

-- The pieces of a path after its opening.
private def opened (path : Path) : List (List Char) :=
  if path.opening.isEmpty then path.segments else path.segments.drop 1

private theorem slash_not_mem_opened {path : Path} {segment : List Char}
    (h : segment ∈ path.opened) : '/' ∉ segment := by
  unfold opened at h
  split at h
  · exact slash_not_mem h
  · exact slash_not_mem (List.mem_of_mem_drop h)

private theorem steps_opened (path : Path) : steps path.opened = steps path.segments := by
  unfold opened
  split
  · rfl
  · next hopening => exact steps_drop_one (by simpa using hopening)

private theorem length_opening_le (path : Path) : path.opening.length ≤ 1 := by
  unfold opening
  split
  · simp
  · split <;> simp

private theorem drop_components {path : Path} {count : Nat} (h : path.opening.length ≤ count) :
    path.components.drop count = (steps path.segments).drop (count - path.opening.length) := by
  rw [components, List.drop_append, List.drop_of_length_le h, List.nil_append]

private theorem components_of_relativeTo? {path base rest : Path} (hbase : base.components ≠ [])
    (h : path.relativeTo? base = some rest) :
    path.components = base.components ++ steps rest.segments := by
  unfold relativeTo? at h
  split at h
  · next hprefix =>
    rw [if_neg (by simpa using hbase)] at h
    change some (Path.mk (joinSegments (dropVoidEnd ((skipSteps
      (base.components.length - path.opening.length) path.opened).dropWhile isVoid)))) = _ at h
    obtain rfl := Option.some.inj h
    have hpieces : ∀ segment ∈ dropVoidEnd ((skipSteps
        (base.components.length - path.opening.length) path.opened).dropWhile isVoid),
        '/' ∉ segment := by
      intro segment hsegment
      have hskipped := List.dropWhile_subset isVoid ((isPrefix_dropVoidEnd _).subset hsegment)
      exact slash_not_mem_opened (mem_of_mem_skipSteps hskipped)
    -- The base has a component, so what is skipped begins with the opening.
    have hlength : path.opening.length ≤ base.components.length := by
      have hpos := List.length_pos_of_ne_nil hbase
      have hle := length_opening_le path
      omega
    rw [steps_joinSegments hpieces, steps_dropVoidEnd, steps_dropWhile, steps_skipSteps,
      steps_opened, ← drop_components hlength]
    obtain ⟨after, hafter⟩ := List.isPrefixOf_iff_prefix.mp hprefix
    rw [← hafter, List.drop_left]
  · cases h

private theorem segments_slash_append (text : String) :
    (Path.mk ("/" ++ text)).segments = [] :: (Path.mk text).segments := by
  rw [segments, segments, String.toList_append, show "/".toList = ['/'] from rfl,
    List.singleton_append, List.splitOn_cons_eq_if_modifyHead, if_pos (by simp)]

private theorem slash_not_mem_dropVoidEnd {path : Path} {segments : List (List Char)}
    (h : segments <:+ path.segments) : ∀ segment ∈ dropVoidEnd segments, '/' ∉ segment :=
  fun _ hsegment ↦ slash_not_mem (h.subset ((isPrefix_dropVoidEnd segments).subset hsegment))

private theorem opening_of_dot {path : Path} (h : path.segments.head? = some ['.']) :
    path.opening = [.current] := by
  have hrelative : ¬ path.isAbsolute = true := by
    intro habsolute
    obtain ⟨next, rest, hsegments⟩ := (isAbsolute_iff path).mp habsolute
    simp [hsegments] at h
  rw [opening, if_neg hrelative, if_pos (beq_iff_eq.mpr h)]

private theorem opening_joinSegments {path : Path} (h : path.opening = []) :
    (Path.mk (joinSegments (dropVoidEnd path.segments))).opening = [] := by
  have hprefix := isPrefix_dropVoidEnd path.segments
  cases hkept : dropVoidEnd path.segments with
  | nil => rfl
  | cons first kept =>
    have hsegments := segments_joinSegments (hkept ▸ List.cons_ne_nil first kept)
      (slash_not_mem_dropVoidEnd path.segments.suffix_refl)
    rw [hkept] at hprefix hsegments
    obtain ⟨dropped, hdropped⟩ := hprefix
    unfold opening at h ⊢
    split at h
    · cases h
    · next hrelative =>
      have hrelative' : ¬ (Path.mk (joinSegments (first :: kept))).isAbsolute = true := by
        rw [isAbsolute_iff, hsegments]
        rintro ⟨next, rest, hsplit⟩
        apply hrelative
        rw [isAbsolute_iff, ← hdropped, hsplit]
        exact ⟨next, rest ++ dropped, rfl⟩
      rw [if_neg hrelative', hsegments]
      rw [← hdropped] at h
      exact h

private theorem components_trimmedText (path : Path) :
    (Path.mk path.trimmedText).components = path.components := by
  have hdrop := slash_not_mem_dropVoidEnd (path.segments.drop_suffix 1)
  unfold trimmedText
  split
  · next habsolute =>
    have hopening : path.opening = [.root] := by rw [opening, if_pos habsolute]
    have hslash : (Path.mk ("/" ++ joinSegments (dropVoidEnd (path.segments.drop 1)))).isAbsolute =
        true := by
      simp [isAbsolute]
    rw [components, components, hopening, opening, if_pos hslash, segments_slash_append,
      steps_cons_of_void rfl, steps_joinSegments hdrop, steps_dropVoidEnd,
      steps_drop_one (by simp [hopening])]
  · next hrelative =>
    split
    · next hdot =>
      have hopening : path.opening = [.current] := opening_of_dot (beq_iff_eq.mp hdot)
      have hpieces : ∀ segment ∈ ['.'] :: dropVoidEnd (path.segments.drop 1), '/' ∉ segment := by
        simpa using hdrop
      have hsegments := segments_joinSegments (List.cons_ne_nil _ _) hpieces
      rw [components, components, hopening, opening_of_dot (by rw [hsegments, List.head?_cons]),
        hsegments, steps_cons_of_void rfl, steps_dropVoidEnd, steps_drop_one (by simp [hopening])]
    · next hdot =>
      have hopening : path.opening = [] := by rw [opening, if_neg hrelative, if_neg hdot]
      rw [components, components, opening_joinSegments hopening, hopening,
        steps_joinSegments (slash_not_mem_dropVoidEnd path.segments.suffix_refl),
        steps_dropVoidEnd]

/-- A path that starts with the components of a base can be seen from it. -/
theorem exists_relativeTo? {path base : Path} (h : base.components <+: path.components) :
    ∃ rest, path.relativeTo? base = some rest := by
  unfold relativeTo?
  rw [if_pos (List.isPrefixOf_iff_prefix.mpr h)]
  split <;> exact ⟨_, rfl⟩

/-- A path is determined, up to what means nothing in it, by its base and by how it is written from
there. -/
theorem same_of_relativeTo?_eq {p q base rest : Path} (hp : p.relativeTo? base = some rest)
    (hq : q.relativeTo? base = some rest) : p.same q = true := by
  rw [same_iff]
  -- From an empty base a path keeps its opening; from any other only steps are left.
  by_cases hbase : base.components = []
  · have hrest : ∀ path : Path, path.relativeTo? base = some rest →
        rest.components = path.components := by
      intro path hpath
      unfold relativeTo? at hpath
      rw [if_pos (by simp [hbase]), if_pos (by simp [hbase])] at hpath
      obtain rfl := Option.some.inj hpath
      exact components_trimmedText path
    rw [← hrest p hp, ← hrest q hq]
  · rw [components_of_relativeTo? hbase hp, components_of_relativeTo? hbase hq]

end PropDoc.Path
