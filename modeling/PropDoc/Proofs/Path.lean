import Mathlib.Data.List.Basic
import PropDoc.Path
import PropDoc.Proofs.Text.Cut

/-!
# Laws of paths

A path is the pieces between its slashes, and no two paths have the same pieces. Resolving dots
leaves at most one step up, at the start, and names after it. What such a path is written as is read
back, and so is what it becomes with a suffix or with one more name.
-/

namespace PropDoc.Path

/-- A piece between slashes that names something. -/
structure IsName (segment : List Char) : Prop where
  noSlash : '/' ∉ segment
  notVoid : isVoid segment = false
  notParent : segment ≠ ['.', '.']

instance (segment : List Char) : Decidable (IsName segment) :=
  decidable_of_iff ('/' ∉ segment ∧ isVoid segment = false ∧ segment ≠ ['.', '.'])
    ⟨fun ⟨hslash, hvoid, hparent⟩ ↦ ⟨hslash, hvoid, hparent⟩,
      fun h ↦ ⟨h.noSlash, h.notVoid, h.notParent⟩⟩

/-- The piece between slashes that a component is. The root is the nothing before the first
slash. -/
def Component.segment : Component → List Char
  | root => []
  | current => ['.']
  | parent => ['.', '.']
  | name text => text.toList

/-- What components without further dots can start with before their names. -/
def leads : List (List Component) := [[], [.root], [.parent], [.root, .parent]]

/-- Components of which no dot can be resolved. -/
def Resolved (components : List Component) : Prop :=
  ∃ lead ∈ leads, ∃ names : List String,
    components = lead ++ names.map .name ∧ ∀ name ∈ names, IsName name.toList

/-! ### Pieces -/

/-- No piece between slashes holds a slash. -/
theorem slash_not_mem {path : Path} {segment : List Char} (h : segment ∈ path.segments) :
    '/' ∉ segment :=
  not_mem_of_mem_splitOn h

/-- A path is determined by its pieces. -/
theorem eq_of_segments_eq {p q : Path} (h : p.segments = q.segments) : p = q := by
  obtain ⟨text⟩ := p
  obtain ⟨text'⟩ := q
  have htext : text.toList = text'.toList := by
    calc text.toList
        = ['/'].intercalate (Path.mk text).segments := (List.intercalate_splitOn '/').symm
      _ = ['/'].intercalate (Path.mk text').segments := by rw [h]
      _ = text'.toList := List.intercalate_splitOn '/'
  rw [String.toList_injective htext]

-- Pieces, each with a slash after it.
private def slashed (segments : List (List Char)) : List Char :=
  segments.flatMap fun segment ↦ segment ++ ['/']

private theorem intercalate_concat (init : List (List Char)) (last : List Char) :
    ['/'].intercalate (init ++ [last]) = slashed init ++ last := by
  induction init with
  | nil => simp [slashed]
  | cons segment init ih =>
    cases init with
    | nil => simp [slashed, List.intercalate_cons_cons]
    | cons next init =>
      rw [List.cons_append, List.cons_append, List.intercalate_cons_cons, ← List.cons_append, ih]
      simp [slashed]

private theorem segments_of_slashed {path : Path} {init : List (List Char)} {last : List Char}
    (hinit : ∀ segment ∈ init, '/' ∉ segment) (hlast : '/' ∉ last)
    (h : path.text.toList = slashed init ++ last) : path.segments = init ++ [last] := by
  rw [segments, h, ← intercalate_concat]
  apply List.splitOn_intercalate
  · intro segment hsegment
    rcases List.mem_append.mp hsegment with hold | hnew
    · exact hinit segment hold
    · rwa [List.mem_singleton.mp hnew]
  · simp

/-- A path has a last piece. -/
theorem exists_concat_segments (path : Path) :
    ∃ init last, path.segments = init ++ [last] := by
  rcases List.eq_nil_or_concat path.segments with hnil | ⟨init, last, hconcat⟩
  · exact absurd hnil (List.splitOn_ne_nil '/' path.text.toList)
  · exact ⟨init, last, by rw [hconcat, List.concat_eq_append]⟩

private theorem text_of_segments {path : Path} {init : List (List Char)} {last : List Char}
    (h : path.segments = init ++ [last]) : path.text.toList = slashed init ++ last := by
  rw [← intercalate_concat, ← h, segments, List.intercalate_splitOn]

/-- A suffix goes to the last piece. -/
theorem segments_withSuffix {path : Path} {init : List (List Char)} {last : List Char}
    (h : path.segments = init ++ [last]) {suffix : String} (hsuffix : '/' ∉ suffix.toList) :
    (path.withSuffix suffix).segments = init ++ [last ++ suffix.toList] := by
  have hpieces : ∀ segment ∈ init ++ [last], '/' ∉ segment := by
    intro segment hsegment
    rw [← h] at hsegment
    exact slash_not_mem hsegment
  apply segments_of_slashed
  · exact fun segment hsegment ↦ hpieces segment (List.mem_append_left _ hsegment)
  · have hlast := hpieces last (by simp)
    simp [hlast, hsuffix]
  · rw [withSuffix, String.toList_append, text_of_segments h, List.append_assoc]

/-- Nothing is missing between a path and a name below it exactly if the last piece is empty. -/
theorem endsOpen_iff {path : Path} {init : List (List Char)} {last : List Char}
    (h : path.segments = init ++ [last]) :
    (path.text.isEmpty || ['/'].isSuffixOf path.text.toList) = true ↔ last = [] := by
  have htext := text_of_segments h
  rw [Bool.or_eq_true, List.isSuffixOf_iff_suffix]
  constructor
  · rintro (hempty | ⟨front, hfront⟩)
    · rw [String.isEmpty_iff] at hempty
      rw [hempty] at htext
      exact (List.append_eq_nil_iff.mp htext.symm).2
    · rcases List.eq_nil_or_concat last with hnil | ⟨start, c, hconcat⟩
      · exact hnil
      · rw [List.concat_eq_append] at hconcat
        rw [htext, hconcat, ← List.append_assoc] at hfront
        obtain ⟨-, hc⟩ := List.append_inj' hfront rfl
        have hslash : '/' ∈ last := by
          rw [hconcat, ← hc]
          simp
        exact absurd hslash (@slash_not_mem path last (by simp [h]))
  · rintro rfl
    rw [List.append_nil] at htext
    rcases List.eq_nil_or_concat init with rfl | ⟨front, segment, rfl⟩
    · exact .inl (String.isEmpty_iff.mpr (String.toList_injective htext))
    · refine .inr ⟨slashed front ++ segment, ?_⟩
      rw [htext, List.concat_eq_append]
      simp [slashed]

private theorem isAbsolute_of_noSlash {name : String} (h : '/' ∉ name.toList) :
    (Path.mk name).isAbsolute = false := by
  apply Bool.eq_false_iff.mpr
  intro habsolute
  obtain ⟨rest, hrest⟩ := List.isPrefixOf_iff_prefix.mp habsolute
  have hslash : '/' ∈ name.toList := by
    rw [← show '/' :: rest = name.toList from hrest]
    exact List.mem_cons_self
  exact h hslash

/-- A name below a path is a piece of its own, unless the path ends in a slash or is empty. -/
theorem segments_join {path : Path} {init : List (List Char)} {last : List Char}
    (h : path.segments = init ++ [last]) {name : String} (hname : '/' ∉ name.toList) :
    (path.join ⟨name⟩).segments =
      (if last = [] then init else init ++ [last]) ++ [name.toList] := by
  rw [join, isAbsolute_of_noSlash hname, if_neg Bool.false_ne_true]
  by_cases hlast : last = []
  · rw [if_pos hlast, if_pos ((endsOpen_iff h).mpr hlast)]
    have hjoined := segments_withSuffix h hname
    rwa [hlast, List.nil_append] at hjoined
  · rw [if_neg hlast, if_neg fun hopen ↦ hlast ((endsOpen_iff h).mp hopen)]
    apply segments_of_slashed
    · intro segment hsegment
      rw [← h] at hsegment
      exact slash_not_mem hsegment
    · exact hname
    · rw [String.toList_append, String.toList_append, text_of_segments h]
      simp [slashed]

/-! ### Components -/

private theorem toList_text {component : Component} (h : component ≠ .root) :
    component.text.toList = component.segment := by
  cases component with
  | root => exact absurd rfl h
  | current => rfl
  | parent => rfl
  | name text => rfl

private theorem toList_intercalate_texts (steps : List Component) (last : Component)
    (h : ∀ component ∈ steps ++ [last], component ≠ .root) :
    (String.intercalate "/" ((steps ++ [last]).map Component.text)).toList =
      slashed (steps.map Component.segment) ++ last.segment := by
  have htexts : ((steps ++ [last]).map Component.text).map String.toList =
      steps.map Component.segment ++ [last.segment] := by
    rw [List.map_map, ← List.map_singleton, ← List.map_append]
    exact List.map_congr_left fun component hcomponent ↦ toList_text (h component hcomponent)
  rw [String.toList_intercalate, htexts]
  exact intercalate_concat _ _

private theorem ofComponents_of_ne_root {first : Component} (h : first ≠ .root)
    (steps : List Component) :
    ofComponents (first :: steps) =
      ⟨String.intercalate "/" ((first :: steps).map Component.text)⟩ := by
  cases first with
  | root => exact absurd rfl h
  | current => rfl
  | parent => rfl
  | name text => rfl

/-- Components are written as their pieces, provided that the root stands only at the start and no
piece holds a slash. -/
theorem segments_ofComponents {init : List Component} {last : Component}
    (hroot : ∀ component ∈ (init ++ [last]).tail, component ≠ .root) (hlast : last ≠ .root)
    (hslash : ∀ component ∈ init ++ [last], '/' ∉ component.segment) :
    (ofComponents (init ++ [last])).segments = init.map Component.segment ++ [last.segment] := by
  apply segments_of_slashed
  · intro segment hsegment
    obtain ⟨component, hcomponent, rfl⟩ := List.mem_map.mp hsegment
    exact hslash component (List.mem_append_left _ hcomponent)
  · exact hslash last (by simp)
  · cases init with
    | nil =>
      rw [List.nil_append, ofComponents_of_ne_root hlast]
      apply toList_intercalate_texts []
      simpa using hlast
    | cons first init =>
      by_cases hfirst : first = .root
      · subst hfirst
        change ("/" ++ String.intercalate "/" ((init ++ [last]).map Component.text)).toList = _
        rw [String.toList_append, toList_intercalate_texts init last hroot]
        simp [slashed, Component.segment]
      · rw [List.cons_append, ofComponents_of_ne_root hfirst]
        apply toList_intercalate_texts (first :: init)
        intro component hcomponent
        rcases List.mem_cons.mp hcomponent with rfl | hrest
        · exact hfirst
        · exact hroot component hrest

/-! ### Resolved components -/

private theorem Resolved.dropLast {components : List Component} (h : Resolved components) :
    Resolved components.dropLast := by
  obtain ⟨lead, hlead, names, rfl, hnames⟩ := h
  rcases List.eq_nil_or_concat names with rfl | ⟨front, name, rfl⟩
  · have hshort : ∀ lead ∈ leads, lead.dropLast ∈ leads := by decide
    exact ⟨lead.dropLast, hshort lead hlead, [], by simp, by simp⟩
  · refine ⟨lead, hlead, front, by simp, ?_⟩
    intro other hother
    exact hnames other (by simp [hother])

private theorem resolved_resolveStep {done : List Component} (h : Resolved done)
    {component : Component} (hname : ∀ text, component = .name text → IsName text.toList) :
    Resolved (resolveStep done component) := by
  cases component with
  | root => exact ⟨[.root], by decide, [], rfl, by simp⟩
  | current => exact h
  | parent =>
    rw [resolveStep]
    split
    · next hdone =>
      rcases hdone with rfl | rfl
      · exact ⟨[.parent], by decide, [], rfl, by simp⟩
      · exact ⟨[.root, .parent], by decide, [], rfl, by simp⟩
    · exact h.dropLast
  | name text =>
    obtain ⟨lead, hlead, names, rfl, hnames⟩ := h
    refine ⟨lead, hlead, names ++ [text], by simp [resolveStep], ?_⟩
    intro other hother
    rcases List.mem_append.mp hother with hold | hnew
    · exact hnames other hold
    · rw [List.mem_singleton.mp hnew]
      exact hname text rfl

/-- What is a name among the components of a path can be the name of a file. -/
theorem isName_of_mem_components {path : Path} {text : String}
    (h : .name text ∈ path.components) : IsName text.toList := by
  have hopening : Component.name text ∉ path.opening := by
    unfold opening
    split
    · simp
    · split <;> simp
  rcases List.mem_append.mp h with hfirst | hsteps
  · exact absurd hfirst hopening
  · obtain ⟨segment, hsegment, hstep⟩ := List.mem_map.mp hsteps
    obtain ⟨hmem, hvoid⟩ := List.mem_filter.mp hsegment
    unfold stepOf at hstep
    split at hstep
    · cases hstep
    · next hparent =>
      obtain rfl := Component.name.inj hstep
      rw [String.toList_ofList]
      exact ⟨slash_not_mem hmem, by simpa using hvoid, by simpa using hparent⟩

/-- Resolving one component after another keeps a path resolved. -/
theorem resolved_foldl {done components : List Component} (h : Resolved done)
    (hnames : ∀ text, .name text ∈ components → IsName text.toList) :
    Resolved (components.foldl resolveStep done) := by
  induction components generalizing done with
  | nil => exact h
  | cons component components ih =>
    apply ih
    · apply resolved_resolveStep h
      rintro text rfl
      exact hnames text List.mem_cons_self
    · exact fun text htext ↦ hnames text (List.mem_cons_of_mem _ htext)

/-! ### Plain paths -/

/-- A path is plain: a name is written below components of which no dot can be resolved. -/
def Plain (path : Path) : Prop :=
  ∃ init last, Resolved init ∧ IsName last ∧
    path.segments = init.map Component.segment ++ [last]

/-- Resolved components have no name or a last one. -/
theorem Resolved.eq_lead_or_concat {components : List Component} (h : Resolved components) :
    components ∈ leads ∨
      ∃ init name, Resolved init ∧ IsName name.toList ∧ components = init ++ [.name name] := by
  obtain ⟨lead, hlead, names, rfl, hnames⟩ := h
  rcases List.eq_nil_or_concat names with rfl | ⟨front, name, rfl⟩
  · exact .inl (by simpa using hlead)
  · refine .inr ⟨lead ++ front.map Component.name, name, ⟨lead, hlead, front, rfl, ?_⟩, ?_, ?_⟩
    · exact fun other hother ↦ hnames other (by simp [hother])
    · exact hnames name (by simp)
    · simp

private theorem Resolved.slash_not_mem {components : List Component} (h : Resolved components) :
    ∀ component ∈ components, '/' ∉ component.segment := by
  obtain ⟨lead, hlead, names, rfl, hnames⟩ := h
  have hall : ∀ lead ∈ leads, ∀ component ∈ lead, '/' ∉ component.segment := by decide
  intro component hcomponent
  rcases List.mem_append.mp hcomponent with hstart | hname
  · exact hall lead hlead component hstart
  · obtain ⟨name, hmem, rfl⟩ := List.mem_map.mp hname
    exact (hnames name hmem).noSlash

private theorem Resolved.tail_ne_root {components : List Component} (h : Resolved components) :
    ∀ component ∈ components.tail, component ≠ .root := by
  obtain ⟨lead, hlead, names, rfl, -⟩ := h
  have hall : ∀ lead ∈ leads, ∀ component ∈ lead.tail, component ≠ .root := by decide
  have hnames : ∀ component ∈ names.map Component.name, component ≠ .root := by simp
  intro component hcomponent
  cases lead with
  | nil => exact hnames component (List.mem_of_mem_tail hcomponent)
  | cons first lead =>
    rcases List.mem_append.mp hcomponent with hstart | hname
    · exact hall _ hlead component hstart
    · exact hnames component hname

/-- The pieces of what is written from resolved components and a last one, which need not be a
proper name. -/
theorem segments_ofComponents_concat {init : List Component} (h : Resolved init) {last : String}
    (hlast : '/' ∉ last.toList) :
    (ofComponents (init ++ [.name last])).segments =
      init.map Component.segment ++ [last.toList] := by
  apply segments_ofComponents
  · intro component hcomponent
    cases init with
    | nil => cases hcomponent
    | cons first init =>
      rcases List.mem_append.mp hcomponent with hinit | hnew
      · exact h.tail_ne_root component hinit
      · rw [List.mem_singleton.mp hnew]
        simp
  · simp
  · intro component hcomponent
    rcases List.mem_append.mp hcomponent with hinit | hnew
    · exact h.slash_not_mem component hinit
    · rwa [List.mem_singleton.mp hnew]

/-- A path starts at the root exactly if its first piece is empty and not its only one. -/
theorem isAbsolute_iff (path : Path) :
    path.isAbsolute = true ↔ ∃ next rest, path.segments = [] :: next :: rest := by
  obtain ⟨init, last, hsegments⟩ := path.exists_concat_segments
  have htext := text_of_segments hsegments
  have hnoSlash : ∀ segment ∈ init ++ [last], '/' ∉ segment := fun segment hsegment ↦
    slash_not_mem (hsegments ▸ hsegment)
  rw [isAbsolute, htext, hsegments, List.isPrefixOf_iff_prefix]
  constructor
  · rintro ⟨rest, hrest⟩
    cases init with
    | nil =>
      have hslash : '/' ∈ last := by
        rw [show last = '/' :: rest from hrest.symm]
        exact List.mem_cons_self
      exact absurd hslash (hnoSlash last (by simp))
    | cons first init =>
      cases first with
      | nil => cases init <;> exact ⟨_, _, rfl⟩
      | cons c first =>
        obtain rfl : '/' = c := List.head_eq_of_cons_eq hrest
        exact absurd List.mem_cons_self (hnoSlash ('/' :: first) (by simp))
  · rintro ⟨next, rest, hsplit⟩
    cases init with
    | nil => simp at hsplit
    | cons first init =>
      obtain rfl : first = [] := List.head_eq_of_cons_eq hsplit
      exact ⟨slashed init ++ last, rfl⟩

/-- What a path starts with can be told from its first two pieces. -/
theorem opening_eq {path : Path} {first : List Char} {rest : List (List Char)}
    (h : path.segments = first :: rest) :
    path.opening =
      if first = [] ∧ rest ≠ [] then [.root] else if first = ['.'] then [.current] else [] := by
  have habsolute : path.isAbsolute = true ↔ first = [] ∧ rest ≠ [] := by
    rw [isAbsolute_iff, h]
    cases rest <;> simp
  rw [opening, h]
  simp [habsolute]

private theorem opening_of_segments {path : Path} {first : List Char} {rest : List (List Char)}
    (h : path.segments = first :: rest) (hfirst : first ≠ []) (hdot : first ≠ ['.']) :
    path.opening = [] := by
  rw [opening_eq h, if_neg (by simp [hfirst]), if_neg hdot]

private theorem opening_of_root {path : Path} {next : List Char} {rest : List (List Char)}
    (h : path.segments = [] :: next :: rest) : path.opening = [.root] := by
  rw [opening_eq h, if_pos (by simp)]

private theorem steps_names {names : List String} (h : ∀ name ∈ names, IsName name.toList) :
    steps (names.map String.toList) = names.map Component.name := by
  have hfilter : (names.map String.toList).filter (fun segment ↦ !isVoid segment) =
      names.map String.toList := by
    rw [List.filter_eq_self]
    intro segment hsegment
    obtain ⟨name, hname, rfl⟩ := List.mem_map.mp hsegment
    simp [(h name hname).notVoid]
  rw [steps, hfilter, List.map_map]
  apply List.map_congr_left
  intro name hname
  simp [stepOf, (h name hname).notParent]

/-- A name is not empty. -/
theorem IsName.ne_nil {segment : List Char} (h : IsName segment) : segment ≠ [] := by
  rintro rfl
  exact absurd h.notVoid (by decide)

/-- A name is not a single dot. -/
theorem IsName.ne_dot {segment : List Char} (h : IsName segment) : segment ≠ ['.'] := by
  rintro rfl
  exact absurd h.notVoid (by decide)

private theorem components_of_lead {path : Path} {lead : List Component} (hlead : lead ∈ leads)
    {names : List String} (hne : names ≠ []) (hnames : ∀ name ∈ names, IsName name.toList)
    (h : path.segments = lead.map Component.segment ++ names.map String.toList) :
    path.components = lead ++ names.map Component.name := by
  obtain ⟨first, rest, rfl⟩ := List.exists_cons_of_ne_nil hne
  have hfirst := hnames first List.mem_cons_self
  have hsteps := steps_names hnames
  simp only [leads, List.mem_cons, List.not_mem_nil, or_false] at hlead
  rw [components]
  rcases hlead with rfl | rfl | rfl | rfl
  · rw [opening_of_segments h hfirst.ne_nil hfirst.ne_dot, h]
    exact hsteps
  · rw [opening_of_root h, h]
    exact congrArg (Component.root :: ·) hsteps
  · rw [opening_of_segments h (by decide) (by decide), h]
    exact congrArg (Component.parent :: ·) hsteps
  · rw [opening_of_root h, h]
    exact congrArg (Component.root :: Component.parent :: ·) hsteps

/-- The components of a plain path are those that its pieces are written from. -/
theorem components_of_segments {path : Path} {init : List Component} (hinit : Resolved init)
    {last : String} (hlast : IsName last.toList)
    (h : path.segments = init.map Component.segment ++ [last.toList]) :
    path.components = init ++ [.name last] := by
  obtain ⟨lead, hlead, names, rfl, hnames⟩ := hinit
  have hcomponents : path.components = lead ++ (names ++ [last]).map Component.name := by
    apply components_of_lead hlead (by simp)
    · intro name hname
      rcases List.mem_append.mp hname with hold | hnew
      · exact hnames name hold
      · rwa [List.mem_singleton.mp hnew]
    · rw [h, List.map_append, List.map_map, List.map_append, List.append_assoc]
      rfl
  rw [hcomponents, List.map_append, List.append_assoc]
  rfl

/-! ### Paths with the same components -/

/-- Two paths are the same when their components are. -/
theorem same_iff {p q : Path} : p.same q = true ↔ p.components = q.components :=
  decide_eq_true_iff

private theorem Plain.exists_components {path : Path} (h : path.Plain) :
    ∃ init last, path.components = init ++ [.name (String.ofList last)] ∧
      path.segments = init.map Component.segment ++ [last] := by
  obtain ⟨init, last, hinit, hlast, hsegments⟩ := h
  refine ⟨init, last, components_of_segments hinit ?_ ?_, hsegments⟩
  · rwa [String.toList_ofList]
  · rwa [String.toList_ofList]

/-- There is one plain way to write a path. -/
theorem Plain.eq_of_same {p q : Path} (hp : p.Plain) (hq : q.Plain) (h : p.same q = true) :
    p = q := by
  obtain ⟨init, last, hcomponents, hsegments⟩ := hp.exists_components
  obtain ⟨init', last', hcomponents', hsegments'⟩ := hq.exists_components
  rw [same_iff, hcomponents, hcomponents'] at h
  obtain ⟨rfl, hname⟩ := List.append_inj' h rfl
  obtain rfl : last = last' := String.ofList_injective (by simpa using hname)
  exact eq_of_segments_eq (hsegments.trans hsegments'.symm)

private theorem stepOf_injective : Function.Injective stepOf := by
  intro s t h
  unfold stepOf at h
  split at h <;> split at h
  · next hs ht => rw [beq_iff_eq] at hs ht; rw [hs, ht]
  · cases h
  · cases h
  · exact String.ofList_injective (Component.name.inj h)

private theorem filter_components (path : Path) :
    path.components.filter (fun component ↦ component ≠ .root && component ≠ .current) =
      steps path.segments := by
  have hopening : path.opening.filter
      (fun component ↦ component ≠ .root && component ≠ .current) = [] := by
    unfold opening
    split
    · rfl
    · split <;> rfl
  rw [components, List.filter_append, hopening, List.nil_append, List.filter_eq_self]
  intro component hcomponent
  obtain ⟨segment, -, rfl⟩ := List.mem_map.mp hcomponent
  unfold stepOf
  split <;> simp

/-- Paths with the same components have the same pieces, but for those that mean nothing. -/
theorem filter_segments_of_same {p q : Path} (h : p.same q = true) :
    p.segments.filter (fun segment ↦ !isVoid segment) =
      q.segments.filter (fun segment ↦ !isVoid segment) := by
  have hsteps : steps p.segments = steps q.segments := by
    rw [← filter_components, ← filter_components, same_iff.mp h]
  exact List.map_injective_iff.mpr stepOf_injective hsteps

end PropDoc.Path
