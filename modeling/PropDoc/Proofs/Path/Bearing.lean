import Mathlib.Data.List.Induction
import PropDoc.Proofs.Path

/-!
# Where a path points

A path points somewhere by its text alone: it starts at the root or not, climbs above its start a
number of times, and goes down by names from there. To normalize a path keeps all of this but for
the climbs, of which every two cancel each other: a step up that could not be resolved is taken
away by the next one as if it were a name.
-/

namespace PropDoc.Path

/-- Where a path points by its text alone. -/
structure Bearing where
  absolute : Bool := false
  /-- How often it climbs above where it starts. -/
  climbs : Nat := 0
  /-- The names on the way down from there. -/
  names : List String := []
  deriving DecidableEq

namespace Bearing

/-- Where one more component points. -/
def move (bearing : Bearing) : Component → Bearing
  | .root => { absolute := true }
  | .current => bearing
  | .parent =>
    if bearing.names = [] then { bearing with climbs := bearing.climbs + 1 }
    else { bearing with names := bearing.names.dropLast }
  | .name text => { bearing with names := bearing.names ++ [text] }

/-- Where some components point. -/
def ofComponents (components : List Component) : Bearing := components.foldl move {}

/-- The bearing in which every two climbs cancel each other. -/
def cancelPairs (bearing : Bearing) : Bearing := { bearing with climbs := bearing.climbs % 2 }

end Bearing

/-- Where a path points. -/
def bearing (path : Path) : Bearing := Bearing.ofComponents path.components

namespace Bearing

/-- One component more is one move more. -/
theorem ofComponents_concat (init : List Component) (last : Component) :
    ofComponents (init ++ [last]) = (ofComponents init).move last := by
  rw [ofComponents, List.foldl_append]
  rfl

private theorem foldl_move_names (bearing : Bearing) (names : List String) :
    (names.map Component.name).foldl move bearing =
      { bearing with names := bearing.names ++ names } := by
  induction names generalizing bearing with
  | nil => simp
  | cons name names ih => rw [List.map_cons, List.foldl_cons, ih]; simp [move]

private theorem ofComponents_append_names (lead : List Component) (names : List String) :
    ofComponents (lead ++ names.map .name) =
      { ofComponents lead with names := (ofComponents lead).names ++ names } := by
  rw [ofComponents, List.foldl_append, foldl_move_names]
  rfl

/-- Resolved components climb at most once. -/
theorem climbs_lt_of_resolved {components : List Component} (h : Resolved components) :
    (ofComponents components).climbs < 2 := by
  obtain ⟨lead, hlead, names, rfl, -⟩ := h
  have hall : ∀ lead ∈ leads, (ofComponents lead).climbs < 2 := by decide
  rw [ofComponents_append_names]
  exact hall lead hlead

@[simp] theorem names_cancelPairs (bearing : Bearing) :
    bearing.cancelPairs.names = bearing.names := rfl

/-- There is nothing to cancel exactly if a bearing climbs at most once. -/
theorem cancelPairs_eq_self_iff {bearing : Bearing} :
    bearing.cancelPairs = bearing ↔ bearing.climbs ≤ 1 := by
  have hmod : bearing.climbs % 2 = bearing.climbs ↔ bearing.climbs ≤ 1 := by omega
  rw [← hmod]
  constructor
  · exact congrArg climbs
  · intro hclimbs
    rw [cancelPairs, hclimbs]

private theorem cancelPairs_of_resolved {components : List Component} (h : Resolved components) :
    (ofComponents components).cancelPairs = ofComponents components :=
  cancelPairs_eq_self_iff.mpr (Nat.le_of_lt_succ (climbs_lt_of_resolved h))

private theorem cancelPairs_move (bearing : Bearing) (component : Component) :
    (bearing.cancelPairs.move component).cancelPairs = (bearing.move component).cancelPairs := by
  cases component with
  | root => rfl
  | current => simp [move, cancelPairs]
  | parent =>
    by_cases hnames : bearing.names = []
    · simp [move, cancelPairs, hnames]
    · simp [move, cancelPairs, hnames]
  | name text => simp [move, cancelPairs]

private theorem move_name_move_parent (bearing : Bearing) (text : String) :
    (bearing.move (.name text)).move .parent = bearing := by
  simp [move]

private theorem resolveStep_concat_parent (init : List Component) (text : String) :
    resolveStep (init ++ [.name text]) .parent = init := by
  have hmore : ¬ (init ++ [.name text] = [] ∨ init ++ [.name text] = [.root]) := by
    rintro (hnil | hroot)
    · simp at hnil
    · simpa using congrArg List.getLast? hroot
  rw [resolveStep, if_neg hmore, List.dropLast_concat]

-- One more component is resolved to where it points, but that a second climb takes the first one
-- away.
private theorem ofComponents_resolveStep {done : List Component} (h : Resolved done)
    (component : Component) :
    ofComponents (resolveStep done component) =
      ((ofComponents done).move component).cancelPairs := by
  cases component with
  | root => rfl
  | current => exact (cancelPairs_of_resolved h).symm
  | name text =>
    rw [resolveStep, ofComponents_concat]
    nth_rewrite 1 [← cancelPairs_of_resolved h]
    rfl
  | parent =>
    rcases h.eq_lead_or_concat with hlead | ⟨init, name, hinit, -, rfl⟩
    · have hall : ∀ lead ∈ leads, ofComponents (resolveStep lead .parent) =
          ((ofComponents lead).move .parent).cancelPairs := by decide
      exact hall done hlead
    · rw [resolveStep_concat_parent, ofComponents_concat, move_name_move_parent,
        cancelPairs_of_resolved hinit]

/-- Resolving the dots of some components keeps where they point, but for pairs of climbs. -/
theorem ofComponents_foldl_resolveStep {components : List Component}
    (h : ∀ text, .name text ∈ components → IsName text.toList) :
    ofComponents (components.foldl resolveStep []) = (ofComponents components).cancelPairs := by
  induction components using List.reverseRecOn with
  | nil => rfl
  | append_singleton init last ih =>
    have hinit : ∀ text, .name text ∈ init → IsName text.toList := fun text htext ↦
      h text (List.mem_append_left _ htext)
    have hresolved : Resolved (init.foldl resolveStep []) :=
      resolved_foldl ⟨[], by decide, [], rfl, by simp⟩ hinit
    rw [List.foldl_append, List.foldl_cons, List.foldl_nil, ofComponents_resolveStep hresolved,
      ih hinit, cancelPairs_move, ofComponents_concat]

end Bearing

/-- What resolved components are written as is read back. -/
theorem components_ofComponents {components : List Component} (h : Resolved components) :
    (ofComponents components).components = components := by
  rcases h.eq_lead_or_concat with hlead | ⟨init, name, hinit, hname, rfl⟩
  · have hall : ∀ lead ∈ leads, (ofComponents lead).components = lead := by decide
    exact hall components hlead
  · exact components_of_segments hinit hname (segments_ofComponents_concat hinit hname.noSlash)

/-- To normalize a path keeps where it points, but for pairs of climbs. -/
theorem bearing_normalize (path : Path) : path.normalize.bearing = path.bearing.cancelPairs := by
  have hnames : ∀ text, .name text ∈ path.components → IsName text.toList := fun _ ↦
    isName_of_mem_components
  have hresolved : Resolved (path.components.foldl resolveStep []) :=
    resolved_foldl ⟨[], by decide, [], rfl, by simp⟩ hnames
  rw [bearing, normalize, components_ofComponents hresolved,
    Bearing.ofComponents_foldl_resolveStep hnames, bearing]

end PropDoc.Path
