import PropDoc.Project.Loading
import PropDoc.Proofs.Path

/-!
# Candidates of a specifier

The files that a specifier may name depend on the components of the path it is written in and not
on its spelling, and each is written plainly: no dots are left in it but for one step up at its
start. Each is what the specifier names with its dots resolved, or that with a suffix, or a file
below it; and each can be read, unless it is nothing but a suffix.
-/

namespace PropDoc

open PropDoc.Path

namespace Path

/-- Some grammar reads the file that a path names. -/
def Supported (path : Path) : Prop := (Dialect.ofPath? path).isSome = true

instance (path : Path) : Decidable path.Supported :=
  inferInstanceAs (Decidable ((Dialect.ofPath? path).isSome = true))

/-- A file name without the extension of a script. -/
def dropScript (name : String) : String :=
  match splitName? name with
  | some (stem, extension) => if extension = "js" ∨ extension = "jsx" then stem else name
  | none => name

/-- The components with a suffix written right after them, in the place of the extension of a
script. Two dots that are left become part of a name. -/
def suffixed (components : List Component) (suffix : String) : List Component :=
  match components.getLast? with
  | some (.name name) => components.dropLast ++ [.name (dropScript name ++ suffix)]
  | some .parent => components.dropLast ++ [.name (".." ++ suffix)]
  | _ => components ++ [.name suffix]

private theorem slash_not_mem_stem {name stem extension : String}
    (h : splitName? name = some (stem, extension)) (hname : '/' ∉ name.toList) :
    '/' ∉ stem.toList := by
  unfold splitName? at h
  dsimp only at h
  split at h
  · next dot rest hdrop =>
    split at h
    · cases h
    · obtain ⟨rfl, -⟩ := Prod.mk.inj (Option.some.inj h)
      rw [String.toList_ofList, List.mem_reverse]
      intro hslash
      have hmem : '/' ∈ name.toList.reverse.dropWhile (· != '.') := by
        rw [hdrop]
        exact List.mem_cons_of_mem dot hslash
      exact hname (List.mem_reverse.mp ((List.dropWhile_sublist _).mem hmem))
  · cases h

private theorem slash_not_mem_dropScript {name : String} (h : '/' ∉ name.toList) :
    '/' ∉ (dropScript name).toList := by
  unfold dropScript
  split
  · next stem extension hsplit =>
    split
    · exact slash_not_mem_stem hsplit h
    · exact h
  · exact h

/-- A suffix is put to the last name of a path, in place of the ending of a script. -/
theorem suffixed_concat (init : List Component) (name suffix : String) :
    suffixed (init ++ [.name name]) suffix = init ++ [.name (dropScript name ++ suffix)] := by
  rw [suffixed, List.getLast?_concat, List.dropLast_concat]

/-- Whatever it is written after, a suffix ends the last name. -/
theorem exists_getLast?_suffixed (components : List Component) (suffix : String) :
    ∃ stem, (suffixed components suffix).getLast? = some (.name (stem ++ suffix)) := by
  unfold suffixed
  split
  · next name _ => exact ⟨dropScript name, List.getLast?_concat ..⟩
  · exact ⟨"..", List.getLast?_concat ..⟩
  · exact ⟨"", by rw [List.getLast?_concat, String.empty_append]⟩

-- What suffixes are written after: the path without the extension of a script.
private def withoutScript (path : Path) : Path :=
  if path.extension? = some "js" ∨ path.extension? = some "jsx" then path.dropExtension else path

private theorem withoutScript_concat {init : List Component} {name : String}
    (hinit : Resolved init) (hname : IsName name.toList) :
    withoutScript (ofComponents (init ++ [.name name])) =
      ofComponents (init ++ [.name (dropScript name)]) := by
  have hcomponents : (ofComponents (init ++ [.name name])).components = init ++ [.name name] :=
    components_of_segments hinit hname (segments_ofComponents_concat hinit hname.noSlash)
  have hfile : (ofComponents (init ++ [.name name])).fileName? = some name := by
    rw [fileName?, hcomponents, List.getLast?_concat]
  unfold withoutScript extension? dropExtension dropScript
  rw [hfile, hcomponents, Option.bind_some, List.dropLast_concat]
  cases splitName? name with
  | none => simp
  | some split =>
    obtain ⟨stem, extension⟩ := split
    simp only [Option.map_some, Option.some.injEq]
    split <;> rfl

-- The last piece that a suffix is written after, and the components before it. The piece is
-- empty where nothing or only the root is written.
private theorem exists_suffixed {components : List Component} (h : Resolved components) :
    ∃ init last, Resolved init ∧
      (withoutScript (ofComponents components)).segments =
        init.map Component.segment ++ [last.toList] ∧
      ∀ suffix, suffixed components suffix = init ++ [.name (last ++ suffix)] := by
  rcases h.eq_lead_or_concat with hlead | ⟨init, name, hinit, hname, rfl⟩
  · have hnil : Resolved [] := ⟨[], by decide, [], rfl, by simp⟩
    have hroot : Resolved [.root] := ⟨[.root], by decide, [], rfl, by simp⟩
    simp only [leads, List.mem_cons, List.not_mem_nil, or_false] at hlead
    rcases hlead with rfl | rfl | rfl | rfl
    · exact ⟨[], "", hnil, by decide, by simp [suffixed]⟩
    · exact ⟨[.root], "", hroot, by decide, by simp [suffixed]⟩
    · exact ⟨[], "..", hnil, by decide, by simp [suffixed]⟩
    · exact ⟨[.root], "..", hroot, by decide, by simp [suffixed]⟩
  · refine ⟨init, dropScript name, hinit, ?_, suffixed_concat init name⟩
    rw [withoutScript_concat hinit hname]
    exact segments_ofComponents_concat hinit (slash_not_mem_dropScript hname.noSlash)

-- A path is written as some components, of which the last is a name.
private structure Spells (path : Path) (components : List Component) : Prop where
  plain : path.Plain
  components_eq : path.components = components

private theorem spells_concat {path : Path} {init : List Component} {name : String}
    (hinit : Resolved init) (hname : IsName name.toList)
    (h : path.segments = init.map Component.segment ++ [name.toList]) :
    path.Spells (init ++ [.name name]) :=
  ⟨⟨init, name.toList, hinit, hname, h⟩, components_of_segments hinit hname h⟩

end Path

private theorem isName_of_length {segment : List Char} (hslash : '/' ∉ segment)
    (hlength : 2 < segment.length) : IsName segment := by
  refine ⟨hslash, ?_, ?_⟩
  · match segment, hlength with
    | a :: b :: rest, _ => simp [isVoid]
  · rintro rfl
    simp at hlength

private theorem spells_withSuffix {components : List Component} (h : Resolved components)
    {suffix : String} (hsuffix : suffix ∈ [".ts", ".tsx", ".d.ts"]) :
    ((withoutScript (ofComponents components)).withSuffix suffix).Spells
      (suffixed components suffix) := by
  have hall : ∀ suffix ∈ [".ts", ".tsx", ".d.ts"],
      '/' ∉ suffix.toList ∧ 2 < suffix.toList.length := by decide
  obtain ⟨hslash, hlength⟩ := hall suffix hsuffix
  obtain ⟨init, last, hinit, hsegments, hsuffixed⟩ := exists_suffixed h
  have hlast : '/' ∉ last.toList :=
    @slash_not_mem (withoutScript (ofComponents components)) _ (by simp [hsegments])
  rw [hsuffixed]
  apply spells_concat hinit
  · apply isName_of_length
    · simp [hlast, hslash]
    · rw [String.toList_append, List.length_append]
      omega
  · rw [segments_withSuffix hsegments hslash, String.toList_append]

private theorem spells_join {components : List Component} (h : Resolved components)
    {index : String} (hindex : index ∈ ["index.ts", "index.tsx"]) :
    ((ofComponents components).join ⟨index⟩).Spells (components ++ [.name index]) := by
  have hall : ∀ index ∈ ["index.ts", "index.tsx"],
      '/' ∉ index.toList ∧ 2 < index.toList.length := by decide
  obtain ⟨hslash, hlength⟩ := hall index hindex
  apply spells_concat h (isName_of_length hslash hlength)
  rcases h.eq_lead_or_concat with hlead | ⟨init, name, hinit, hname, rfl⟩
  · have hjoin : ∀ lead ∈ leads, ∀ index ∈ ["index.ts", "index.tsx"],
        ((ofComponents lead).join ⟨index⟩).segments =
          lead.map Component.segment ++ [index.toList] := by decide
    exact hjoin components hlead index hindex
  · rw [segments_join (segments_ofComponents_concat hinit hname.noSlash) hslash,
      if_neg hname.ne_nil, List.map_append]
    rfl

private theorem spells_of_supported {components : List Component} (h : Resolved components)
    (hsupported : (ofComponents components).Supported) :
    (ofComponents components).Spells components := by
  rcases h.eq_lead_or_concat with hlead | ⟨init, name, hinit, hname, rfl⟩
  · have hnone : ∀ lead ∈ leads, (Dialect.ofPath? (ofComponents lead)).isSome = false := by decide
    rw [Supported, hnone components hlead] at hsupported
    cases hsupported
  · exact spells_concat hinit hname (segments_ofComponents_concat hinit hname.noSlash)

/-- The components of what a specifier written in some file names, with their dots resolved. -/
def namedComponents (origin : Path) (specifier : String) : List Component :=
  ((origin.parent?.getD ⟨""⟩).join ⟨specifier⟩).components.foldl resolveStep []

/-- What a specifier names is resolved. -/
theorem resolved_namedComponents (origin : Path) (specifier : String) :
    Resolved (namedComponents origin specifier) :=
  resolved_foldl ⟨[], by decide, [], rfl, by simp⟩ fun _ ↦ isName_of_mem_components

/-- The components of a candidate: those that the specifier names, with a suffix, or with one more
name. -/
inductive IsCandidate (origin : Path) (specifier : String) (path : Path) : Prop where
  | self : path.Supported → path.components = namedComponents origin specifier →
      IsCandidate origin specifier path
  | suffixed {suffix : String} : suffix ∈ [".ts", ".tsx", ".d.ts"] →
      path.components = suffixed (namedComponents origin specifier) suffix →
      IsCandidate origin specifier path
  | index {index : String} : index ∈ ["index.ts", "index.tsx"] →
      path.components = namedComponents origin specifier ++ [.name index] →
      IsCandidate origin specifier path

private theorem moduleCandidates_eq (origin : Path) (specifier : String) :
    moduleCandidates origin specifier =
      (if (Dialect.ofPath? (ofComponents (namedComponents origin specifier))).isSome
        then [ofComponents (namedComponents origin specifier)] else []) ++
      [".ts", ".tsx", ".d.ts"].map
        (withoutScript (ofComponents (namedComponents origin specifier))).withSuffix ++
      ["index.ts", "index.tsx"].map
        fun index ↦ (ofComponents (namedComponents origin specifier)).join ⟨index⟩ :=
  rfl

private theorem plain_and_isCandidate {origin path : Path} {specifier : String}
    (h : path ∈ moduleCandidates origin specifier) :
    path.Plain ∧ IsCandidate origin specifier path := by
  have hresolved := resolved_namedComponents origin specifier
  rw [moduleCandidates_eq, List.mem_append, List.mem_append, List.mem_map, List.mem_map] at h
  rcases h with (hself | ⟨suffix, hsuffix, rfl⟩) | ⟨index, hindex, rfl⟩
  · split at hself
    · next hsupported =>
      obtain rfl := List.mem_singleton.mp hself
      obtain ⟨hplain, hcomponents⟩ := spells_of_supported hresolved hsupported
      exact ⟨hplain, .self hsupported hcomponents⟩
    · cases hself
  · obtain ⟨hplain, hcomponents⟩ := spells_withSuffix hresolved hsuffix
    exact ⟨hplain, .suffixed hsuffix hcomponents⟩
  · obtain ⟨hplain, hcomponents⟩ := spells_join hresolved hindex
    exact ⟨hplain, .index hindex hcomponents⟩

/-- Every candidate of a specifier is a plain path. -/
theorem plain_of_mem_moduleCandidates {origin path : Path} {specifier : String}
    (h : path ∈ moduleCandidates origin specifier) : path.Plain :=
  (plain_and_isCandidate h).1

/-- A path that is tried for a specifier is a candidate. -/
theorem isCandidate_of_mem {origin path : Path} {specifier : String}
    (h : path ∈ moduleCandidates origin specifier) : IsCandidate origin specifier path :=
  (plain_and_isCandidate h).2

/-- What the specifier names is a candidate with every suffix. -/
theorem exists_suffixed_candidate (origin : Path) (specifier : String) {suffix : String}
    (hsuffix : suffix ∈ [".ts", ".tsx", ".d.ts"]) :
    ∃ path ∈ moduleCandidates origin specifier,
      path.components = suffixed (namedComponents origin specifier) suffix := by
  refine ⟨_, ?_,
    (spells_withSuffix (resolved_namedComponents origin specifier) hsuffix).components_eq⟩
  rw [moduleCandidates_eq]
  exact List.mem_append_left _ (List.mem_append_right _ (List.mem_map_of_mem hsuffix))

/-- The candidates depend on the components of the path that the specifier is written in. -/
theorem moduleCandidates_of_same {p q : Path} (h : p.same q = true) (specifier : String) :
    moduleCandidates p specifier = moduleCandidates q specifier := by
  have hparent : p.parent? = q.parent? := by
    rw [parent?, parent?, same_iff.mp h]
  rw [moduleCandidates, moduleCandidates, hparent]

/-- The file at a path is a file of the project with that path. -/
theorem Project.fileAt?_eq_some {project : Project} {path : Path} {file : SourceFile}
    (h : project.fileAt? path = some file) : file ∈ project.files ∧ file.path.same path := by
  unfold fileAt? at h
  have hsame := List.find?_some h
  exact ⟨List.mem_of_find?_eq_some h, hsame⟩

/-! ### Candidates can be read -/

namespace Path

private theorem splitName?_append {stem extension : String} (hstem : stem ≠ "")
    (hdot : '.' ∉ extension.toList) :
    splitName? (stem ++ "." ++ extension) = some (stem, extension) := by
  have hreversed : (stem ++ "." ++ extension).toList.reverse =
      extension.toList.reverse ++ '.' :: stem.toList.reverse := by
    simp
  have hnoDot : ∀ c ∈ extension.toList.reverse, (c != '.') = true := by
    intro c hc
    simp only [bne_iff_ne]
    rintro rfl
    exact hdot (List.mem_reverse.mp hc)
  have hne : ¬ stem.toList.reverse.isEmpty = true := by
    simpa using hstem
  unfold splitName?
  dsimp only
  rw [hreversed, List.dropWhile_append_of_pos hnoDot, List.takeWhile_append_of_pos hnoDot]
  simp [hne]

private theorem supported_of_name {path : Path} {stem extension : String} (hstem : stem ≠ "")
    (hextension : extension ∈ ["ts", "tsx"])
    (h : path.fileName? = some (stem ++ "." ++ extension)) : path.Supported := by
  have hall : ∀ extension ∈ ["ts", "tsx"],
      '.' ∉ extension.toList ∧ (Dialect.ofExtension? extension).isSome = true := by decide
  obtain ⟨hdot, hdialect⟩ := hall extension hextension
  rwa [Supported, Dialect.ofPath?, extension?, h, Option.bind_some,
    splitName?_append hstem hdot, Option.map_some, Option.bind_some]

end Path

-- What a candidate can end in, if it is not what the specifier names itself.
private def endings : List String := [".ts", ".tsx", ".d.ts", "index.ts", "index.tsx"]

private theorem exists_extension {ending : String} (h : ending ∈ endings) :
    ∃ front, ∃ extension ∈ ["ts", "tsx"], ending = front ++ "." ++ extension := by
  simp only [endings, List.mem_cons, List.not_mem_nil, or_false] at h
  rcases h with rfl | rfl | rfl | rfl | rfl
  · exact ⟨"", "ts", by decide, by decide⟩
  · exact ⟨"", "tsx", by decide, by decide⟩
  · exact ⟨".d", "ts", by decide, by decide⟩
  · exact ⟨"index", "ts", by decide, by decide⟩
  · exact ⟨"index", "tsx", by decide, by decide⟩

private theorem supported_of_ending {path : Path} {stem ending : String}
    (hending : ending ∈ endings)
    (hname : path.fileName? = some (stem ++ ending)) :
    path.Supported ∨ ∃ suffix ∈ [".ts", ".tsx"], path.fileName? = some suffix := by
  obtain ⟨front, extension, hextension, rfl⟩ := exists_extension hending
  rw [← String.append_assoc, ← String.append_assoc] at hname
  by_cases hbare : stem ++ front = ""
  · have hsuffix : ∀ extension ∈ ["ts", "tsx"], "." ++ extension ∈ [".ts", ".tsx"] := by decide
    rw [hbare, String.empty_append] at hname
    exact .inr ⟨_, hsuffix extension hextension, hname⟩
  · exact .inl (supported_of_name hbare hextension hname)

private theorem exists_fileName?_suffixed {path : Path} {components : List Component}
    {suffix : String} (h : path.components = suffixed components suffix) :
    ∃ stem, path.fileName? = some (stem ++ suffix) := by
  obtain ⟨stem, hlast⟩ := exists_getLast?_suffixed components suffix
  exact ⟨stem, by rw [fileName?, h, hlast]⟩

/-- A candidate can be read, unless it is nothing but a suffix. -/
theorem supported_or_suffix {origin path : Path} {specifier : String}
    (h : path ∈ moduleCandidates origin specifier) :
    path.Supported ∨ ∃ suffix ∈ [".ts", ".tsx"], path.fileName? = some suffix := by
  cases isCandidate_of_mem h with
  | self hsupported _ => exact .inl hsupported
  | @suffixed suffix hsuffix hcomponents =>
    have hending : ∀ suffix ∈ [".ts", ".tsx", ".d.ts"], suffix ∈ endings := by decide
    obtain ⟨stem, hname⟩ := exists_fileName?_suffixed hcomponents
    exact supported_of_ending (hending suffix hsuffix) hname
  | @index index hindex hcomponents =>
    have hending : ∀ index ∈ ["index.ts", "index.tsx"], index ∈ endings := by decide
    apply supported_of_ending (hending index hindex)
    rw [fileName?, hcomponents, List.getLast?_concat, String.empty_append]

/-- The suffix of a declaration file always has something before its last dot. -/
theorem supported_of_declaration {path : Path} {components : List Component}
    (h : path.components = suffixed components ".d.ts") : path.Supported := by
  obtain ⟨stem, hname⟩ := exists_fileName?_suffixed h
  have hstem : stem ++ ".d" ≠ "" := by simp
  apply supported_of_name hstem (show "ts" ∈ ["ts", "tsx"] by decide)
  rw [hname, String.append_assoc, String.append_assoc]
  rfl

end PropDoc
