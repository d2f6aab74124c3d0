import PropDoc.Project.Loading
import PropDoc.Proofs.List

/-!
# What a type name means

The meaning of a type name in a file of a project, said without the search that finds it. A file's
own declaration comes first. A name that a relative import binds means what the first chain of
modules passing it on leads to, and nothing else; the positions of the links followed order the
chains depth first. Any other name means the first declaration elsewhere in the project.
-/

namespace PropDoc

/-- Under a name, a link knows another name: the first of its entries for it says which. -/
def Link.Renames (link : Link) (name renamed : String) : Prop :=
  ∃ before linked after, link.names = before ++ linked :: after ∧
    linked.here = name ∧ linked.there = renamed ∧ ∀ other ∈ before, other.here ≠ name

/-- A link passes a name of its relative module on: all names under themselves, or the listed
ones. -/
def Link.PassesOn (link : Link) (name renamed : String) : Prop :=
  link.kind = .passesOn ∧ link.isRelative = true ∧
    (link.wildcard = true ∧ renamed = name ∨ link.wildcard = false ∧ link.Renames name renamed)

namespace SourceFile

/-- A file declares a type of a name at file scope. -/
def Declares (file : SourceFile) (name : String) : Prop :=
  ∃ declaration ∈ file.typeDeclarations, file.typeName? declaration = some name

/-- A declaration is the first in source order that gives a type of the file the name. -/
def DeclaresFirst (file : SourceFile) (name : String) (declaration : TypeDeclaration) : Prop :=
  ∃ before after, file.typeDeclarations = before ++ declaration :: after ∧
    file.typeName? declaration = some name ∧
    ∀ other ∈ before, file.typeName? other ≠ some name

/-- A link is the first import of a file that binds a name, to `imported` on the far side. -/
def ImportsFirst (file : SourceFile) (name : String) (link : Link) (imported : String) : Prop :=
  ∃ before after, file.links = before ++ link :: after ∧ link.kind = .brings ∧
    link.Renames name imported ∧
    ∀ other ∈ before, other.kind = .brings → ∀ linked ∈ other.names, linked.here ≠ name

end SourceFile

namespace Project

/-- A chain of modules from a link to a declaration. Every module before the last leaves the name
undeclared and passes it on; `path` holds the positions of the links that do so. -/
inductive Chain (project : Project) :
    SourceFile → Link → String → List Nat → FoundType → Prop where
  | declared {origin : SourceFile} {link : Link} {name : String} {target : SourceFile}
      {declaration : TypeDeclaration} :
      project.resolve? origin link.specifier = some target →
      target.DeclaresFirst name declaration →
      Chain project origin link name [] (target, declaration)
  | passedOn {origin : SourceFile} {link : Link} {name : String} {target : SourceFile}
      {position : Nat} {next : Link} {renamed : String} {path : List Nat} {found : FoundType} :
      project.resolve? origin link.specifier = some target →
      ¬ target.Declares name →
      target.links[position]? = some next →
      next.PassesOn name renamed →
      Chain project target next renamed path found →
      Chain project origin link name (position :: path) found

/-- A chain that passes the name on at most `limit` times leads to a type, and no other such chain
comes before it depth first. -/
def FirstChain (project : Project) (limit : Nat) (origin : SourceFile) (link : Link)
    (name : String) (found : FoundType) : Prop :=
  ∃ path, Chain project origin link name path found ∧ path.length ≤ limit ∧
    ∀ other found', Chain project origin link name other found' → other.length ≤ limit →
      ¬ List.Lex (· < ·) other path

/-- The first file of some that declares a name, with its declaration. -/
def FirstDeclaring (files : List SourceFile) (name : String) (found : FoundType) : Prop :=
  ∃ before after, files = before ++ found.1 :: after ∧ found.1.DeclaresFirst name found.2 ∧
    ∀ other ∈ before, ¬ other.Declares name

/-- What a type name means in the file of a project at a position. -/
inductive Means (project : Project) (index : Fin project.files.length) (name : String) :
    FoundType → Prop where
  /-- The file declares it. -/
  | own {declaration : TypeDeclaration} :
      (project.files.get index).DeclaresFirst name declaration →
      Means project index name (project.files.get index, declaration)
  /-- A relative import binds it, and at most eight further modules pass it on. -/
  | imported {link : Link} {imported : String} {found : FoundType} :
      ¬ (project.files.get index).Declares name →
      (project.files.get index).ImportsFirst name link imported →
      link.isRelative = true →
      FirstChain project 8 (project.files.get index) link imported found →
      Means project index name found
  /-- No relative import binds it, and another file declares it. -/
  | elsewhere {found : FoundType} :
      ¬ (project.files.get index).Declares name →
      (∀ link imported, (project.files.get index).ImportsFirst name link imported →
        link.isRelative = false) →
      FirstDeclaring (project.files.eraseIdx index) name found →
      Means project index name found

/-! ### Declarations of one file -/

private theorem typeNamed?_eq_some_iff (file : SourceFile) (name : String)
    (declaration : TypeDeclaration) :
    file.typeNamed? name = some declaration ↔ file.DeclaresFirst name declaration := by
  unfold SourceFile.typeNamed? SourceFile.DeclaresFirst
  rw [List.find?_eq_some_iff_append]
  constructor
  · rintro ⟨hname, before, after, hsplit, hbefore⟩
    refine ⟨before, after, hsplit, by simpa using hname, ?_⟩
    intro other hother
    simpa using hbefore other hother
  · rintro ⟨before, after, hsplit, hname, hbefore⟩
    refine ⟨by simpa using hname, before, after, hsplit, ?_⟩
    intro other hother
    simpa using hbefore other hother

private theorem typeNamed?_eq_none_iff (file : SourceFile) (name : String) :
    file.typeNamed? name = none ↔ ¬ file.Declares name := by
  simp [SourceFile.typeNamed?, SourceFile.Declares]

private theorem ownType?_eq_some_iff (file : SourceFile) (name : String) (found : FoundType) :
    ownType? file name = some found ↔ found.1 = file ∧ file.DeclaresFirst name found.2 := by
  obtain ⟨owner, declaration⟩ := found
  simp only [ownType?, Option.map_eq_some_iff, Prod.mk.injEq, typeNamed?_eq_some_iff]
  constructor
  · rintro ⟨other, hfirst, rfl, rfl⟩
    exact ⟨rfl, hfirst⟩
  · rintro ⟨rfl, hfirst⟩
    exact ⟨declaration, hfirst, rfl, rfl⟩

/-- A file has no type of a name exactly if it does not declare one. -/
theorem ownType?_eq_none_iff (file : SourceFile) (name : String) :
    ownType? file name = none ↔ ¬ file.Declares name := by
  rw [ownType?, Option.map_eq_none_iff, typeNamed?_eq_none_iff]

/-! ### Names over one link -/

private theorem there?_eq_some_iff (link : Link) (name renamed : String) :
    link.there? name = some renamed ↔ link.Renames name renamed := by
  simp only [Link.there?, Option.map_eq_some_iff, List.find?_eq_some_iff_append, Link.Renames]
  constructor
  · rintro ⟨linked, ⟨hhere, before, after, hsplit, hbefore⟩, rfl⟩
    refine ⟨before, linked, after, hsplit, by simpa using hhere, rfl, ?_⟩
    intro other hother
    simpa using hbefore other hother
  · rintro ⟨before, linked, after, hsplit, hhere, rfl, hbefore⟩
    refine ⟨linked, ⟨by simpa using hhere, before, after, hsplit, ?_⟩, rfl⟩
    intro other hother
    simpa using hbefore other hother

private theorem forwarded?_eq_some_iff (link : Link) (name renamed : String) :
    forwarded? link name = some renamed ↔ link.PassesOn name renamed := by
  unfold forwarded? Link.PassesOn
  by_cases hkind : link.kind = .passesOn ∧ link.isRelative = true
  · rw [if_pos hkind]
    cases hwild : link.wildcard with
    | true => simp [hkind, eq_comm]
    | false => simp [hkind, there?_eq_some_iff]
  · rw [if_neg hkind]
    simp only [reduceCtorEq, false_iff, not_and]
    intro hpasses hrelative
    exact absurd ⟨hpasses, hrelative⟩ hkind

private theorem there?_eq_none_iff (link : Link) (name : String) :
    link.there? name = none ↔ ∀ linked ∈ link.names, linked.here ≠ name := by
  simp [Link.there?]

private theorem importOf?_eq_some_iff (file : SourceFile) (name : String) (link : Link)
    (imported : String) :
    importOf? file name = some (link, imported) ↔ file.ImportsFirst name link imported := by
  have hbinds (other : Link) (found : Link × String) :
      (if decide (other.kind = .brings) = true then
        (other.there? name).map fun there ↦ (other, there) else none) = some found ↔
      other.kind = .brings ∧ found.1 = other ∧ other.Renames name found.2 := by
    obtain ⟨holder, renamed⟩ := found
    by_cases hkind : other.kind = .brings
    · simp only [hkind, decide_true, if_true, Option.map_eq_some_iff, Prod.mk.injEq,
        there?_eq_some_iff, true_and]
      constructor
      · rintro ⟨there, hrenames, rfl, rfl⟩
        exact ⟨rfl, hrenames⟩
      · rintro ⟨rfl, hrenames⟩
        exact ⟨renamed, hrenames, rfl, rfl⟩
    · simp [hkind]
  have hfree (other : Link) :
      (if decide (other.kind = .brings) = true then
        (other.there? name).map fun there ↦ (other, there) else none) = none ↔
      (other.kind = .brings → ∀ linked ∈ other.names, linked.here ≠ name) := by
    by_cases hkind : other.kind = .brings
    · simp [hkind, there?_eq_none_iff]
    · simp [hkind]
  unfold importOf? SourceFile.ImportsFirst
  rw [findSome?_filter, List.findSome?_eq_some_iff]
  simp only [hbinds, hfree]
  constructor
  · rintro ⟨before, other, after, hsplit, ⟨hkind, rfl, hrenames⟩, hbefore⟩
    exact ⟨before, after, hsplit, hkind, hrenames, hbefore⟩
  · rintro ⟨before, after, hsplit, hkind, hrenames, hbefore⟩
    exact ⟨before, link, after, hsplit, ⟨hkind, rfl, hrenames⟩, hbefore⟩

/-! ### Chains -/

-- One module further along a chain: declared there, or passed on by one of its links.
private theorem linkedType?_of_resolved {project : Project} {origin target : SourceFile}
    {link : Link} (forwards : Nat) (name : String)
    (htarget : project.resolve? origin link.specifier = some target) :
    project.linkedType? (forwards + 1) origin link name =
      (ownType? target name).or (target.links.findSome? fun next ↦
        (forwarded? next name).bind fun renamed ↦
          project.linkedType? forwards target next renamed) := by
  rw [linkedType?, htarget, Option.bind_some]

private theorem linkedType?_isSome_of_chain {project : Project} {origin : SourceFile}
    {link : Link} {name : String} {path : List Nat} {found : FoundType}
    (h : Chain project origin link name path found) (forwards : Nat)
    (hlength : path.length ≤ forwards) :
    (project.linkedType? forwards origin link name).isSome = true := by
  induction h generalizing forwards with
  | @declared origin link name target declaration htarget hfirst =>
    have hown : ownType? target name = some (target, declaration) :=
      (ownType?_eq_some_iff target name _).mpr ⟨rfl, hfirst⟩
    cases forwards with
    | zero => rw [linkedType?, htarget, Option.bind_some, hown]; rfl
    | succ forwards => rw [linkedType?_of_resolved forwards name htarget, hown]; rfl
  | @passedOn origin link name target position next renamed path found htarget hfree hnext
      hpasses _ ih =>
    cases forwards with
    | zero => simp at hlength
    | succ forwards =>
      have hrest := ih forwards (by simpa using hlength)
      have hforwarded := (forwarded?_eq_some_iff next name renamed).mpr hpasses
      rw [linkedType?_of_resolved forwards name htarget,
        (ownType?_eq_none_iff target name).mpr hfree, Option.none_or]
      apply List.findSome?_isSome_iff.mpr
      refine ⟨next, List.mem_of_getElem? hnext, ?_⟩
      rw [hforwarded, Option.bind_some]
      exact hrest

private theorem Chain.unique {project : Project} {origin : SourceFile} {link : Link}
    {name : String} {path : List Nat} {found found' : FoundType}
    (h : Chain project origin link name path found)
    (h' : Chain project origin link name path found') : found = found' := by
  induction h with
  | @declared origin link name target declaration htarget hfirst =>
    cases h' with
    | declared htarget' hfirst' =>
      obtain rfl := Option.some.inj (htarget.symm.trans htarget')
      have hsame := (typeNamed?_eq_some_iff target name declaration).mpr hfirst
      rw [(typeNamed?_eq_some_iff target name _).mpr hfirst'] at hsame
      rw [Option.some.inj hsame]
  | @passedOn origin link name target position next renamed path found htarget hfree hnext
      hpasses _ ih =>
    cases h' with
    | passedOn htarget' _ hnext' hpasses' hchain' =>
      obtain rfl := Option.some.inj (htarget.symm.trans htarget')
      obtain rfl := Option.some.inj (hnext.symm.trans hnext')
      have hsame := (forwarded?_eq_some_iff next name renamed).mpr hpasses
      rw [(forwarded?_eq_some_iff next name _).mpr hpasses'] at hsame
      obtain rfl := Option.some.inj hsame
      exact ih hchain'

private theorem eq_of_not_lex {path other : List Nat} (h : ¬ List.Lex (· < ·) other path)
    (h' : ¬ List.Lex (· < ·) path other) : path = other := by
  induction path generalizing other with
  | nil =>
    cases other with
    | nil => rfl
    | cons position other => exact absurd .nil h'
  | cons position path ih =>
    cases other with
    | nil => exact absurd .nil h
    | cons position' other =>
      have hposition : position = position' := by
        have hle : ¬ position' < position := fun hlt ↦ h (.rel hlt)
        have hge : ¬ position < position' := fun hlt ↦ h' (.rel hlt)
        omega
      subst hposition
      rw [ih (fun hlex ↦ h (.cons hlex)) fun hlex ↦ h' (.cons hlex)]

private theorem firstChain_of_own {project : Project} (forwards : Nat)
    {origin target : SourceFile} {link : Link} {name : String} {found : FoundType}
    (htarget : project.resolve? origin link.specifier = some target)
    (hown : ownType? target name = some found) :
    FirstChain project forwards origin link name found := by
  obtain ⟨rfl, hfirst⟩ := (ownType?_eq_some_iff target name found).mp hown
  exact ⟨[], .declared htarget hfirst, Nat.zero_le _, fun _ _ _ _ ↦ List.not_lex_nil⟩

private theorem firstChain_of_passedOn {project : Project} {forwards : Nat}
    {origin target : SourceFile} {link next : Link} {name renamed : String} {position : Nat}
    {found : FoundType} (htarget : project.resolve? origin link.specifier = some target)
    (hfree : ¬ target.Declares name) (hnext : target.links[position]? = some next)
    (hpasses : next.PassesOn name renamed)
    (hearlier : ∀ earlier < position, ∀ other, target.links[earlier]? = some other →
      ((forwarded? other name).bind fun renamed ↦
        project.linkedType? forwards target other renamed) = none)
    (hrest : FirstChain project forwards target next renamed found) :
    FirstChain project (forwards + 1) origin link name found := by
  obtain ⟨path, hchain, hlength, hleast⟩ := hrest
  refine ⟨position :: path, .passedOn htarget hfree hnext hpasses hchain, by simpa using hlength,
    ?_⟩
  intro other found' hother hbound
  cases hother with
  | declared htarget' hfirst' =>
    obtain rfl := Option.some.inj (htarget.symm.trans htarget')
    have hnone := (ownType?_eq_none_iff target name).mpr hfree
    rw [(ownType?_eq_some_iff target name (target, _)).mpr ⟨rfl, hfirst'⟩] at hnone
    cases hnone
  | @passedOn _ _ _ target' position' next' renamed' path' _ htarget' _ hnext' hpasses' hchain' =>
    obtain rfl : target = target' := Option.some.inj (htarget.symm.trans htarget')
    have hshort : path'.length ≤ forwards := by simpa using hbound
    have hforwarded' := (forwarded?_eq_some_iff next' name renamed').mpr hpasses'
    intro hbefore
    cases hbefore with
    | rel hlt =>
      have hnone := hearlier position' hlt next' hnext'
      rw [hforwarded', Option.bind_some] at hnone
      have hsome := linkedType?_isSome_of_chain hchain' forwards hshort
      simp [hnone] at hsome
    | cons hbefore =>
      obtain rfl : next = next' := Option.some.inj (hnext.symm.trans hnext')
      rw [(forwarded?_eq_some_iff next name renamed).mpr hpasses] at hforwarded'
      obtain rfl : renamed = renamed' := Option.some.inj hforwarded'
      exact hleast path' found' hchain' hshort hbefore

private theorem firstChain_of_linkedType? {project : Project} (forwards : Nat)
    {origin : SourceFile} {link : Link} {name : String} {found : FoundType}
    (h : project.linkedType? forwards origin link name = some found) :
    FirstChain project forwards origin link name found := by
  induction forwards generalizing origin link name with
  | zero =>
    rw [linkedType?] at h
    obtain ⟨target, htarget, hown⟩ := Option.bind_eq_some_iff.mp h
    exact firstChain_of_own 0 htarget hown
  | succ forwards ih =>
    rw [linkedType?] at h
    obtain ⟨target, htarget, hstep⟩ := Option.bind_eq_some_iff.mp h
    rcases Option.or_eq_some_iff.mp hstep with hown | ⟨hnone, hlinks⟩
    · exact firstChain_of_own (forwards + 1) htarget hown
    · obtain ⟨position, next, hnext, hfound, hearlier⟩ := findSome?_eq_some_position hlinks
      obtain ⟨renamed, hrenamed, hrest⟩ := Option.bind_eq_some_iff.mp hfound
      exact firstChain_of_passedOn htarget ((ownType?_eq_none_iff target name).mp hnone) hnext
        ((forwarded?_eq_some_iff next name renamed).mp hrenamed) hearlier (ih hrest)

private theorem linkedType?_eq_some_iff (project : Project) (forwards : Nat)
    (origin : SourceFile) (link : Link) (name : String) (found : FoundType) :
    project.linkedType? forwards origin link name = some found ↔
      FirstChain project forwards origin link name found := by
  refine ⟨firstChain_of_linkedType? forwards, ?_⟩
  rintro ⟨path, hchain, hlength, hleast⟩
  obtain ⟨found', hfound'⟩ :=
    Option.isSome_iff_exists.mp (linkedType?_isSome_of_chain hchain forwards hlength)
  obtain ⟨path', hchain', hlength', hleast'⟩ := firstChain_of_linkedType? forwards hfound'
  have hfirst := hleast path' found' hchain' hlength'
  have hfirst' := hleast' path found hchain hlength
  obtain rfl : path = path' := eq_of_not_lex hfirst hfirst'
  rw [hfound', hchain.unique hchain']

private theorem linkedType?_isSome_iff (project : Project) (forwards : Nat)
    (origin : SourceFile) (link : Link) (name : String) :
    (project.linkedType? forwards origin link name).isSome = true ↔
      ∃ path found, Chain project origin link name path found ∧ path.length ≤ forwards := by
  constructor
  · intro h
    obtain ⟨found, hfound⟩ := Option.isSome_iff_exists.mp h
    obtain ⟨path, hchain, hlength, -⟩ := firstChain_of_linkedType? forwards hfound
    exact ⟨path, found, hchain, hlength⟩
  · rintro ⟨path, found, hchain, hlength⟩
    exact linkedType?_isSome_of_chain hchain forwards hlength

/-! ### The rest of the project -/

private theorem findSome?_ownType?_eq_some_iff (files : List SourceFile) (name : String)
    (found : FoundType) :
    (files.findSome? fun file ↦ ownType? file name) = some found ↔
      FirstDeclaring files name found := by
  rw [List.findSome?_eq_some_iff]
  simp only [ownType?_eq_some_iff, ownType?_eq_none_iff, FirstDeclaring]
  constructor
  · rintro ⟨before, file, after, hsplit, ⟨rfl, hfirst⟩, hbefore⟩
    exact ⟨before, after, hsplit, hfirst, hbefore⟩
  · rintro ⟨before, after, hsplit, hfirst, hbefore⟩
    exact ⟨before, found.1, after, hsplit, ⟨rfl, hfirst⟩, hbefore⟩

private theorem anyType?_eq_some_iff {project : Project} {index : Fin project.files.length}
    {name : String} (hfree : ¬ (project.files.get index).Declares name) (found : FoundType) :
    project.anyType? name = some found ↔
      FirstDeclaring (project.files.eraseIdx index) name found := by
  rw [← findSome?_ownType?_eq_some_iff, anyType?, findSome?_eraseIdx index.isLt]
  exact (ownType?_eq_none_iff _ name).mpr hfree

/-! ### The lookup -/

/-- A type that the file declares is found there. -/
theorem findType?_of_declared {project : Project} {origin : SourceFile} {name : String}
    {declaration : TypeDeclaration} (hfirst : origin.DeclaresFirst name declaration) :
    project.findType? origin name = some (origin, declaration) := by
  rw [findType?, (ownType?_eq_some_iff origin name (origin, declaration)).mpr ⟨rfl, hfirst⟩]
  rfl

/-- A type that is not declared but imported is looked up through the import. -/
theorem findType?_of_imported {project : Project} {origin : SourceFile} {name : String}
    {link : Link} {imported : String} (hfree : ¬ origin.Declares name)
    (himport : origin.ImportsFirst name link imported) (hrelative : link.isRelative = true) :
    project.findType? origin name = project.linkedType? maxForwards origin link imported := by
  rw [findType?, (ownType?_eq_none_iff origin name).mpr hfree, Option.none_or,
    (importOf?_eq_some_iff origin name link imported).mpr himport]
  simp only [hrelative, if_true]

private theorem findType?_of_unbound {project : Project} {origin : SourceFile} {name : String}
    (hfree : ¬ origin.Declares name)
    (hunbound : ∀ link imported, origin.ImportsFirst name link imported →
      link.isRelative = false) :
    project.findType? origin name = project.anyType? name := by
  rw [findType?, (ownType?_eq_none_iff origin name).mpr hfree, Option.none_or]
  cases himport : importOf? origin name with
  | none => rfl
  | some binding =>
    obtain ⟨link, imported⟩ := binding
    have hrelative := hunbound link imported
      ((importOf?_eq_some_iff origin name link imported).mp himport)
    simp only [hrelative, Bool.false_eq_true, if_false]

/-- Of the declarations of a name one is the first. -/
theorem declaresFirst_of_declares {file : SourceFile} {name : String}
    (h : file.Declares name) : ∃ declaration, file.DeclaresFirst name declaration := by
  cases hnamed : file.typeNamed? name with
  | none => exact absurd h ((typeNamed?_eq_none_iff file name).mp hnamed)
  | some declaration =>
    exact ⟨declaration, (typeNamed?_eq_some_iff file name declaration).mp hnamed⟩

private theorem means_of_findType? {project : Project} {index : Fin project.files.length}
    {name : String} {found : FoundType}
    (h : project.findType? (project.files.get index) name = some found) :
    Means project index name found := by
  by_cases hown : (project.files.get index).Declares name
  · obtain ⟨declaration, hfirst⟩ := declaresFirst_of_declares hown
    rw [findType?_of_declared hfirst] at h
    obtain rfl := Option.some.inj h
    exact .own hfirst
  · by_cases hbound : ∃ link imported,
        (project.files.get index).ImportsFirst name link imported ∧ link.isRelative = true
    · obtain ⟨link, imported, himport, hrelative⟩ := hbound
      rw [findType?_of_imported hown himport hrelative] at h
      exact .imported hown himport hrelative ((linkedType?_eq_some_iff ..).mp h)
    · have hunbound : ∀ link imported,
          (project.files.get index).ImportsFirst name link imported →
            link.isRelative = false := by
        intro link imported himport
        apply Bool.eq_false_iff.mpr
        intro hrelative
        exact hbound ⟨link, imported, himport, hrelative⟩
      rw [findType?_of_unbound hown hunbound] at h
      exact .elsewhere hown hunbound ((anyType?_eq_some_iff hown found).mp h)

private theorem findType?_of_means {project : Project} {index : Fin project.files.length}
    {name : String} {found : FoundType} (h : Means project index name found) :
    project.findType? (project.files.get index) name = some found := by
  cases h with
  | own hfirst => exact findType?_of_declared hfirst
  | imported hfree himport hrelative hchain =>
    rw [findType?_of_imported hfree himport hrelative]
    exact (linkedType?_eq_some_iff ..).mpr hchain
  | elsewhere hfree hunbound hfirst =>
    rw [findType?_of_unbound hfree hunbound]
    exact (anyType?_eq_some_iff hfree found).mpr hfirst

/-- The lookup finds exactly what a type name means. Where a relative import binds a name that the
file does not declare, it finds something exactly if there is a chain with at most eight hops
after the import, whatever the rest of the project declares. -/
theorem findType?_eq_some_iff_means (project : Project) (index : Fin project.files.length)
    (name : String) :
    (∀ found, project.findType? (project.files.get index) name = some found ↔
      Means project index name found) ∧
    (∀ link imported, ¬ (project.files.get index).Declares name →
      (project.files.get index).ImportsFirst name link imported → link.isRelative = true →
      ((project.findType? (project.files.get index) name).isSome = true ↔
        ∃ path found, Chain project (project.files.get index) link imported path found ∧
          path.length ≤ 8)) := by
  constructor
  · exact fun found ↦ ⟨means_of_findType?, findType?_of_means⟩
  · intro link imported hfree himport hrelative
    rw [findType?_of_imported hfree himport hrelative]
    exact linkedType?_isSome_iff project 8 (project.files.get index) link imported

end Project

end PropDoc
