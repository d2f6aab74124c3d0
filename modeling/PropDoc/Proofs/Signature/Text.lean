import PropDoc.Proofs.Signature.Form

/-!
# What a text says of its type

A text does not show where a union stands in a union, nor that a function is over before the next
alternative of a union comes: alternatives that follow a function are read as part of its result. A
type that does neither is seen from its text.
-/

namespace PropDoc.Signature

/-- A type made of words by arrays, tuples, functions and unions of at least two elements. -/
inductive Simple : Signature → Prop where
  | primitive {type : Primitive} : Simple (.primitive type)
  | unknown : Simple .unknown
  | reference {text : String} : IsWord text → text ∉ keywords → Simple (.reference text)
  | array {element : Signature} : element.Simple → Simple (.array element)
  | tuple {elements : List Signature} :
      (∀ element ∈ elements, element.Simple) → Simple (.tuple elements)
  | function {arguments : List (Argument Signature)} {returns : Signature} :
      (∀ argument ∈ arguments, IsWord argument.name) →
      (∀ argument ∈ arguments, argument.type.Simple) → returns.Simple →
      Simple (.function arguments returns)
  | union {first second : Signature} {elements : List Signature} :
      (∀ element ∈ first :: second :: elements, element.Simple) →
      Simple (.union (first :: second :: elements))

/-- The alternatives of a type: the elements of a union, or the type alone. -/
def choices : Signature → List Signature
  | union elements => elements
  | type => [type]

mutual

/-- A type with the elements of a union among the elements of a union in its place, at any depth. -/
def flattened : Signature → Signature
  | union elements => union (flattenedChoices elements)
  | array element => array element.flattened
  | tuple elements => tuple (flattenedAll elements)
  | function arguments returns => function (flattenedArguments arguments) returns.flattened
  | object properties => object (flattenedProperties properties)
  | primitive type => primitive type
  | literal text => literal text
  | reference text => reference text
  | unknown => unknown

/-- The alternatives of some elements of a union. -/
def flattenedChoices : List Signature → List Signature
  | [] => []
  | element :: elements => element.flattened.choices ++ flattenedChoices elements

/-- Some types, flattened one by one. -/
def flattenedAll : List Signature → List Signature
  | [] => []
  | element :: elements => element.flattened :: flattenedAll elements

/-- The parameters of a function, with flattened types. -/
def flattenedArguments : List (Argument Signature) → List (Argument Signature)
  | [] => []
  | ⟨name, type⟩ :: arguments => ⟨name, type.flattened⟩ :: flattenedArguments arguments

/-- The members of an object, with flattened types. -/
def flattenedProperties : List (Property Signature) → List (Property Signature)
  | [] => []
  | ⟨key, required, type⟩ :: properties =>
    ⟨key, required, type.flattened⟩ :: flattenedProperties properties

end

/-- Whether a type is a function. -/
def isFunction : Signature → Bool
  | function .. => true
  | _ => false

/-- In no union, at any depth, a function comes before another alternative. -/
inductive Guarded : Signature → Prop where
  | primitive {type : Primitive} : Guarded (.primitive type)
  | literal {text : String} : Guarded (.literal text)
  | reference {text : String} : Guarded (.reference text)
  | unknown : Guarded .unknown
  | array {element : Signature} : element.Guarded → Guarded (.array element)
  | tuple {elements : List Signature} :
      (∀ element ∈ elements, element.Guarded) → Guarded (.tuple elements)
  | function {arguments : List (Argument Signature)} {returns : Signature} :
      (∀ argument ∈ arguments, argument.type.Guarded) → returns.Guarded →
      Guarded (.function arguments returns)
  | object {properties : List (Property Signature)} :
      (∀ property ∈ properties, property.type.Guarded) → Guarded (.object properties)
  | union {elements : List Signature} :
      (∀ element ∈ elements.dropLast, element.isFunction = false) →
      (∀ element ∈ elements, element.Guarded) → Guarded (.union elements)

/-! ### From a type to its form -/

mutual

/-- The form of a type, with what follows it. -/
def formThen : Signature → Tail → Form
  | .union [], tail => .leaf (.union []) tail
  | .union (element :: elements), tail => element.formThen (barThen elements tail)
  | .array element, tail =>
    if element.needsParentheses then .group (element.formThen .stop) tail
    else element.formThen (.array tail)
  | .tuple elements, tail => .tuple (forms elements) tail
  | .function arguments returns, tail => .taking (argumentForms arguments) (returns.formThen tail)
  | .primitive type, tail => .leaf (.primitive type) tail
  | .literal text, tail => .leaf (.literal text) tail
  | .reference text, tail => .leaf (.reference text) tail
  | .object properties, tail => .leaf (.object properties) tail
  | .unknown, tail => .leaf .unknown tail

/-- Further alternatives, with what follows them. -/
def barThen : List Signature → Tail → Tail
  | [], tail => tail
  | element :: elements, tail => .bar (element.formThen (barThen elements tail))

/-- The forms of the items of a tuple. -/
def forms : List Signature → List Form
  | [] => []
  | element :: elements => element.formThen .stop :: forms elements

/-- The forms of the parameters of a function. -/
def argumentForms : List (Argument Signature) → List (Argument Form)
  | [] => []
  | ⟨name, type⟩ :: arguments => ⟨name, type.formThen .stop⟩ :: argumentForms arguments

end

mutual

/-- The type that a form is read as. -/
def Form.read : Form → Signature
  | .leaf type tail => tail.after type
  | .tuple items tail => tail.after (.tuple (Form.readAll items))
  | .group inner tail => tail.after (.array inner.read)
  | .taking arguments result => .function (Form.readArguments arguments) result.read

/-- The type that a tail makes of what comes before it. -/
def Tail.after : Tail → Signature → Signature
  | .stop, type => type
  | .array tail, type => tail.after (.array type)
  | .bar rest, type => .union (type.choices ++ rest.read.choices)

/-- The types of the items of a tuple. -/
def Form.readAll : List Form → List Signature
  | [] => []
  | item :: items => item.read :: Form.readAll items

/-- The parameters of a function as they are read. -/
def Form.readArguments : List (Argument Form) → List (Argument Signature)
  | [] => []
  | ⟨name, type⟩ :: arguments => ⟨name, type.read⟩ :: Form.readArguments arguments

end

/-- A type as its text is read. -/
def regrouped (type : Signature) : Signature := (type.formThen .stop).read

section Lists

variable (elements : List Signature) (arguments : List (Argument Signature))

private theorem texts_eq_map : texts elements = elements.map text := by
  induction elements with
  | nil => rfl
  | cons element elements ih => rw [texts, ih, List.map_cons]

private theorem argumentTexts_eq_map :
    argumentTexts arguments =
      arguments.map fun argument ↦ argument.name ++ ": " ++ argument.type.text := by
  induction arguments with
  | nil => rfl
  | cons argument arguments ih => rw [argumentTexts, ih, List.map_cons]

private theorem flattenedAll_eq_map : flattenedAll elements = elements.map flattened := by
  induction elements with
  | nil => rfl
  | cons element elements ih => rw [flattenedAll, ih, List.map_cons]

private theorem flattenedArguments_eq_map : flattenedArguments arguments =
    arguments.map fun argument ↦ { argument with type := argument.type.flattened } := by
  induction arguments with
  | nil => rfl
  | cons argument arguments ih => rw [flattenedArguments, ih, List.map_cons]

private theorem forms_eq_map : forms elements = elements.map (formThen · .stop) := by
  induction elements with
  | nil => rfl
  | cons element elements ih => rw [forms, ih, List.map_cons]

private theorem argumentForms_eq_map : argumentForms arguments =
    arguments.map fun argument ↦ ⟨argument.name, argument.type.formThen .stop⟩ := by
  induction arguments with
  | nil => rfl
  | cons argument arguments ih => rw [argumentForms, ih, List.map_cons]

private theorem Form.readAll_eq_map (items : List Form) : readAll items = items.map read := by
  induction items with
  | nil => rfl
  | cons item items ih => rw [readAll, ih, List.map_cons]

private theorem Form.readArguments_eq_map (arguments : List (Argument Form)) :
    readArguments arguments =
      arguments.map fun argument ↦ ⟨argument.name, argument.type.read⟩ := by
  induction arguments with
  | nil => rfl
  | cons argument arguments ih => rw [readArguments, ih, List.map_cons]

end Lists

variable {a b x : Signature} {t : Tail}

private theorem text_union_cons (element : Signature) (elements : List Signature) :
    (union (element :: elements)).text.toList = element.text.toList ++
      (elements.map fun element ↦ element.text.toList).flatMap ([' ', '|', ' '] ++ ·) := by
  rw [text, texts_eq_map, String.toList_intercalate, List.map_map, List.map_cons,
    intercalate_cons_eq_flatMap]
  rfl

/-- What comes after the first alternative of a union. -/
theorem chars_barThen {elements : List Signature} (t : Tail)
    (h : ∀ element ∈ elements, ∀ t : Tail,
      (element.formThen t).chars = element.text.toList ++ t.chars) :
    (barThen elements t).chars =
      (elements.map fun element ↦ element.text.toList).flatMap ([' ', '|', ' '] ++ ·) ++
        t.chars := by
  induction elements with
  | nil => rfl
  | cons element elements ih =>
    rw [List.forall_mem_cons] at h
    rw [barThen, Tail.chars, h.1, ih h.2]
    simp

/-- The form of a type has its text. -/
theorem chars_formThen (ha : a.Simple) (t : Tail) :
    (a.formThen t).chars = a.text.toList ++ t.chars := by
  induction ha generalizing t with
  | primitive => rfl
  | unknown => rfl
  | reference _ _ => rfl
  | @array element _ ih =>
    rw [formThen, text]
    split
    · rw [Form.chars, ih, Tail.chars]
      simp
    · rw [ih, Tail.chars]
      simp
  | @tuple elements _ ih =>
    have hitems : Form.itemChars (forms elements) = (texts elements).map String.toList := by
      rw [Form.itemChars_eq_map, forms_eq_map, texts_eq_map, List.map_map, List.map_map]
      refine List.map_congr_left fun element helement ↦ ?_
      simpa [Tail.chars] using ih element helement .stop
    rw [formThen, Form.chars, hitems, text]
    simp [String.toList_intercalate]
  | @function arguments returns _ _ _ ihArguments ihReturns =>
    have harguments : Form.argumentChars (argumentForms arguments) =
        (argumentTexts arguments).map String.toList := by
      rw [Form.argumentChars_eq_map, argumentForms_eq_map, argumentTexts_eq_map, List.map_map,
        List.map_map]
      refine List.map_congr_left fun argument hargument ↦ ?_
      simpa [Form.namedChars, Tail.chars] using ihArguments argument hargument .stop
    rw [formThen, Form.chars, harguments, ihReturns, text]
    simp [String.toList_intercalate]
  | @union first second elements _ ih =>
    rw [List.forall_mem_cons] at ih
    rw [formThen, ih.1, chars_barThen t ih.2, text_union_cons, List.append_assoc]

private theorem worded_barThen {elements : List Signature} (ht : t.Worded)
    (h : ∀ element ∈ elements, ∀ {t : Tail}, t.Worded → (element.formThen t).Worded) :
    (barThen elements t).Worded := by
  induction elements with
  | nil => exact ht
  | cons element elements ih =>
    rw [List.forall_mem_cons] at h
    exact .bar (h.1 (ih h.2))

private theorem worded_formThen (ha : a.Simple) (ht : t.Worded) : (a.formThen t).Worded := by
  induction ha generalizing t with
  | primitive => exact .leaf .primitive ht
  | unknown => exact .leaf .unknown ht
  | reference hword hfree => exact .leaf (.reference hword hfree) ht
  | array _ ih =>
    rw [formThen]
    split
    · exact .group (ih .stop) ht
    · exact ih (.array ht)
  | @tuple elements _ ih =>
    refine .tuple ?_ ht
    rw [forms_eq_map, List.forall_mem_map]
    exact fun element helement ↦ ih element helement .stop
  | @function arguments returns hnames _ _ ihArguments ihReturns =>
    rw [formThen, argumentForms_eq_map]
    refine .taking ?_ ?_ (ihReturns ht) <;> rw [List.forall_mem_map]
    · exact hnames
    · exact fun argument hargument ↦ ihArguments argument hargument .stop
  | union _ ih =>
    rw [List.forall_mem_cons] at ih
    exact ih.1 (worded_barThen ht ih.2)

/-- Types with the same text are read alike. -/
theorem regrouped_eq_of_text_eq (ha : a.Simple) (hb : b.Simple) (h : a.text = b.text) :
    a.regrouped = b.regrouped := by
  refine congrArg Form.read
    (Form.eq_of_chars_eq (worded_formThen ha .stop) (worded_formThen hb .stop) ?_)
  rw [chars_formThen ha, chars_formThen hb, h]

/-! ### From a form to its type -/

private theorem choices_of_not_needsParentheses (h : x.needsParentheses = false) :
    x.choices = [x] := by
  cases x with
  | union => cases h
  | _ => rfl

private theorem flatMap_choices (h : x.choices ≠ []) :
    (x.choices.map fun choice ↦ choice.text.toList).flatMap ([' ', '|', ' '] ++ ·) =
      [' ', '|', ' '] ++ x.text.toList := by
  cases x with
  | union elements =>
    obtain ⟨element, rest, rfl⟩ := List.exists_cons_of_ne_nil h
    rw [text_union_cons]
    rfl
  | _ => simp [choices]

private theorem guarded_union {elements : List Signature} : (union elements).Guarded ↔
    (∀ element ∈ elements.dropLast, element.isFunction = false) ∧
      ∀ element ∈ elements, element.Guarded :=
  ⟨fun h ↦ by cases h with | union hfunctions helements => exact ⟨hfunctions, helements⟩,
    fun h ↦ .union h.1 h.2⟩

private theorem guarded_union_choices : (union x.choices).Guarded ↔ x.Guarded := by
  cases x with
  | union => rfl
  | _ => simp [guarded_union, choices]

private theorem guarded_union_append {first second : List Signature} (h : second ≠ []) :
    (union (first ++ second)).Guarded ↔
      (∀ element ∈ first, element.isFunction = false ∧ element.Guarded) ∧
        (union second).Guarded := by
  simp only [guarded_union, List.dropLast_append_of_ne_nil h, List.forall_mem_append, forall_and]
  tauto

private theorem guarded_of_append_left {first second : List Signature}
    (h : (union (first ++ second)).Guarded) : (union first).Guarded := by
  by_cases hsecond : second = []
  · simpa [hsecond] using h
  · have hfirst := ((guarded_union_append hsecond).mp h).1
    exact .union (fun element helement ↦ (hfirst element (first.dropLast_subset helement)).1)
      fun element helement ↦ (hfirst element helement).2

private theorem guarded_of_append_right {first second : List Signature}
    (h : (union (first ++ second)).Guarded) : (union second).Guarded := by
  by_cases hsecond : second = []
  · simp [hsecond, guarded_union]
  · exact ((guarded_union_append hsecond).mp h).2

/-- A type that is read from some text, of which nothing is lost. -/
structure Reads (type : Signature) (chars : List Char) : Prop where
  text : type.text.toList = chars
  ne : type.choices ≠ []
  guarded : type.Guarded

/-- A tail whose alternatives are read from their text. -/
inductive Tail.Sound : Tail → Prop where
  | stop : Tail.Sound .stop
  | array {tail : Tail} : tail.Sound → Tail.Sound (.array tail)
  | bar {rest : Form} : Reads rest.read rest.chars → Tail.Sound (.bar rest)

/-- A tail leaves the text before it as it was. -/
theorem Tail.Sound.reads_after (ht : t.Sound) {chars : List Char} (hx : Reads x chars)
    (hopen : x.needsParentheses = false) : Reads (t.after x) (chars ++ t.chars) := by
  induction ht generalizing x chars with
  | stop => simpa [Tail.after, Tail.chars] using hx
  | @array tail _ ih =>
    have helement : Reads (.array x) (chars ++ ['[', ']']) := by
      refine ⟨?_, List.cons_ne_nil _ _, .array hx.guarded⟩
      rw [Signature.text, hopen, ← hx.text]
      simp
    simpa [Tail.after, Tail.chars] using ih helement rfl
  | @bar rest hrest =>
    have hchoices := choices_of_not_needsParentheses hopen
    have hfunction : x.isFunction = false := by
      cases x with
      | function => cases hopen
      | _ => rfl
    rw [Tail.after, hchoices]
    refine ⟨?_, List.cons_ne_nil _ _, ?_⟩
    · rw [List.singleton_append, text_union_cons, flatMap_choices hrest.ne, hx.text, hrest.text,
        Tail.chars]
      rfl
    · rw [guarded_union_append hrest.ne]
      exact ⟨by simpa using ⟨hfunction, hx.guarded⟩, guarded_union_choices.mpr hrest.guarded⟩

/-- A tail with further alternatives in it. -/
inductive Tail.Barred : Tail → Prop where
  | array {tail : Tail} : tail.Barred → Tail.Barred (.array tail)
  | bar {rest : Form} : Tail.Barred (.bar rest)

private theorem Tail.Barred.needsParentheses_after (ht : t.Barred) (x : Signature) :
    (t.after x).needsParentheses = true := by
  induction ht generalizing x with
  | array _ ih => exact ih (.array x)
  | bar => rfl

private theorem barred_barThen (ht : t.Barred) (elements : List Signature) :
    (barThen elements t).Barred := by
  cases elements with
  | nil => exact ht
  | cons element elements => exact .bar

/-- With further alternatives after it, a type is read as a union, or as a function that takes them
up. -/
theorem needsParentheses_formThen (ha : a.Simple) (ht : t.Barred) :
    (a.formThen t).read.needsParentheses = true := by
  induction ha generalizing t with
  | array _ ih =>
    rw [formThen]
    split
    · exact ht.needsParentheses_after _
    · exact ih (.array ht)
  | function _ _ _ _ _ => rfl
  | union _ ih => exact ih _ List.mem_cons_self (barred_barThen ht _)
  | _ => exact ht.needsParentheses_after _

private theorem needsParentheses_regrouped (ha : a.Simple) (h : a.needsParentheses = true) :
    a.regrouped.needsParentheses = true := by
  cases ha with
  | function _ _ _ => rfl
  | union helements =>
    rw [regrouped, formThen]
    exact needsParentheses_formThen (helements _ List.mem_cons_self) .bar
  | _ => cases h

private theorem sound_barThen {elements : List Signature} (ht : t.Sound)
    (h : ∀ element ∈ elements, ∀ {t : Tail}, t.Sound →
      Reads (element.formThen t).read (element.formThen t).chars) :
    (barThen elements t).Sound := by
  induction elements with
  | nil => exact ht
  | cons element elements ih =>
    rw [List.forall_mem_cons] at h
    exact .bar (h.1 (ih h.2))

/-- The form of a type is read from its text. -/
theorem reads_formThen (ha : a.Simple) (ht : t.Sound) :
    Reads (a.formThen t).read (a.formThen t).chars := by
  induction ha generalizing t with
  | primitive => exact ht.reads_after ⟨rfl, List.cons_ne_nil _ _, .primitive⟩ rfl
  | unknown => exact ht.reads_after ⟨rfl, List.cons_ne_nil _ _, .unknown⟩ rfl
  | reference _ _ => exact ht.reads_after ⟨rfl, List.cons_ne_nil _ _, .reference⟩ rfl
  | @array element helement ih =>
    rw [formThen]
    split
    next hopen =>
      have hinner := needsParentheses_regrouped helement hopen
      have hread : Reads (.array (element.formThen .stop).read)
          ('(' :: ((element.formThen .stop).chars ++ [')', '[', ']'])) := by
        refine ⟨?_, List.cons_ne_nil _ _, .array (ih .stop).guarded⟩
        rw [regrouped] at hinner
        rw [text, hinner, ← (ih .stop).text]
        simp
      simpa [Form.read, Form.chars] using ht.reads_after hread rfl
    · exact ih (.array ht)
  | @tuple elements _ ih =>
    have hitems : (texts (Form.readAll (forms elements))).map String.toList =
        Form.itemChars (forms elements) := by
      rw [texts_eq_map, Form.readAll_eq_map, Form.itemChars_eq_map, forms_eq_map, List.map_map,
        List.map_map, List.map_map, List.map_map]
      exact List.map_congr_left fun element helement ↦ (ih element helement .stop).text
    have hread : Reads (.tuple (Form.readAll (forms elements)))
        ('[' :: ([',', ' '].intercalate (Form.itemChars (forms elements)) ++ [']'])) := by
      refine ⟨?_, List.cons_ne_nil _ _, .tuple ?_⟩
      · rw [text, ← hitems]
        simp [String.toList_intercalate]
      · rw [Form.readAll_eq_map, forms_eq_map, List.map_map, List.forall_mem_map]
        exact fun element helement ↦ (ih element helement .stop).guarded
    simpa [formThen, Form.read, Form.chars] using ht.reads_after hread rfl
  | @function arguments returns _ _ _ ihArguments ihReturns =>
    have harguments : (argumentTexts (Form.readArguments (argumentForms arguments))).map
        String.toList = Form.argumentChars (argumentForms arguments) := by
      rw [argumentTexts_eq_map, Form.readArguments_eq_map, Form.argumentChars_eq_map,
        argumentForms_eq_map, List.map_map, List.map_map, List.map_map, List.map_map]
      refine List.map_congr_left fun argument hargument ↦ ?_
      simp [Form.namedChars, (ihArguments argument hargument .stop).text]
    rw [formThen, Form.read, Form.chars]
    refine ⟨?_, List.cons_ne_nil _ _, .function ?_ (ihReturns ht).guarded⟩
    · rw [text, ← harguments, ← (ihReturns ht).text]
      simp [String.toList_intercalate]
    · rw [Form.readArguments_eq_map, argumentForms_eq_map, List.map_map, List.forall_mem_map]
      exact fun argument hargument ↦ (ihArguments argument hargument .stop).guarded
  | union _ ih =>
    rw [List.forall_mem_cons] at ih
    exact ih.1 (sound_barThen ht ih.2)

/-- A type has the text of what its text is read as. -/
theorem text_regrouped (ha : a.Simple) : a.regrouped.text = a.text := by
  rw [← String.toList_inj, regrouped, (reads_formThen ha .stop).text, chars_formThen ha,
    Tail.chars, List.append_nil]

private theorem guarded_regrouped (ha : a.Simple) : a.regrouped.Guarded :=
  (reads_formThen ha .stop).guarded

/-! ### Reading back a flattened type -/

/-- The alternatives that a tail adds. -/
def Tail.choices : Tail → List Signature
  | .stop => []
  | .array _ => []
  | .bar rest => rest.read.choices

/-- A tail that does not go on with an array. -/
inductive Tail.Closing : Tail → Prop where
  | stop : Tail.Closing .stop
  | bar {rest : Form} : Tail.Closing (.bar rest)

private theorem Tail.Closing.choices_after (ht : t.Closing) (x : Signature) :
    (t.after x).choices = x.choices ++ t.choices := by
  cases ht with
  | stop => rw [Tail.after, Tail.choices, List.append_nil]
  | bar => rfl

private theorem Tail.Closing.after_union (ht : t.Closing) (elements : List Signature) :
    t.after (.union elements) = .union (elements ++ t.choices) := by
  cases ht with
  | stop => rw [Tail.after, Tail.choices, List.append_nil]
  | bar => rfl

private theorem closing_barThen (ht : t.Closing) (elements : List Signature) :
    (barThen elements t).Closing := by
  cases elements with
  | nil => exact ht
  | cons element elements => exact .bar

private theorem Tail.guarded_of_after (ht : t.Sound) (h : (t.after x).Guarded) : x.Guarded := by
  induction ht generalizing x with
  | stop => exact h
  | array _ ih =>
    cases ih h with
    | array helement => exact helement
  | bar _ => exact guarded_union_choices.mp (guarded_of_append_left h)

/-- A type before a tail is read back up to flattening, if that leaves no function before another
alternative. The tail of a union or a function starts no array: there they are in parentheses. -/
def ReadsBack (a : Signature) : Prop :=
  ∀ ⦃t : Tail⦄, t.Sound → (a.needsParentheses = true → t.Closing) →
    (t.after a.flattened).Guarded → (a.formThen t).read = t.after a.flattened

private theorem ReadsBack.regrouped_eq (h : a.ReadsBack) (hguarded : a.flattened.Guarded) :
    a.regrouped = a.flattened :=
  h .stop (fun _ ↦ .stop) hguarded

/-- The alternatives after the first are read one by one. Each is before the tail that the next ones
make, which is guarded because it comes out as the flattened rest. -/
theorem choices_barThen {elements : List Signature} (ht : t.Sound) (hclosing : t.Closing)
    (helements : ∀ element ∈ elements, element.Simple)
    (hread : ∀ element ∈ elements, element.ReadsBack)
    (h : (union (flattenedChoices elements ++ t.choices)).Guarded) :
    (barThen elements t).choices = flattenedChoices elements ++ t.choices := by
  induction elements with
  | nil => rfl
  | cons element elements ih =>
    rw [List.forall_mem_cons] at helements hread
    rw [flattenedChoices, List.append_assoc] at h ⊢
    have hrest := ih helements.2 hread.2 (guarded_of_append_right h)
    have hclosing' := closing_barThen hclosing elements
    have hsound := sound_barThen ht fun element h _ ↦ reads_formThen (helements.2 element h)
    have hchoices := hclosing'.choices_after element.flattened
    rw [hrest] at hchoices
    rw [barThen, Tail.choices, hread.1 hsound (fun _ ↦ hclosing') ?_, hchoices]
    rwa [← guarded_union_choices, hchoices]

/-- Every type is read back in this sense. -/
theorem readsBack (ha : a.Simple) : a.ReadsBack := by
  induction ha with
  | primitive => exact fun _ _ _ _ ↦ rfl
  | unknown => exact fun _ _ _ _ ↦ rfl
  | reference _ _ => exact fun _ _ _ _ ↦ rfl
  | @array element _ ih =>
    intro t ht _ h
    rw [formThen]
    split
    · cases Tail.guarded_of_after ht h with
      | array hguarded =>
        rw [Form.read, ← regrouped, ih.regrouped_eq hguarded]
        rfl
    next hopen => exact ih (.array ht) (fun h ↦ absurd h hopen) h
  | @tuple elements _ ih =>
    intro t ht _ h
    cases Tail.guarded_of_after ht h with
    | tuple hguarded =>
      rw [flattenedAll_eq_map, List.forall_mem_map] at hguarded
      rw [formThen, Form.read, flattened, Form.readAll_eq_map, forms_eq_map, flattenedAll_eq_map,
        List.map_map]
      congr 2
      exact List.map_congr_left fun element helement ↦
        (ih element helement).regrouped_eq (hguarded element helement)
  | @function arguments returns _ _ _ ihArguments ihReturns =>
    intro t ht hclosing h
    -- What follows a function would be read as part of its result, so nothing does.
    have hstop : t = .stop := by
      cases ht with
      | stop => rfl
      | array _ => exact nomatch hclosing rfl
      | bar hrest =>
        have hfunction := ((guarded_union_append hrest.ne).mp h).1 _ List.mem_cons_self
        cases hfunction.1
    subst hstop
    cases h with
    | function hguarded hreturns =>
      rw [flattenedArguments_eq_map, List.forall_mem_map] at hguarded
      rw [formThen, Form.read, ← regrouped, ihReturns.regrouped_eq hreturns, flattened,
        Form.readArguments_eq_map, argumentForms_eq_map, flattenedArguments_eq_map, List.map_map]
      congr 1
      refine List.map_congr_left fun argument hargument ↦ ?_
      have htype := (ihArguments argument hargument).regrouped_eq (hguarded argument hargument)
      rw [← htype]
      rfl
  | @union first second elements helements ih =>
    intro t ht hclosing h
    have hclosing := hclosing rfl
    rw [flattened, hclosing.after_union, flattenedChoices, List.append_assoc] at h ⊢
    rw [List.forall_mem_cons] at helements ih
    have hchoices := choices_barThen ht hclosing helements.2 ih.2 (guarded_of_append_right h)
    -- The first alternative is before a bar, where all others are added to it at once.
    have hafter : (barThen (second :: elements) t).after first.flattened =
        .union (first.flattened.choices ++
          (flattenedChoices (second :: elements) ++ t.choices)) := by
      rw [← hchoices]
      rfl
    have hsound := sound_barThen ht fun element h _ ↦ reads_formThen (helements.2 element h)
    rw [formThen, ih.1 hsound (fun _ ↦ .bar) (hafter ▸ h), hafter]

/-- A type is read back, up to flattening, if and only if no alternative comes after a function. -/
theorem regrouped_eq_flattened_iff (ha : a.Simple) :
    a.regrouped = a.flattened ↔ a.flattened.Guarded :=
  ⟨fun h ↦ h ▸ guarded_regrouped ha, (readsBack ha).regrouped_eq⟩

/-- Two types have the same text if and only if their texts are read alike. A type is read back, up
to flattening, unless a function comes before another alternative of a union, and so types that are
guarded against this have the same text only if they are the same up to flattening. -/
theorem text_eq_iff (ha : a.Simple) (hb : b.Simple) :
    (a.text = b.text ↔ a.regrouped = b.regrouped) ∧
      (a.regrouped = a.flattened ↔ a.flattened.Guarded) ∧
      (a.flattened.Guarded → b.flattened.Guarded →
        (a.text = b.text ↔ a.flattened = b.flattened)) := by
  have htext : a.text = b.text ↔ a.regrouped = b.regrouped :=
    ⟨regrouped_eq_of_text_eq ha hb, fun h ↦ by rw [← text_regrouped ha, h, text_regrouped hb]⟩
  refine ⟨htext, regrouped_eq_flattened_iff ha, fun hguarda hguardb ↦ ?_⟩
  rw [htext, (regrouped_eq_flattened_iff ha).mpr hguarda,
    (regrouped_eq_flattened_iff hb).mpr hguardb]

/-- A union in a union, before a function. -/
def nestedUnion : Signature :=
  .union [.union [.primitive .string, .reference "T"], .function [⟨"x", .array .unknown⟩] .unknown]

/-- The same alternatives in one union. -/
def plainUnion : Signature :=
  .union [.primitive .string, .reference "T", .function [⟨"x", .array .unknown⟩] .unknown]

/-- A union in a union is written as one union of all the alternatives. -/
theorem text_eq_iff_nested : nestedUnion.Simple ∧ plainUnion.Simple ∧
    nestedUnion.flattened.Guarded ∧ nestedUnion.text = plainUnion.text := by
  have hreference : (reference "T").Simple := .reference (by decide) (by decide)
  have hname : IsWord "x" := by decide
  have hfunction : (function [⟨"x", .array .unknown⟩] .unknown).Simple :=
    .function (by simpa using hname) (by simpa using .array .unknown) .unknown
  have hplain : plainUnion.Simple :=
    .union (by simpa [hreference, hfunction] using .primitive)
  have hpair : (union [.primitive .string, .reference "T"]).Simple :=
    .union (by simpa [hreference] using .primitive)
  have hnested : nestedUnion.Simple := .union (by simpa [hpair] using hfunction)
  have hguarded : plainUnion.flattened.Guarded := by
    refine .union (by decide) ?_
    simpa [flattenedChoices, flattened, flattenedArguments, choices] using
      ⟨.primitive, .reference, .function (by simpa using .array .unknown) .unknown⟩
  exact ⟨hnested, hplain, hguarded,
    ((text_eq_iff hnested hplain).2.2 hguarded hguarded).mpr rfl⟩

/-- The text of a function and a number is that of a function to a string or a number. -/
theorem text_eq_of_different : ∃ a b : Signature,
    a.Simple ∧ b.Simple ∧ a.text = b.text ∧ a.flattened ≠ b.flattened := by
  refine ⟨.union [.function [] (.primitive .string), .primitive .number],
    .function [] (.union [.primitive .string, .primitive .number]), ?_, ?_, by decide, nofun⟩
  · exact .union (by simpa using ⟨.function (by simp) (by simp) .primitive, .primitive⟩)
  · exact .function (by simp) (by simp) (.union (by simpa using ⟨.primitive, .primitive⟩))

end PropDoc.Signature
