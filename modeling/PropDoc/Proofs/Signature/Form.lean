import Mathlib.Data.List.Basic
import PropDoc.Proofs.List
import PropDoc.Proofs.Signature.Json
import PropDoc.Signature.Printer

/-!
# Types in the order of their text

A form is a type as its text is read, from left to right: what the text starts with, and the tail
that follows. There is one place where this order differs from that of the parts of the type. All
that follows the parameters of a function belongs to its result, further alternatives included. Main
statement: no text is that of two forms.
-/

namespace PropDoc.Signature

mutual

/-- A type in the order of its text. -/
inductive Form where
  /-- A type of one word. -/
  | leaf (type : Signature) (tail : Tail)
  | tuple (items : List Form) (tail : Tail)
  /-- A type in parentheses, the element of an array. -/
  | group (inner : Form) (tail : Tail)
  /-- The parameters of a function. -/
  | taking (arguments : List (Argument Form)) (result : Form)

/-- What follows a word or a closing bracket. -/
inductive Tail where
  | stop
  /-- A pair of brackets: what comes before is the element of an array. -/
  | array (tail : Tail)
  /-- Further alternatives. -/
  | bar (rest : Form)

end

mutual

/-- The text of a form. -/
def Form.chars : Form → List Char
  | .leaf type tail => type.text.toList ++ tail.chars
  | .tuple items tail =>
    '[' :: ([',', ' '].intercalate (Form.itemChars items) ++ ']' :: tail.chars)
  | .group inner tail => '(' :: (inner.chars ++ ')' :: '[' :: ']' :: tail.chars)
  | .taking arguments result =>
    '(' :: ([',', ' '].intercalate (Form.argumentChars arguments) ++
      ')' :: ' ' :: '=' :: '>' :: ' ' :: result.chars)

/-- The text of a tail. -/
def Tail.chars : Tail → List Char
  | .stop => []
  | .array tail => '[' :: ']' :: tail.chars
  | .bar rest => ' ' :: '|' :: ' ' :: rest.chars

/-- The texts of the items of a tuple. -/
def Form.itemChars : List Form → List (List Char)
  | [] => []
  | item :: items => item.chars :: Form.itemChars items

/-- The texts of the parameters of a function. -/
def Form.argumentChars : List (Argument Form) → List (List Char)
  | [] => []
  | ⟨name, type⟩ :: arguments =>
    (name.toList ++ ':' :: ' ' :: type.chars) :: Form.argumentChars arguments

end

/-! ### Words -/

/-- Whether a character holds the parts of a text together. Bars and arrows come with blanks. -/
def isMark (c : Char) : Bool := [' ', '(', ')', '[', ']', ',', ':'].contains c

/-- A plain name: there is something to it, and it has no mark in it. -/
structure IsWord (text : String) : Prop where
  ne : text.toList ≠ []
  plain : ∀ c ∈ text.toList, isMark c = false

instance (text : String) : Decidable (IsWord text) :=
  decidable_of_iff (text.toList.isEmpty = false ∧ text.toList.any isMark = false)
    ⟨fun h ↦ ⟨by simpa using h.1, by simpa using h.2⟩,
      fun h ↦ ⟨by simpa using h.ne, by simpa using h.plain⟩⟩

/-- A type of one word: a keyword, or a plain name that is none. -/
inductive Atom : Signature → Prop where
  | primitive {type : Primitive} : Atom (.primitive type)
  | reference {text : String} : IsWord text → text ∉ keywords → Atom (.reference text)
  | unknown : Atom .unknown

/-- What may come after a word: nothing, or a mark. -/
def Marked (rest : List Char) : Prop := ∀ c ∈ rest.head?, isMark c = true

/-- What may come after a type: nothing, or what comes after an item of a list. -/
def Ends (rest : List Char) : Prop := ∀ c ∈ rest.head?, c = ',' ∨ c = ']' ∨ c = ')'

variable {r s : List Char} {x y : Signature}

private theorem Ends.marked (h : Ends r) : Marked r := by
  intro c hc
  rcases h c hc with rfl | rfl | rfl <;> rfl

@[simp] theorem ends_nil : Ends [] := by simp [Ends]

@[simp] theorem ends_cons {c : Char} : Ends (c :: r) ↔ c = ',' ∨ c = ']' ∨ c = ')' := by
  simp [Ends]

private theorem IsWord.exists_cons {text : String} (h : IsWord text) :
    ∃ c rest, text.toList = c :: rest ∧ isMark c = false := by
  obtain ⟨c, rest, hcons⟩ := List.exists_cons_of_ne_nil h.ne
  exact ⟨c, rest, hcons, h.plain c (by simp [hcons])⟩

/-- Where a word ends is seen from the mark after it. -/
theorem word_inj {first second : List Char} (hfirst : ∀ c ∈ first, isMark c = false)
    (hsecond : ∀ c ∈ second, isMark c = false) (hr : Marked r) (hs : Marked s)
    (h : first ++ r = second ++ s) : first = second ∧ r = s := by
  have htake : ∀ {word rest : List Char}, (∀ c ∈ word, isMark c = false) → Marked rest →
      (word ++ rest).takeWhile (fun c ↦ !isMark c) = word := by
    intro word rest hword hrest
    rw [List.takeWhile_append_of_pos fun c hc ↦ by simp [hword c hc]]
    cases rest with
    | nil => simp
    | cons c rest => simp [hrest c rfl]
  have hwords : first = second := by
    rw [← htake hfirst hr, h, htake hsecond hs]
  subst hwords
  exact ⟨rfl, List.append_cancel_left h⟩

private theorem Atom.isWord (h : Atom x) : IsWord x.text := by
  cases h with
  | @primitive type => cases type <;> decide
  | reference hword _ => exact hword
  | unknown => decide

/-- A type of one word is what the word means. -/
theorem Atom.ofName_text (h : Atom x) : ofName x.text = x := by
  cases h with
  | primitive => exact ofName_word _
  | reference _ hfree => exact ofName_of_free hfree
  | unknown => rfl

/-! ### Unique reading -/

mutual

/-- The words of a form are plain names, and no named type is called like a keyword. -/
inductive Form.Worded : Form → Prop where
  | leaf {type : Signature} {tail : Tail} : Atom type → tail.Worded → Form.Worded (.leaf type tail)
  | tuple {items : List Form} {tail : Tail} :
      (∀ item ∈ items, item.Worded) → tail.Worded → Form.Worded (.tuple items tail)
  | group {inner : Form} {tail : Tail} :
      inner.Worded → tail.Worded → Form.Worded (.group inner tail)
  | taking {arguments : List (Argument Form)} {result : Form} :
      (∀ argument ∈ arguments, IsWord argument.name) →
      (∀ argument ∈ arguments, argument.type.Worded) → result.Worded →
      Form.Worded (.taking arguments result)

/-- The words of a tail are plain names, and no named type is called like a keyword. -/
inductive Tail.Worded : Tail → Prop where
  | stop : Tail.Worded .stop
  | array {tail : Tail} : tail.Worded → Tail.Worded (.array tail)
  | bar {rest : Form} : rest.Worded → Tail.Worded (.bar rest)

end

/-- A parameter with words for its name and its type. -/
structure WordedArgument (argument : Argument Form) : Prop where
  name : IsWord argument.name
  type : argument.type.Worded

/-- The text of a parameter. -/
def Form.namedChars (argument : Argument Form) : List Char :=
  argument.name.toList ++ ':' :: ' ' :: argument.type.chars

/-- The items of a form are written one by one. -/
theorem Form.itemChars_eq_map (items : List Form) : itemChars items = items.map chars := by
  induction items with
  | nil => rfl
  | cons item items ih => simp [itemChars, ih]

/-- The arguments of a form are written one by one. -/
theorem Form.argumentChars_eq_map (arguments : List (Argument Form)) :
    Form.argumentChars arguments = arguments.map Form.namedChars := by
  induction arguments with
  | nil => rfl
  | cons argument arguments ih => simp [Form.argumentChars, Form.namedChars, ih]

/-- A word is not a text that starts with a mark. -/
theorem IsWord.append_ne {c : Char} {text : String} (h : IsWord text) (hc : isMark c = true) :
    text.toList ++ r ≠ c :: s := by
  intro heq
  obtain ⟨d, rest, htext, hd⟩ := h.exists_cons
  rw [htext, List.cons_append] at heq
  rw [(List.cons.inj heq).1, hc] at hd
  cases hd

private theorem Form.leaf_chars_ne {tail : Tail} (h : Atom x) {c : Char} (hc : isMark c = true) :
    (Form.leaf x tail).chars ++ r ≠ c :: s := by
  rw [Form.chars, List.append_assoc]
  exact h.isWord.append_ne hc

private theorem Form.Worded.chars_ne {f : Form} (h : f.Worded) {close : Char}
    (hclose : Ends [close]) (r s : List Char) : f.chars ++ r ≠ close :: s := by
  cases h with
  | leaf hatom _ => exact Form.leaf_chars_ne hatom (hclose.marked close rfl)
  | _ => rcases hclose close rfl with rfl | rfl | rfl <;> simp [Form.chars]

private theorem WordedArgument.chars_ne {argument : Argument Form} (h : WordedArgument argument)
    {close : Char} (hclose : Ends [close]) (r s : List Char) :
    Form.namedChars argument ++ r ≠ close :: s := by
  rw [Form.namedChars, List.append_assoc]
  exact h.name.append_ne (hclose.marked close rfl)

private theorem Tail.marked_chars (t : Tail) (hr : Ends r) : Marked (t.chars ++ r) := by
  cases t with
  | stop => exact hr.marked
  | _ => simp [Marked, Tail.chars, isMark]

section Unique

variable {α : Type} {write : α → List Char} {Worded : α → Prop}

/-- An item is told apart from all that are well worded by its text, given that the end of a type
follows. -/
def Unique (write : α → List Char) (Worded : α → Prop) (item : α) : Prop :=
  ∀ {item' r s}, Worded item' → Ends r → Ends s →
    write item ++ r = write item' ++ s → item = item' ∧ r = s

variable {items items' : List α} {close : Char}

private theorem ends_rest (hclose : Ends [close]) (items : List α) (r : List Char) :
    Ends ((items.map write).flatMap ([',', ' '] ++ ·) ++ close :: r) := by
  cases items with
  | nil => simpa using hclose
  | cons item items => simp

-- The items after the first come with a comma each, and the bracket is seen after them.
private theorem rest_inj (hclose : Ends [close]) (hcomma : close ≠ ',')
    (hitems : ∀ item ∈ items, Unique write Worded item) (hitems' : ∀ item ∈ items', Worded item)
    (h : (items.map write).flatMap ([',', ' '] ++ ·) ++ close :: r =
      (items'.map write).flatMap ([',', ' '] ++ ·) ++ close :: s) : items = items' ∧ r = s := by
  induction items generalizing items' with
  | nil =>
    cases items' with
    | nil => simpa using h
    | cons item' items' => exact absurd (List.cons.inj h).1 hcomma
  | cons item items ih =>
    cases items' with
    | nil => exact absurd (List.cons.inj h).1.symm hcomma
    | cons item' items' =>
      rw [List.forall_mem_cons] at hitems hitems'
      simp only [List.map_cons, List.flatMap_cons, List.append_assoc,
        List.append_cancel_left_eq] at h
      obtain ⟨rfl, hrest⟩ :=
        hitems.1 hitems'.1 (ends_rest hclose items r) (ends_rest hclose items' s) h
      obtain ⟨rfl, rfl⟩ := ih hitems.2 hitems'.2 hrest
      exact ⟨rfl, rfl⟩

/-- Lists have the same items if the closing bracket starts no item. -/
theorem list_inj (hclose : Ends [close]) (hcomma : close ≠ ',')
    (hstart : ∀ {item}, Worded item → ∀ r s, write item ++ r ≠ close :: s)
    (hworded : ∀ item ∈ items, Worded item)
    (hitems : ∀ item ∈ items, Unique write Worded item) (hitems' : ∀ item ∈ items', Worded item)
    (h : [',', ' '].intercalate (items.map write) ++ close :: r =
      [',', ' '].intercalate (items'.map write) ++ close :: s) : items = items' ∧ r = s := by
  cases items with
  | nil =>
    cases items' with
    | nil => simpa using h
    | cons item' items' =>
      rw [List.map_cons, intercalate_cons_eq_flatMap, List.append_assoc] at h
      exact absurd h.symm (hstart (hitems' item' List.mem_cons_self) _ _)
  | cons item items =>
    rw [List.map_cons, intercalate_cons_eq_flatMap, List.append_assoc] at h
    cases items' with
    | nil => exact absurd h (hstart (hworded item List.mem_cons_self) _ _)
    | cons item' items' =>
      rw [List.map_cons, intercalate_cons_eq_flatMap, List.append_assoc] at h
      rw [List.forall_mem_cons] at hitems hitems'
      obtain ⟨rfl, hrest⟩ :=
        hitems.1 hitems'.1 (ends_rest hclose items r) (ends_rest hclose items' s) h
      obtain ⟨rfl, rfl⟩ := rest_inj hclose hcomma hitems.2 hitems'.2 hrest
      exact ⟨rfl, rfl⟩

end Unique

/-- No other form has the text of this one, whatever follows. -/
def Form.Unique : Form → Prop := Signature.Unique Form.chars Form.Worded

/-- No other tail has the text of this one, whatever follows. -/
def Tail.Unique : Tail → Prop := Signature.Unique Tail.chars Tail.Worded

/-- A type in parentheses does not look like the parameters of a function: it starts with no bracket
that closes, and no colon follows its first word. -/
theorem group_ne_taking {inner : Form} {arguments : List (Argument Form)} (hinner : inner.Worded)
    (hnames : ∀ argument ∈ arguments, IsWord argument.name) :
    inner.chars ++ ')' :: r ≠
      [',', ' '].intercalate (Form.argumentChars arguments) ++ ')' :: s := by
  intro h
  rw [Form.argumentChars_eq_map] at h
  cases arguments with
  | nil => exact hinner.chars_ne (by simp) _ _ h
  | cons argument arguments =>
    have hword := hnames argument List.mem_cons_self
    rw [List.map_cons, intercalate_cons_eq_flatMap, Form.namedChars, List.append_assoc,
      List.append_assoc] at h
    cases hinner with
    | @leaf type tail hatom _ =>
      rw [Form.chars, List.append_assoc] at h
      have hcolon := (word_inj hatom.isWord.plain hword.plain (tail.marked_chars (by simp))
        (by simp [Marked, isMark]) h).2
      cases tail <;> simp [Tail.chars] at hcolon
    | _ => exact hword.append_ne rfl h.symm

section Case

variable {type : Signature} {tail : Tail} {items : List Form} {inner result rest : Form}
  {arguments : List (Argument Form)}

private theorem Form.unique_leaf (hatom : Atom type) (htail : tail.Unique) :
    (Form.leaf type tail).Unique := by
  intro g r s hg hr hs h
  rw [Form.chars, List.append_assoc] at h
  cases hg with
  | leaf hatom' htail' =>
    rw [Form.chars, List.append_assoc] at h
    obtain ⟨htext, hrest⟩ := word_inj hatom.isWord.plain hatom'.isWord.plain
      (tail.marked_chars hr) (Tail.marked_chars _ hs) h
    obtain ⟨rfl, rfl⟩ := htail htail' hr hs hrest
    have htype := hatom.ofName_text
    rw [String.toList_inj.mp htext, hatom'.ofName_text] at htype
    rw [htype]
    exact ⟨rfl, rfl⟩
  | _ => exact absurd h (hatom.isWord.append_ne rfl)

private theorem Form.unique_tuple (hworded : ∀ item ∈ items, item.Worded)
    (hitems : ∀ item ∈ items, item.Unique) (htail : tail.Unique) :
    (Form.tuple items tail).Unique := by
  intro g r s hg hr hs h
  cases hg with
  | leaf hatom' _ => exact absurd h.symm (Form.leaf_chars_ne hatom' rfl)
  | tuple hworded' htail' =>
    simp only [Form.chars, Form.itemChars_eq_map, List.cons_append, List.append_assoc,
      List.cons.injEq, true_and] at h
    obtain ⟨rfl, hrest⟩ := list_inj (by simp) (by decide)
      (fun hitem ↦ hitem.chars_ne (by simp)) hworded hitems hworded' h
    obtain ⟨rfl, rfl⟩ := htail htail' hr hs hrest
    exact ⟨rfl, rfl⟩
  | _ => simp [Form.chars] at h

private theorem Form.unique_group (hworded : inner.Worded) (hinner : inner.Unique)
    (htail : tail.Unique) : (Form.group inner tail).Unique := by
  intro g r s hg hr hs h
  rw [Form.chars] at h
  simp only [List.cons_append, List.append_assoc] at h
  cases hg with
  | leaf hatom' _ => exact absurd h.symm (Form.leaf_chars_ne hatom' rfl)
  | tuple _ _ => simp [Form.chars] at h
  | group hworded' htail' =>
    simp only [Form.chars, List.cons_append, List.append_assoc, List.cons.injEq, true_and] at h
    obtain ⟨rfl, hrest⟩ := hinner hworded' (by simp) (by simp) h
    simp only [List.cons.injEq, true_and] at hrest
    obtain ⟨rfl, rfl⟩ := htail htail' hr hs hrest
    exact ⟨rfl, rfl⟩
  | taking hnames' _ _ =>
    simp only [Form.chars, List.cons_append, List.append_assoc, List.cons.injEq, true_and] at h
    exact absurd h (group_ne_taking hworded hnames')

/-- The name of a parameter ends at the colon, and its type where no other type has its text. -/
theorem unique_argument {argument : Argument Form} (hname : IsWord argument.name)
    (htype : argument.type.Unique) : Unique Form.namedChars WordedArgument argument := by
  intro argument' r s hworded' hr hs h
  simp only [Form.namedChars, List.append_assoc, List.cons_append] at h
  obtain ⟨hnames, hrest⟩ := word_inj hname.plain hworded'.name.plain (by simp [Marked, isMark])
    (by simp [Marked, isMark]) h
  simp only [List.cons.injEq, true_and] at hrest
  obtain ⟨htypes, rfl⟩ := htype hworded'.type hr hs hrest
  cases argument
  cases argument'
  cases String.toList_inj.mp hnames
  cases htypes
  exact ⟨rfl, rfl⟩

private theorem Form.unique_taking (hworded : ∀ argument ∈ arguments, WordedArgument argument)
    (harguments : ∀ argument ∈ arguments, argument.type.Unique) (hresult : result.Unique) :
    (Form.taking arguments result).Unique := by
  intro g r s hg hr hs h
  rw [Form.chars] at h
  simp only [List.cons_append, List.append_assoc] at h
  cases hg with
  | leaf hatom' _ => exact absurd h.symm (Form.leaf_chars_ne hatom' rfl)
  | tuple _ _ => simp [Form.chars] at h
  | group hinner' _ =>
    simp only [Form.chars, List.cons_append, List.append_assoc, List.cons.injEq, true_and] at h
    exact absurd h.symm (group_ne_taking hinner' fun argument h ↦ (hworded argument h).name)
  | taking hnames' htypes' hresult' =>
    simp only [Form.chars, Form.argumentChars_eq_map, List.cons_append, List.append_assoc,
      List.cons.injEq, true_and] at h
    obtain ⟨rfl, hrest⟩ := list_inj (by simp) (by decide)
      (fun hitem ↦ hitem.chars_ne (by simp)) hworded
      (fun argument h ↦ unique_argument (hworded argument h).name (harguments argument h))
      (fun argument h ↦ ⟨hnames' argument h, htypes' argument h⟩) h
    simp only [List.cons.injEq, true_and] at hrest
    obtain ⟨rfl, rfl⟩ := hresult hresult' hr hs hrest
    exact ⟨rfl, rfl⟩

private theorem Tail.unique_stop : Tail.stop.Unique := by
  intro u r s hu hr _ h
  cases hu with
  | stop => exact ⟨rfl, h⟩
  | array _ =>
    rw [Tail.chars, List.nil_append, Tail.chars] at h
    rw [h] at hr
    simp at hr
  | bar _ =>
    rw [Tail.chars, List.nil_append, Tail.chars] at h
    rw [h] at hr
    simp at hr

private theorem Tail.unique_array (htail : tail.Unique) : (Tail.array tail).Unique := by
  intro u r s hu hr hs h
  cases hu with
  | stop =>
    rw [Tail.chars, Tail.chars, List.nil_append] at h
    rw [← h] at hs
    simp at hs
  | array htail' =>
    simp only [Tail.chars, List.cons_append, List.cons.injEq, true_and] at h
    obtain ⟨rfl, rfl⟩ := htail htail' hr hs h
    exact ⟨rfl, rfl⟩
  | bar _ => simp [Tail.chars] at h

private theorem Tail.unique_bar (hrest : rest.Unique) : (Tail.bar rest).Unique := by
  intro u r s hu hr hs h
  cases hu with
  | stop =>
    rw [Tail.chars, Tail.chars, List.nil_append] at h
    rw [← h] at hs
    simp at hs
  | array _ => simp [Tail.chars] at h
  | bar hrest' =>
    simp only [Tail.chars, List.cons_append, List.cons.injEq, true_and] at h
    obtain ⟨rfl, rfl⟩ := hrest hrest' hr hs h
    exact ⟨rfl, rfl⟩

end Case

mutual

/-- No text is that of two forms. -/
theorem Form.Worded.unique {f : Form} : f.Worded → f.Unique
  | .leaf hatom htail => Form.unique_leaf hatom htail.unique
  | .tuple hitems htail =>
    Form.unique_tuple hitems (fun item h ↦ (hitems item h).unique) htail.unique
  | .group hinner htail => Form.unique_group hinner hinner.unique htail.unique
  | .taking hnames htypes hresult =>
    Form.unique_taking (fun argument h ↦ ⟨hnames argument h, htypes argument h⟩)
      (fun argument h ↦ (htypes argument h).unique) hresult.unique

/-- No text is that of two tails. -/
theorem Tail.Worded.unique {t : Tail} : t.Worded → t.Unique
  | .stop => Tail.unique_stop
  | .array htail => Tail.unique_array htail.unique
  | .bar hrest => Tail.unique_bar hrest.unique

end

/-- A text that some words make is that of one form. -/
theorem Form.eq_of_chars_eq {f g : Form} (hf : f.Worded) (hg : g.Worded) (h : f.chars = g.chars) :
    f = g :=
  (hf.unique hg ends_nil ends_nil (by rw [h])).1

end PropDoc.Signature
