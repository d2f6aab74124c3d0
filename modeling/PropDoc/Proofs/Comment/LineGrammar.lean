import PropDoc.Comment.Event
import PropDoc.Proofs.Text.Cut

/-!
# The grammar of a comment line

Which lines outside code fences are free of problems, as rules over characters. A rule sees the
characters before it, since a tag counts only at the start of a word. The reader of lines reports
nothing exactly for the lines that the rules derive.
-/

namespace PropDoc.Comment

/-- A word can start here: at the start of the line or right after a blank character, whatever
that character was part of. -/
def WordStart (before : List Char) : Prop :=
  before = [] ∨ ∃ init last, before = init ++ [last] ∧ Text.isBlank last = true

/-- A letter and then letters and digits, all of them ASCII, or nothing. -/
def IsTagName (name : List Char) : Prop :=
  name = [] ∨ ∃ first others, name = first :: others ∧ first.isAlpha = true ∧
    ∀ c ∈ others, c.isAlphanum = true

/-- The longest tag name that a text starts with. -/
def LongestTagName (text name : List Char) : Prop :=
  IsTagName name ∧ name <+: text ∧
    ∀ other, IsTagName other → other <+: text → other.length ≤ name.length

/-- A word, at sign included, is the name of a tag of the given form. -/
def Defines (tags : TagSet) (word : List Char) (form : TagForm) : Prop :=
  ∃ tag, tags.get? (String.ofList word) = some tag ∧ tag.form = form

/-- A character stands for itself: it is no brace, backtick or tag sign, and no backslash with a
character to protect. -/
def IsPlain (before : List Char) (c : Char) (rest : List Char) : Prop :=
  c ≠ '\x60' ∧ c ≠ '\x7b' ∧ c ≠ '\x7d' ∧ (c = '@' → ¬ WordStart before) ∧ (c = '\\' → rest = [])

/-- The rest of a line is well formed, given the characters before it. -/
inductive WellFormedLine (tags : TagSet) : List Char → List Char → Prop where
  | done {before : List Char} : WellFormedLine tags before []
  /-- A backslash protects the character after it. -/
  | escaped {before rest : List Char} {c : Char} :
      WellFormedLine tags (before ++ ['\\', c]) rest →
      WellFormedLine tags before ('\\' :: c :: rest)
  /-- A code span ends at the next backtick. -/
  | code {before content rest : List Char} :
      '\x60' ∉ content →
      WellFormedLine tags (before ++ '\x60' :: (content ++ ['\x60'])) rest →
      WellFormedLine tags before ('\x60' :: (content ++ '\x60' :: rest))
  /-- An inline tag ends at the next closing brace. -/
  | inline {before inside name rest : List Char} :
      '\x7d' ∉ inside → LongestTagName inside name → Defines tags ('@' :: name) .inline →
      WellFormedLine tags (before ++ '\x7b' :: '@' :: (inside ++ ['\x7d'])) rest →
      WellFormedLine tags before ('\x7b' :: '@' :: (inside ++ '\x7d' :: rest))
  /-- A tag at the start of a word opens a block or is a modifier. -/
  | tag {before name rest : List Char} :
      WordStart before → name ≠ [] → LongestTagName (name ++ rest) name →
      Defines tags ('@' :: name) .block ∨ Defines tags ('@' :: name) .modifier →
      WellFormedLine tags (before ++ '@' :: name) rest →
      WellFormedLine tags before ('@' :: (name ++ rest))
  | plain {before rest : List Char} {c : Char} :
      IsPlain before c rest →
      WellFormedLine tags (before ++ [c]) rest →
      WellFormedLine tags before (c :: rest)

/-! ### Words and names -/

private theorem wordStart_concat_iff (before : List Char) (c : Char) :
    WordStart (before ++ [c]) ↔ Text.isBlank c = true := by
  constructor
  · rintro (hnil | ⟨init, last, hsplit, hblank⟩)
    · simp at hnil
    · obtain ⟨-, hlast⟩ := List.append_inj' hsplit rfl
      rwa [List.head_eq_of_cons_eq hlast]
  · exact fun hblank ↦ .inr ⟨before, c, rfl, hblank⟩

/-- Letters and digits are not blank. -/
theorem isBlank_of_isAlphanum {c : Char} (h : c.isAlphanum = true) : Text.isBlank c = false := by
  have hrange : 48 ≤ c.toNat ∧ c.toNat ≤ 122 := by
    rcases Bool.or_eq_true_iff.mp h with halpha | hdigit
    · rcases Bool.or_eq_true_iff.mp halpha with hupper | hlower
      · have hbounds : 65 ≤ c.toNat ∧ c.toNat ≤ 90 := of_decide_eq_true hupper
        omega
      · obtain ⟨hleast, hmost⟩ := Bool.and_eq_true_iff.mp hlower
        have hge : 97 ≤ c.toNat := of_decide_eq_true hleast
        have hle : c.toNat ≤ 122 := of_decide_eq_true hmost
        omega
    · obtain ⟨hleast, hmost⟩ := Bool.and_eq_true_iff.mp hdigit
      have hge : 48 ≤ c.toNat := of_decide_eq_true hleast
      have hle : c.toNat ≤ 57 := of_decide_eq_true hmost
      omega
  simp only [Text.isBlank, Text.blankRanges, List.any_cons, List.any_nil, Bool.or_false,
    Bool.or_eq_false_iff, Bool.and_eq_false_iff, decide_eq_false_iff_not]
  omega

private theorem isAlphanum_of_mem_isTagName {name : List Char} (h : IsTagName name) {c : Char}
    (hc : c ∈ name) : c.isAlphanum = true := by
  rcases h with rfl | ⟨first, others, rfl, hfirst, hothers⟩
  · cases hc
  · rcases List.mem_cons.mp hc with rfl | hother
    · simp [Char.isAlphanum, hfirst]
    · exact hothers c hother

private theorem not_wordStart_append_name {name : List Char} (h : IsTagName name)
    (hne : name ≠ []) (before : List Char) : ¬ WordStart (before ++ '@' :: name) := by
  obtain ⟨init, last, rfl⟩ : ∃ init last, name = init ++ [last] :=
    ⟨name.dropLast, name.getLast hne, (List.dropLast_concat_getLast hne).symm⟩
  rw [show before ++ '@' :: (init ++ [last]) = (before ++ '@' :: init) ++ [last] by simp,
    wordStart_concat_iff, isBlank_of_isAlphanum (isAlphanum_of_mem_isTagName h (by simp))]
  simp

private theorem isTagName_tagName (text : List Char) : IsTagName (Token.tagName text) := by
  cases text with
  | nil => exact .inl rfl
  | cons c cs =>
    simp only [Token.tagName]
    split
    · next hc => exact .inr ⟨c, _, rfl, hc, fun d hd ↦ List.all_eq_true.mp List.all_takeWhile d hd⟩
    · exact .inl rfl

/-- A tag name is what a text starts with. -/
theorem tagName_isStart (text : List Char) : Token.tagName text <+: text := by
  cases text with
  | nil => exact List.prefix_rfl
  | cons c cs =>
    simp only [Token.tagName]
    split
    · exact List.cons_prefix_cons.mpr ⟨rfl, List.takeWhile_prefix _⟩
    · exact List.nil_prefix

/-- A tag name and what follows it are the text it is read from. -/
theorem tagName_append_drop (text : List Char) :
    Token.tagName text ++ text.drop (Token.tagName text).length = text :=
  List.prefix_iff_eq_append.mp (tagName_isStart text)

private theorem length_le_tagName {text other : List Char} (hname : IsTagName other)
    (hstarts : other <+: text) : other.length ≤ (Token.tagName text).length := by
  rcases hname with rfl | ⟨first, others, rfl, hfirst, hothers⟩
  · exact Nat.zero_le _
  · obtain ⟨rest, rfl⟩ := hstarts
    simp only [List.cons_append, Token.tagName, hfirst, if_true, List.length_cons]
    rw [List.takeWhile_append_of_pos hothers]
    simp

/-- The name that the reader takes is the longest one. -/
theorem longestTagName_iff (text name : List Char) :
    LongestTagName text name ↔ name = Token.tagName text := by
  constructor
  · rintro ⟨hname, hstarts, hlongest⟩
    have hle := length_le_tagName hname hstarts
    have hge := hlongest _ (isTagName_tagName text) (tagName_isStart text)
    exact (List.prefix_of_prefix_length_le hstarts (tagName_isStart text) hle).eq_of_length
      (Nat.le_antisymm hle hge)
  · rintro rfl
    exact ⟨isTagName_tagName text, tagName_isStart text, fun other ↦ length_le_tagName⟩

/-! ### Tokens of each form -/

/-- A token is not wrong under a tag set. -/
def Token.IsClean (tags : TagSet) (token : Token) : Prop :=
  ∀ problem content, token.meaning tags ≠ .flawed problem content

private theorem isClean_inline_iff (tags : TagSet) (word content : List Char) :
    (Token.inline word content).IsClean tags ↔ Defines tags word .inline := by
  unfold Token.IsClean Token.meaning Defines
  cases htag : tags.get? (String.ofList word) with
  | none => simp [htag]
  | some tag => cases hform : tag.form <;> simp [htag, hform]

private theorem isClean_tag_iff (tags : TagSet) (word : List Char) :
    (Token.tag word).IsClean tags ↔ Defines tags word .block ∨ Defines tags word .modifier := by
  unfold Token.IsClean Token.meaning Defines
  cases htag : tags.get? (String.ofList word) with
  | none => simp [htag]
  | some tag => cases hform : tag.form <;> simp [htag, hform]

/-- A code span is scanned up to the next backtick. -/
theorem scan_code (wordStart : Bool) {content : List Char} (h : '\x60' ∉ content)
    (rest : List Char) :
    Token.scan wordStart ('\x60' :: (content ++ '\x60' :: rest)) =
      .code content :: Token.scan false rest := by
  have hcut := (Text.cutAt?_eq_some_iff '\x60' _ content rest).mpr ⟨rfl, h⟩
  rw [Token.scan]
  split
  · next content' rest' hcut' =>
    rw [hcut] at hcut'
    cases hcut'
    rfl
  · next hnone =>
    rw [hcut] at hnone
    cases hnone

/-- An inline tag is scanned up to the next closing brace. -/
theorem scan_inline (wordStart : Bool) {inside : List Char} (h : '\x7d' ∉ inside)
    (rest : List Char) :
    Token.scan wordStart ('\x7b' :: '@' :: (inside ++ '\x7d' :: rest)) =
      .inline ('@' :: Token.tagName inside) (inside.drop (Token.tagName inside).length) ::
        Token.scan false rest := by
  have hcut := (Text.cutAt?_eq_some_iff '\x7d' _ inside rest).mpr ⟨rfl, h⟩
  rw [Token.scan]
  split
  · next inside' rest' hcut' =>
    rw [hcut] at hcut'
    cases hcut'
    rfl
  · next hnone =>
    rw [hcut] at hnone
    cases hnone

/-- A tag at the start of a word is scanned up to the end of the longest name. -/
theorem scan_tag {name rest : List Char} (hne : name ≠ [])
    (hlongest : LongestTagName (name ++ rest) name) :
    Token.scan true ('@' :: (name ++ rest)) = .tag ('@' :: name) :: Token.scan false rest := by
  have hname := (longestTagName_iff (name ++ rest) name).mp hlongest
  rw [Token.scan, if_pos rfl, ← hname]
  simp [hne]

/-- A character without a meaning of its own is scanned as itself. -/
theorem scan_char {c : Char} {rest : List Char} (hcode : c ≠ '\x60') (hopen : c ≠ '\x7b')
    (hclose : c ≠ '\x7d') (hat : c ≠ '@') (hescape : c = '\\' → rest = []) (wordStart : Bool) :
    Token.scan wordStart (c :: rest) = .char c :: Token.scan (Text.isBlank c) rest := by
  rw [Token.scan]
  all_goals simp_all

private theorem scan_plain {wordStart : Bool} {before rest : List Char} {c : Char}
    (hword : wordStart = true ↔ WordStart before) (h : IsPlain before c rest) :
    Token.scan wordStart (c :: rest) = .char c :: Token.scan (Text.isBlank c) rest := by
  obtain ⟨hcode, hopen, hclose, hat, hescape⟩ := h
  by_cases hc : c = '@'
  · subst hc
    have hfalse : ¬ wordStart = true := fun hstart ↦ hat rfl (hword.mp hstart)
    rw [Token.scan, if_neg hfalse]
    rfl
  · exact scan_char hcode hopen hclose hc hescape wordStart

/-! ### The rules and the reader -/

private theorem isClean_of_text {tags : TagSet} {token : Token} {content : List Char}
    (h : token.meaning tags = .text content) : token.IsClean tags := by
  intro problem content' hflawed
  rw [h] at hflawed
  cases hflawed

private theorem not_isClean_of_flawed {tags : TagSet} {token : Token} {problem : Problem}
    {content : List Char} (h : token.meaning tags = .flawed problem content) :
    ¬ token.IsClean tags :=
  fun hclean ↦ hclean problem content h

-- Every token of a derived line is clean. Each rule reads one token, and the characters behind
-- the rest of the line say whether a word starts there.
private theorem isClean_of_wellFormedLine {tags : TagSet} {before line : List Char}
    (h : WellFormedLine tags before line) {wordStart : Bool}
    (hword : wordStart = true ↔ WordStart before) :
    ∀ token ∈ Token.scan wordStart line, token.IsClean tags := by
  induction h generalizing wordStart with
  | done => rw [Token.scan]; simp
  | @escaped before rest c _ ih =>
    rw [Token.scan, List.forall_mem_cons]
    refine ⟨isClean_of_text rfl, ih ?_⟩
    rw [List.append_cons, wordStart_concat_iff]
  | @code before content rest hcontent _ ih =>
    rw [scan_code wordStart hcontent, List.forall_mem_cons]
    refine ⟨isClean_of_text rfl, ih ?_⟩
    rw [← List.cons_append, ← List.append_assoc, wordStart_concat_iff]
    decide
  | @inline before inside name rest hinside hlongest hdefined _ ih =>
    rw [scan_inline wordStart hinside, List.forall_mem_cons,
      ← (longestTagName_iff inside name).mp hlongest]
    refine ⟨(isClean_inline_iff ..).mpr hdefined, ih ?_⟩
    rw [← List.cons_append, ← List.cons_append, ← List.append_assoc, wordStart_concat_iff]
    decide
  | @tag before name rest hstart hne hlongest hdefined _ ih =>
    rw [hword.mpr hstart, scan_tag hne hlongest, List.forall_mem_cons]
    refine ⟨(isClean_tag_iff ..).mpr hdefined, ih ?_⟩
    simp [not_wordStart_append_name hlongest.1 hne before]
  | @plain before rest c hplain _ ih =>
    rw [scan_plain hword hplain, List.forall_mem_cons]
    exact ⟨isClean_of_text rfl, ih (wordStart_concat_iff before c).symm⟩

-- A line whose tokens are all clean is derived, following the reader token by token.
private theorem wellFormedLine_of_isClean {tags : TagSet} (wordStart : Bool) (line : List Char) :
    ∀ before, (wordStart = true ↔ WordStart before) →
      (∀ token ∈ Token.scan wordStart line, token.IsClean tags) →
      WellFormedLine tags before line := by
  fun_induction Token.scan wordStart line with
  | case1 => exact fun _ _ _ ↦ .done
  | case2 wordStart c rest ih =>
    intro before _ hclean
    refine .escaped (ih _ ?_ (List.forall_mem_cons.mp hclean).2)
    rw [List.append_cons, wordStart_concat_iff]
  | case3 wordStart rest content after hcut _ ih =>
    intro before _ hclean
    obtain ⟨rfl, hcontent⟩ := (Text.cutAt?_eq_some_iff ..).mp hcut
    refine .code hcontent (ih _ ?_ (List.forall_mem_cons.mp hclean).2)
    rw [← List.cons_append, ← List.append_assoc, wordStart_concat_iff]
    decide
  | case4 wordStart rest hcut =>
    intro before _ hclean
    exact absurd (hclean _ List.mem_cons_self) (not_isClean_of_flawed rfl)
  | case5 wordStart rest inside after hcut _ ih =>
    intro before _ hclean
    obtain ⟨htoken, hrest⟩ := List.forall_mem_cons.mp hclean
    obtain ⟨rfl, hinside⟩ := (Text.cutAt?_eq_some_iff ..).mp hcut
    refine .inline hinside ((longestTagName_iff ..).mpr rfl) ((isClean_inline_iff ..).mp htoken)
      (ih _ ?_ hrest)
    rw [← List.cons_append, ← List.cons_append, ← List.append_assoc, wordStart_concat_iff]
    decide
  | case6 wordStart rest hcut =>
    intro before _ hclean
    exact absurd (hclean _ List.mem_cons_self) (not_isClean_of_flawed rfl)
  | case7 wordStart rest _ ih =>
    intro before _ hclean
    exact absurd (hclean _ List.mem_cons_self) (not_isClean_of_flawed rfl)
  | case8 wordStart rest ih =>
    intro before _ hclean
    exact absurd (hclean _ List.mem_cons_self) (not_isClean_of_flawed rfl)
  | case9 rest hname ih =>
    intro before _ hclean
    exact absurd (hclean _ List.mem_cons_self) (not_isClean_of_flawed rfl)
  | case10 rest hname ih =>
    intro before hword hclean
    obtain ⟨htoken, hrest⟩ := List.forall_mem_cons.mp hclean
    have hne : Token.tagName rest ≠ [] := by simpa using hname
    rw [← tagName_append_drop rest]
    refine .tag (hword.mp rfl) hne
      (by rw [tagName_append_drop]; exact (longestTagName_iff ..).mpr rfl)
      ((isClean_tag_iff ..).mp htoken) (ih _ ?_ hrest)
    simp [not_wordStart_append_name (isTagName_tagName rest) hne before]
  | case11 wordStart rest hword' ih =>
    intro before hword hclean
    refine .plain ⟨by decide, by decide, by decide, fun _ hstart ↦ hword' (hword.mpr hstart),
      fun hc ↦ absurd hc (by decide)⟩ (ih _ ?_ (List.forall_mem_cons.mp hclean).2)
    rw [wordStart_concat_iff]
    decide
  | case12 wordStart c rest hescape hcode _ hopen hclose hat ih =>
    intro before _ hclean
    refine .plain ⟨hcode, hopen, hclose, fun hc ↦ absurd hc hat, ?_⟩
      (ih _ (wordStart_concat_iff before c).symm (List.forall_mem_cons.mp hclean).2)
    intro hc
    cases rest with
    | nil => rfl
    | cons d rest => exact absurd rfl (hescape d rest hc)

/-- The reader finds nothing wrong with the tokens of a line exactly if the rules derive it. -/
theorem isClean_ofLine_iff (tags : TagSet) (line : List Char) :
    (∀ token ∈ Token.ofLine line, token.IsClean tags) ↔ WellFormedLine tags [] line := by
  have hword : true = true ↔ WordStart [] := ⟨fun _ ↦ .inl rfl, fun _ ↦ rfl⟩
  exact ⟨wellFormedLine_of_isClean true line [] hword, fun h ↦ isClean_of_wellFormedLine h hword⟩

end PropDoc.Comment
