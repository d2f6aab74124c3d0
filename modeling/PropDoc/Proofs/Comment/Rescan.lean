import Mathlib.Data.List.Forall2
import PropDoc.Proofs.Comment.LineGrammar

/-!
# Tokens as they are written

Written out one after another, the tokens of a line give the line back. The text of its code spans
may be exchanged there: scanning then finds the same tokens but for that text. A token depends on
no more than what is written up to the next backtick, and it is that which stays.
-/

namespace PropDoc.Comment

namespace Token

/-- The characters that a token is read from. -/
def source : Token → List Char
  | char c => [c]
  | escaped c => ['\\', c]
  | code content => '\x60' :: (content ++ ['\x60'])
  | openCode rest => '\x60' :: rest
  | inline name content => '\x7b' :: (name ++ content ++ ['\x7d'])
  | openInline rest => '\x7b' :: '@' :: rest
  | openBrace => ['\x7b']
  | closeBrace => ['\x7d']
  | tag name => name
  | bareAtSign => ['@']

/-- The characters that some tokens are read from. -/
def sources (tokens : List Token) : List Char := tokens.flatMap source

/-- A token is another one with, if it is a code span, any text in it. -/
inductive Recoded : Token → Token → Prop where
  | same (token : Token) : Recoded token token
  | code (content : List Char) {content' : List Char} :
      '\x60' ∉ content' → Recoded (code content) (code content')

@[simp] theorem sources_nil : sources [] = [] := rfl

@[simp] theorem sources_cons (token : Token) (tokens : List Token) :
    sources (token :: tokens) = token.source ++ sources tokens :=
  List.flatMap_cons

/-! ### Scanning loses nothing -/

/-- The tokens of a text make up the text. -/
theorem sources_scan (wordStart : Bool) (cs : List Char) : sources (scan wordStart cs) = cs := by
  fun_induction scan wordStart cs with
  | case1 => rfl
  | case2 wordStart c rest ih => simp [source, ih]
  | case3 wordStart rest content after hcut _ ih =>
    obtain ⟨rfl, -⟩ := (Text.cutAt?_eq_some_iff ..).mp hcut
    simp [source, ih]
  | case4 wordStart rest hcut => simp [source]
  | case5 wordStart rest inside after hcut _ ih =>
    obtain ⟨rfl, -⟩ := (Text.cutAt?_eq_some_iff ..).mp hcut
    simp only [sources_cons, source, ih, List.cons_append, List.append_assoc, List.nil_append]
    rw [← List.append_assoc, tagName_append_drop]
  | case6 wordStart rest hcut => simp [source]
  | case7 wordStart rest _ ih => simp [source, ih]
  | case8 wordStart rest ih => simp [source, ih]
  | case9 rest hname ih => simp [source, ih]
  | case10 rest hname ih => simp [source, ih, tagName_append_drop]
  | case11 wordStart rest hword ih => simp [source, ih]
  | case12 wordStart c rest _ _ _ _ _ _ ih => simp [source, ih]

/-! ### What stands before code -/

/-- Two texts are the same up to a backtick in both, or to their ends. -/
inductive SameBeforeCode : List Char → List Char → Prop where
  | done : SameBeforeCode [] []
  | code (rest rest' : List Char) : SameBeforeCode ('\x60' :: rest) ('\x60' :: rest')
  | cons (c : Char) {cs cs' : List Char} :
      SameBeforeCode cs cs' → SameBeforeCode (c :: cs) (c :: cs')

namespace SameBeforeCode

variable {cs cs' : List Char}

private theorem append_left (h : SameBeforeCode cs cs') (start : List Char) :
    SameBeforeCode (start ++ cs) (start ++ cs') := by
  induction start with
  | nil => exact h
  | cons c start ih => exact ih.cons c

/-- Texts that are the same before code start with the same character. -/
theorem head?_eq (h : SameBeforeCode cs cs') : cs'.head? = cs.head? := by
  cases h <;> rfl

private theorem takeWhile_eq (h : SameBeforeCode cs cs') {p : Char → Bool} (hp : p '\x60' = false) :
    cs'.takeWhile p = cs.takeWhile p := by
  induction h with
  | done => rfl
  | code rest rest' => simp [hp]
  | cons c _ ih => simp only [List.takeWhile_cons, ih]

private theorem tagName_eq (h : SameBeforeCode cs cs') : tagName cs' = tagName cs := by
  cases h with
  | done => rfl
  | code rest rest' => rfl
  | cons c h => rw [tagName, tagName, h.takeWhile_eq rfl]

end SameBeforeCode

variable {tokens tokens' : List Token}

/-- Tokens with other code are written the same before that code. -/
theorem sameBeforeCode_sources (h : List.Forall₂ Recoded tokens tokens') :
    SameBeforeCode (sources tokens) (sources tokens') := by
  induction h with
  | nil => exact .done
  | cons htoken _ ih =>
    cases htoken with
    | same => exact ih.append_left _
    | code content _ => exact .code _ _

/-- Code spans end in a backtick whatever is in them. -/
theorem getLast?_sources (h : List.Forall₂ Recoded tokens tokens') :
    (sources tokens').getLast? = (sources tokens).getLast? := by
  induction h with
  | nil => rfl
  | @cons token token' _ _ htoken _ ih =>
    have hlast : token'.source.getLast? = token.source.getLast? := by
      cases htoken with
      | same => rfl
      | code content _ =>
        rw [source, source, ← List.cons_append, ← List.cons_append, List.getLast?_concat,
          List.getLast?_concat]
    rw [sources_cons, sources_cons, List.getLast?_append, List.getLast?_append, ih, hlast]

/-! ### Scanning again -/

/-- A backtick that no other follows opens a code span that stays open. -/
theorem scan_openCode (wordStart : Bool) {rest : List Char}
    (h : Text.cutAt? '\x60' rest = none) :
    scan wordStart ('\x60' :: rest) = [openCode rest] := by
  rw [scan]
  split
  · next hcut =>
    rw [h] at hcut
    cases hcut
  · rfl

/-- A tag in braces without a closing one is left open. -/
theorem scan_openInline (wordStart : Bool) {rest : List Char}
    (h : Text.cutAt? '\x7d' rest = none) :
    scan wordStart ('\x7b' :: '@' :: rest) = [openInline rest] := by
  rw [scan]
  split
  · next hcut =>
    rw [h] at hcut
    cases hcut
  · rfl

/-- A brace that no at sign follows stands on its own. -/
theorem scan_openBrace (wordStart : Bool) {rest : List Char} (h : rest.head? ≠ some '@') :
    scan wordStart ('\x7b' :: rest) = openBrace :: scan false rest := by
  rw [scan]
  rintro rest' rfl
  exact h rfl

private theorem sameBeforeCode_of_scan {wordStart : Bool} {cs : List Char}
    (h : List.Forall₂ Recoded (scan wordStart cs) tokens') :
    SameBeforeCode cs (sources tokens') := by
  have hsame := sameBeforeCode_sources h
  rwa [sources_scan] at hsame

/-- The tokens of a text with other text in its code spans are what is scanned where they are
written. -/
theorem scan_sources {wordStart : Bool} {cs : List Char}
    (h : List.Forall₂ Recoded (scan wordStart cs) tokens') :
    scan wordStart (sources tokens') = tokens' := by
  fun_induction scan wordStart cs generalizing tokens' with
  | case1 =>
    cases h
    rw [sources_nil, scan]
  | case2 wordStart c rest ih =>
    cases h with | cons htoken hrest =>
    cases htoken
    simp only [sources_cons, source, List.cons_append, List.nil_append]
    rw [scan, ih hrest]
  | case3 wordStart rest content after hcut _ ih =>
    cases h with | @cons _ token' _ _ htoken hrest =>
    obtain ⟨content', hcontent', rfl⟩ : ∃ content', '\x60' ∉ content' ∧ token' = code content' := by
      cases htoken with
      | same => exact ⟨content, ((Text.cutAt?_eq_some_iff ..).mp hcut).2, rfl⟩
      | code _ hcontent' => exact ⟨_, hcontent', rfl⟩
    simp only [sources_cons, source, List.cons_append, List.append_assoc, List.nil_append]
    rw [scan_code wordStart hcontent', ih hrest]
  | case4 wordStart rest hcut =>
    cases h with | cons htoken hrest =>
    cases htoken
    cases hrest
    simp only [sources_cons, sources_nil, source, List.append_nil]
    exact scan_openCode wordStart hcut
  | case5 wordStart rest inside after hcut _ ih =>
    cases h with | cons htoken hrest =>
    cases htoken
    have hinside := ((Text.cutAt?_eq_some_iff ..).mp hcut).2
    simp only [sources_cons, source, List.cons_append, List.append_assoc, List.nil_append]
    rw [← List.append_assoc, tagName_append_drop, scan_inline wordStart hinside, ih hrest]
  | case6 wordStart rest hcut =>
    cases h with | cons htoken hrest =>
    cases htoken
    cases hrest
    simp only [sources_cons, sources_nil, source, List.append_nil]
    exact scan_openInline wordStart hcut
  | case7 wordStart rest hopen ih =>
    cases h with | @cons _ _ _ tokens htoken hrest =>
    cases htoken
    have hhead : (sources tokens).head? ≠ some '@' := by
      rw [(sameBeforeCode_of_scan hrest).head?_eq]
      intro hat
      obtain ⟨rest', rfl⟩ := List.head?_eq_some_iff.mp hat
      exact hopen rest' rfl
    simp only [sources_cons, source, List.cons_append, List.nil_append]
    rw [scan_openBrace wordStart hhead, ih hrest]
  | case8 wordStart rest ih =>
    cases h with | cons htoken hrest =>
    cases htoken
    simp only [sources_cons, source, List.cons_append, List.nil_append]
    rw [scan, ih hrest]
  | case9 rest hname ih =>
    cases h with | cons htoken hrest =>
    cases htoken
    simp only [sources_cons, source, List.cons_append, List.nil_append]
    rw [scan, if_pos rfl, (sameBeforeCode_of_scan hrest).tagName_eq, if_pos hname, ih hrest]
  | case10 rest hname ih =>
    cases h with | @cons _ _ _ tokens htoken hrest =>
    cases htoken
    have hsame := (sameBeforeCode_of_scan hrest).append_left (tagName rest)
    rw [tagName_append_drop] at hsame
    have hlongest : LongestTagName (tagName rest ++ sources tokens) (tagName rest) :=
      (longestTagName_iff ..).mpr hsame.tagName_eq.symm
    simp only [sources_cons, source, List.cons_append]
    rw [scan_tag (by simpa using hname) hlongest, ih hrest]
  | case11 wordStart rest hword ih =>
    cases h with | cons htoken hrest =>
    cases htoken
    simp only [sources_cons, source, List.cons_append, List.nil_append]
    rw [scan, if_neg hword, ih hrest]
  | case12 wordStart c rest hescape hcode _ hopen hclose hat ih =>
    cases h with | @cons _ _ _ tokens htoken hrest =>
    cases htoken
    -- A backslash stands for itself only at the end, where nothing follows in the other text too.
    have hend : c = '\\' → sources tokens = [] := by
      intro hc
      rw [← List.head?_eq_none_iff, (sameBeforeCode_of_scan hrest).head?_eq]
      cases rest with
      | nil => rfl
      | cons d rest => exact absurd rfl (hescape d rest hc)
    simp only [sources_cons, source, List.cons_append, List.nil_append]
    rw [scan_char hcode hopen hclose hat hend wordStart, ih hrest]

end Token

end PropDoc.Comment
