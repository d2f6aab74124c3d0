import PropDoc.Proofs.Comment.LineGrammar
import PropDoc.Proofs.Text.Blank

/-!
# Escaped text in comments

A text with a backslash before each character that has a meaning of its own is read back as it
is: it holds no tag, no code span and no brace, and is no code fence.
-/

namespace PropDoc.Comment

/-- Whether a character has a meaning of its own in comments. -/
def isSpecial (c : Char) : Bool := ['\\', '\x60', '\x7b', '\x7d', '@'].contains c

/-- A text with a backslash before each special character. -/
def escape (text : List Char) : List Char :=
  text.flatMap fun c ↦ if isSpecial c then ['\\', c] else [c]

@[simp] theorem escape_nil : escape [] = [] := rfl

private theorem escape_cons (c : Char) (text : List Char) :
    escape (c :: text) = (if isSpecial c then ['\\', c] else [c]) ++ escape text := rfl

/-- Texts are escaped character by character. -/
theorem escape_append (first second : List Char) :
    escape (first ++ second) = escape first ++ escape second :=
  List.flatMap_append

/-- Escaping adds backslashes only. -/
theorem mem_of_mem_escape {text : List Char} {c : Char} (hc : c ∈ escape text)
    (hne : c ≠ '\\') : c ∈ text := by
  obtain ⟨d, hd, hcd⟩ := List.mem_flatMap.mp hc
  have hcases : c = '\\' ∨ c = d := by
    split at hcd <;> simp_all
  rcases hcases with hback | rfl
  · exact absurd hback hne
  · exact hd

private theorem not_special_iff (c : Char) :
    isSpecial c = false ↔ c ≠ '\\' ∧ c ≠ '\x60' ∧ c ≠ '\x7b' ∧ c ≠ '\x7d' ∧ c ≠ '@' := by
  simp [isSpecial]

/-! ### Scanning -/

/-- Every token of an escaped text means one character of the text. -/
theorem meanings_scan_escape (tags : TagSet) (wordStart : Bool) (text : List Char) :
    (Token.scan wordStart (escape text)).map (Token.meaning tags) =
      text.map fun c ↦ .text [c] := by
  induction text generalizing wordStart with
  | nil => simp [Token.scan]
  | cons c text ih =>
    rw [escape_cons]
    cases hspecial : isSpecial c with
    | true =>
      rw [if_pos rfl, List.cons_append, List.cons_append, List.nil_append, Token.scan,
        List.map_cons, ih]
      rfl
    | false =>
      obtain ⟨hback, hcode, hopen, hclose, hat⟩ := (not_special_iff c).mp hspecial
      rw [if_neg Bool.false_ne_true, List.cons_append, List.nil_append,
        scan_char hcode hopen hclose hat (fun h ↦ absurd h hback), List.map_cons, ih]
      rfl

/-- Meanings that add one character each add up to the text of the line. -/
theorem ofMeanings_map_text (number : Nat) (before text : List Char) :
    Event.ofMeanings number before (text.map fun c ↦ .text [c]) = [.text (before ++ text)] := by
  induction text generalizing before with
  | nil => simp [Event.ofMeanings]
  | cons c text ih => simp [Event.ofMeanings, ih]

/-- An escaped line is one line of text, the line itself. -/
theorem ofLine_escape (tags : TagSet) (number : Nat) (text : List Char) :
    Event.ofLine tags number (escape text) = [.text text] := by
  rw [Event.ofLine, Token.ofLine, meanings_scan_escape, ofMeanings_map_text, List.nil_append]

/-! ### Line ends and fences -/

private theorem isFence_cons_of_not_blank {c : Char} (hblank : Text.isBlank c = false)
    (hcode : c ≠ '\x60') (rest : List Char) : Event.isFence (c :: rest) = false := by
  rw [Event.isFence, Text.trimStart_cons_of_not_blank hblank]
  simp [List.isPrefixOf, hcode.symm]

/-- An escaped line opens or closes no fence. -/
theorem isFence_escape (text : List Char) : Event.isFence (escape text) = false := by
  induction text with
  | nil => rfl
  | cons c text ih =>
    rw [escape_cons]
    cases hspecial : isSpecial c with
    | true => exact isFence_cons_of_not_blank (by decide) (by decide) _
    | false =>
      cases hblank : Text.isBlank c with
      | true => simpa [Event.isFence, Text.trimStart, hblank] using ih
      | false => exact isFence_cons_of_not_blank hblank ((not_special_iff c).mp hspecial).2.1 _

/-- Dropping at the end commutes with escaping where it drops no special character. -/
theorem dropEndWhile_escape {p : Char → Bool} (hp : ∀ c, isSpecial c = true → p c = false)
    (text : List Char) :
    Text.dropEndWhile p (escape text) = escape (Text.dropEndWhile p text) := by
  induction text using List.reverseRecOn with
  | nil => rfl
  | append_singleton text c ih =>
    rw [escape_append, Text.dropEndWhile_append, Text.dropEndWhile_append]
    cases hc : p c with
    | true =>
      have hspecial : isSpecial c = false := by
        rw [← Bool.not_eq_true]
        exact fun hspecial ↦ Bool.false_ne_true ((hp c hspecial).symm.trans hc)
      have hescaped : escape [c] = [c] := by simp [escape_cons, hspecial]
      have hdropped : Text.dropEndWhile p [c] = [] := by simp [Text.dropEndWhile, hc]
      rw [hescaped, if_pos hdropped, if_pos hdropped, ih]
    | false =>
      have hkept : Text.dropEndWhile p [c] = [c] := by simp [Text.dropEndWhile, hc]
      have hescaped : Text.dropEndWhile p (escape [c]) = escape [c] ∧ escape [c] ≠ [] := by
        cases hspecial : isSpecial c <;> simp [escape_cons, hspecial, Text.dropEndWhile, hc]
      rw [hescaped.1, if_neg hescaped.2, hkept, if_neg (List.cons_ne_nil c []), escape_append]

end PropDoc.Comment
