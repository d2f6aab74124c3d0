import Mathlib.Data.List.Basic
import PropDoc.Json

/-!
# Reading written JSON

What is written out is read back, in either layout. A text is said to read as a value if it does so
before anything that cannot prolong a number; the texts that do are closed under the ways in which
the two layouts put texts together, so that one argument serves both. Main statement: a rendered
value is parsed to itself.
-/

namespace PropDoc.Json

/-- A text does not go on with a digit. -/
def EndsNumber (rest : List Char) : Prop := ∀ c ∈ rest.head?, c.isDigit = false

/-- A text reads as a value before every rest that cannot prolong a number. The length of the text
is bound enough. -/
def Reads (text : List Char) (value : Json) : Prop :=
  ∀ bound rest, text.length ≤ bound → EndsNumber rest →
    value? bound (text ++ rest) = some (value, rest)

/-- A text reads as a member of an object. -/
def ReadsMember (text : List Char) (member : String × Json) : Prop :=
  ∃ blanks valueText, (∀ c ∈ blanks, isBlank c = true) ∧
    text = blanks ++ quote member.1 ++ ':' :: valueText ∧ Reads valueText member.2

/-! ### Strings -/

private theorem hexNumber?_hexDigits {c : Char} (h : c.toNat < 0x20) :
    ∃ d₁ d₂ d₃ d₄, hexDigits c = [d₁, d₂, d₃, d₄] ∧
      Text.hexNumber? [d₁, d₂, d₃, d₄] = some c.toNat := by
  have hall : ∀ code < 0x20, (hexDigits (Char.ofNat code)).length = 4 ∧
      Text.hexNumber? (hexDigits (Char.ofNat code)) = some code := by decide
  obtain ⟨hlength, hnumber⟩ := hall c.toNat h
  rw [Char.ofNat_toNat] at hlength hnumber
  match hdigits : hexDigits c, hlength with
  | [d₁, d₂, d₃, d₄], _ => exact ⟨d₁, d₂, d₃, d₄, rfl, by rw [← hdigits, hnumber]⟩

private theorem stringTail?_unit {c d₁ d₂ d₃ d₄ : Char} (h : c.toNat < 0x20)
    (hnumber : Text.hexNumber? [d₁, d₂, d₃, d₄] = some c.toNat) (cs : List Char) :
    stringTail? ('\\' :: 'u' :: d₁ :: d₂ :: d₃ :: d₄ :: cs) =
      (stringTail? cs).map fun tail ↦ (c :: tail.1, tail.2) := by
  have hhigh : isHighHalf c.toNat = false := by
    simp only [isHighHalf, Bool.and_eq_false_iff, decide_eq_false_iff_not]
    omega
  have hlow : isLowHalf c.toNat = false := by
    simp only [isLowHalf, Bool.and_eq_false_iff, decide_eq_false_iff_not]
    omega
  rw [stringTail?, hnumber]
  simp [hhigh, hlow]

private theorem stringTail?_escapeChar (c : Char) (cs : List Char) :
    stringTail? (escapeChar c ++ cs) =
      (stringTail? cs).map fun tail ↦ (c :: tail.1, tail.2) := by
  unfold escapeChar
  split
  · next h => subst h; simp [stringTail?, plainEscape?]
  split
  · next h => subst h; simp [stringTail?, plainEscape?]
  split
  · next h =>
    obtain rfl : c = Char.ofNat 0x8 := by rw [← h, Char.ofNat_toNat]
    simp [stringTail?, plainEscape?]
  split
  · next h =>
    obtain rfl : c = Char.ofNat 0xc := by rw [← h, Char.ofNat_toNat]
    simp [stringTail?, plainEscape?]
  split
  · next h => subst h; simp [stringTail?, plainEscape?]
  split
  · next h => subst h; simp [stringTail?, plainEscape?]
  split
  · next h => subst h; simp [stringTail?, plainEscape?]
  split
  · next hcontrol =>
    obtain ⟨d₁, d₂, d₃, d₄, hdigits, hnumber⟩ := hexNumber?_hexDigits hcontrol
    rw [hdigits]
    exact stringTail?_unit hcontrol hnumber cs
  · next hquote hslash _ _ _ _ _ hplain =>
    rw [List.singleton_append, stringTail?, if_neg hplain]
    · exact hquote
    · exact fun _ _ _ _ _ hc _ ↦ hslash hc
    · exact fun _ _ hc _ ↦ hslash hc

/-- What is written between quotes is read back. -/
theorem stringTail?_escape (text rest : List Char) :
    stringTail? (text.flatMap escapeChar ++ '"' :: rest) = some (text, rest) := by
  induction text with
  | nil => simp [stringTail?]
  | cons c text ih =>
    rw [List.flatMap_cons, List.append_assoc, stringTail?_escapeChar, ih]
    rfl

/-! ### Numbers -/

private theorem head?_toDigits {n : Nat} (h : 0 < n) : (Nat.toDigits 10 n).head? ≠ some '0' := by
  induction n using Nat.strongRecOn with
  | ind n ih =>
    by_cases hsmall : n < 10
    · have hall : ∀ digit < 10, 0 < digit → Nat.digitChar digit ≠ '0' := by decide
      rw [Nat.toDigits_of_lt_base hsmall]
      simpa using hall n hsmall h
    · have hrest := ih (n / 10) (by omega) (by omega)
      rw [Nat.toDigits_of_base_le (by omega) (by omega), List.head?_append_of_ne_nil]
      · exact hrest
      · exact Nat.toDigits_ne_nil

private theorem natural?_toDigits (n : Nat) {rest : List Char} (h : EndsNumber rest) :
    natural? (Nat.toDigits 10 n ++ rest) = some (n, rest) := by
  have hdigits : ∀ c ∈ Nat.toDigits 10 n, c.isDigit = true := fun c hc ↦
    Nat.isDigit_of_mem_toDigits (by omega) (by omega) hc
  have htake : (Nat.toDigits 10 n ++ rest).takeWhile Char.isDigit = Nat.toDigits 10 n := by
    rw [List.takeWhile_append_of_pos hdigits]
    cases rest with
    | nil => simp
    | cons c rest => simp [h c rfl]
  have hdrop : (Nat.toDigits 10 n ++ rest).dropWhile Char.isDigit = rest := by
    rw [List.dropWhile_append_of_pos hdigits]
    cases rest with
    | nil => rfl
    | cons c rest => simp [h c rfl]
  have hzero : (Nat.toDigits 10 n).head? = some '0' → (Nat.toDigits 10 n).length = 1 := by
    intro hhead
    rcases Nat.eq_zero_or_pos n with rfl | hpos
    · rfl
    · exact absurd hhead (head?_toDigits hpos)
  have hvalue : decimal (Nat.toDigits 10 n) = n := Nat.ofDigitChars_ten_toDigits
  rw [natural?, htake, hdrop, hvalue, if_neg]
  have hne : Nat.toDigits 10 n ≠ [] := Nat.toDigits_ne_nil
  simpa [hne] using hzero

private theorem value?_of_number? {cs rest : List Char} {c : Char} {n : Int}
    (hfirst : c = '-' ∨ c.isDigit = true) (h : number? (c :: cs) = some (n, rest)) (bound : Nat) :
    value? (bound + 1) (c :: cs) = some (number n, rest) := by
  have hne : ∀ other : Char, other ≠ '-' → other.isDigit = false → c ≠ other := by
    rintro other hminus hdigit rfl
    rcases hfirst with hfirst | hfirst
    · exact hminus hfirst
    · rw [hdigit] at hfirst
      cases hfirst
  have hskip : skipBlanks (c :: cs) = c :: cs := by
    have hblank : isBlank c = false := by
      simp only [isBlank, Bool.or_eq_false_iff, beq_eq_false_iff_ne]
      exact ⟨⟨⟨hne ' ' (by decide) (by decide), hne '\n' (by decide) (by decide)⟩,
        hne '\r' (by decide) (by decide)⟩, hne '\t' (by decide) (by decide)⟩
    rw [skipBlanks, List.dropWhile_cons_of_neg (by simp [hblank])]
  rw [value?, hskip]
  split
  · next heq => exact absurd (List.head_eq_of_cons_eq heq) (hne 'n' (by decide) (by decide))
  · next heq => exact absurd (List.head_eq_of_cons_eq heq) (hne 't' (by decide) (by decide))
  · next heq => exact absurd (List.head_eq_of_cons_eq heq) (hne 'f' (by decide) (by decide))
  · next heq => exact absurd (List.head_eq_of_cons_eq heq) (hne '"' (by decide) (by decide))
  · next heq => exact absurd (List.head_eq_of_cons_eq heq) (hne '[' (by decide) (by decide))
  · next heq => exact absurd (List.head_eq_of_cons_eq heq) (hne '\x7b' (by decide) (by decide))
  · rw [h]
    rfl

private theorem toDigits_eq_cons (n : Nat) :
    ∃ c cs, Nat.toDigits 10 n = c :: cs ∧ c.isDigit = true := by
  obtain ⟨c, cs, hcs⟩ := List.exists_cons_of_ne_nil (Nat.toDigits_ne_nil (b := 10) (n := n))
  refine ⟨c, cs, hcs, ?_⟩
  apply Nat.isDigit_of_mem_toDigits (b := 10) (n := n) (by omega) (by omega)
  rw [hcs]
  exact List.mem_cons_self

private theorem number?_toDigits (n : Nat) {rest : List Char} (h : EndsNumber rest) :
    number? (Nat.toDigits 10 n ++ rest) = some ((n : Int), rest) := by
  rw [number?, natural?_toDigits n h]
  · rfl
  · intro digits hminus
    obtain ⟨c, cs, hcs, hdigit⟩ := toDigits_eq_cons n
    rw [hcs, List.cons_append] at hminus
    rw [List.head_eq_of_cons_eq hminus] at hdigit
    exact absurd hdigit (by decide)

private theorem reads_of_number? {text cs : List Char} {c : Char} {n : Int}
    (htext : text = c :: cs) (hfirst : c = '-' ∨ c.isDigit = true)
    (h : ∀ rest, EndsNumber rest → number? (text ++ rest) = some (n, rest)) :
    Reads text (number n) := by
  intro bound rest hbound hrest
  have hread := h rest hrest
  rw [htext] at hbound hread ⊢
  rw [List.length_cons] at hbound
  obtain ⟨bound, rfl⟩ : ∃ less, bound = less + 1 := ⟨bound - 1, by omega⟩
  exact value?_of_number? hfirst hread bound

private theorem reads_number (n : Int) : Reads (toString n).toList (number n) := by
  cases n with
  | ofNat m =>
    have htext : (toString (Int.ofNat m)).toList = Nat.toDigits 10 m := by
      change (Nat.repr m).toList = _
      rw [Nat.repr_eq_ofList_toDigits, String.toList_ofList]
    obtain ⟨c, cs, hcs, hdigit⟩ := toDigits_eq_cons m
    rw [htext]
    exact reads_of_number? hcs (.inr hdigit) fun rest ↦ number?_toDigits m
  | negSucc m =>
    have htext : (toString (Int.negSucc m)).toList = '-' :: Nat.toDigits 10 (m + 1) := by
      change ("-" ++ Nat.repr (m + 1)).toList = _
      rw [String.toList_append, Nat.repr_eq_ofList_toDigits, String.toList_ofList]
      simp
    rw [htext]
    apply reads_of_number? rfl (.inl rfl)
    intro rest hrest
    rw [List.cons_append, number?, natural?_toDigits (m + 1) hrest]
    rfl

/-! ### Blanks -/

private theorem skipBlanks_append {blanks : List Char} (h : ∀ c ∈ blanks, isBlank c = true)
    (cs : List Char) : skipBlanks (blanks ++ cs) = skipBlanks cs :=
  List.dropWhile_append_of_pos h

private theorem skipBlanks_cons {c : Char} (h : isBlank c = false) (cs : List Char) :
    skipBlanks (c :: cs) = c :: cs :=
  List.dropWhile_cons_of_neg (by simp [h])

private theorem endsNumber_cons {c : Char} (h : c.isDigit = false) (cs : List Char) :
    EndsNumber (c :: cs) := by
  intro first hfirst
  obtain rfl := Option.some.inj hfirst
  exact h

private theorem endsNumber_append {blanks : List Char} (h : ∀ c ∈ blanks, isBlank c = true)
    {cs : List Char} (hcs : EndsNumber cs) : EndsNumber (blanks ++ cs) := by
  cases blanks with
  | nil => exact hcs
  | cons c blanks =>
    apply endsNumber_cons
    have hblank := h c List.mem_cons_self
    simp only [isBlank, Bool.or_eq_true, beq_iff_eq] at hblank
    rcases hblank with ((rfl | rfl) | rfl) | rfl <;> decide

private theorem Reads.append_blanks (blanks : List Char)
    (hblanks : ∀ c ∈ blanks, isBlank c = true) {text : List Char} {value : Json}
    (h : Reads text value) : Reads (blanks ++ text) value := by
  intro bound rest hbound hrest
  rw [List.length_append] at hbound
  have hread := h bound rest (by omega) hrest
  rw [List.append_assoc]
  cases bound with
  | zero => exact hread
  | succ bound =>
    rw [value?] at hread ⊢
    rw [skipBlanks_append hblanks]
    exact hread

private theorem reads_null : Reads "null".toList null := by
  intro bound rest hbound _
  obtain ⟨bound, rfl⟩ : ∃ less, bound = less + 1 := ⟨bound - 1, by simp at hbound; omega⟩
  rfl

private theorem reads_bool (value : Bool) :
    Reads (if value then "true" else "false").toList (bool value) := by
  intro bound rest hbound _
  cases value with
  | true =>
    obtain ⟨bound, rfl⟩ : ∃ less, bound = less + 1 := ⟨bound - 1, by simp at hbound; omega⟩
    rfl
  | false =>
    obtain ⟨bound, rfl⟩ : ∃ less, bound = less + 1 := ⟨bound - 1, by simp at hbound; omega⟩
    rfl

private theorem reads_quote (text : String) : Reads (quote text) (string text) := by
  intro bound rest hbound _
  have hread := stringTail?_escape text.toList rest
  rw [quote] at hbound ⊢
  simp only [List.cons_append, List.append_assoc, List.nil_append, List.length_cons] at hbound ⊢
  obtain ⟨bound, rfl⟩ : ∃ less, bound = less + 1 := ⟨bound - 1, by omega⟩
  rw [value?, skipBlanks_cons (by decide)]
  simp [hread]

/-! ### Arrays and objects -/

private theorem skipBlanks_close {blanks : List Char} (h : ∀ c ∈ blanks, isBlank c = true)
    {close : Char} (hclose : isBlank close = false) (rest : List Char) :
    skipBlanks (blanks ++ close :: rest) = close :: rest := by
  rw [skipBlanks_append h, skipBlanks_cons hclose]

private theorem items?_of_reads {texts : List (List Char)} {items : List Json}
    (h : List.Forall₂ Reads texts items) (hne : texts ≠ []) {blanks : List Char}
    (hblanks : ∀ c ∈ blanks, isBlank c = true) (bound : Nat)
    (hbound : ([','].intercalate texts).length < bound) (rest : List Char) :
    items? bound ([','].intercalate texts ++ (blanks ++ ']' :: rest)) = some (items, rest) := by
  induction h generalizing bound with
  | nil => exact absurd rfl hne
  | @cons text item texts items htext hrest ih =>
    obtain ⟨bound, rfl⟩ : ∃ less, bound = less + 1 := ⟨bound - 1, by omega⟩
    cases hrest with
    | nil =>
      rw [List.intercalate_singleton] at hbound ⊢
      have hitem := htext bound (blanks ++ ']' :: rest) (by omega)
        (endsNumber_append hblanks (endsNumber_cons (by decide) rest))
      rw [items?, hitem]
      simp [skipBlanks_close hblanks (show isBlank ']' = false by decide)]
    | @cons text' item' texts items htext' hrest =>
      rw [List.intercalate_cons_cons] at hbound ⊢
      simp only [List.length_append, List.length_singleton] at hbound
      have hitem := htext bound (',' :: ([','].intercalate (text' :: texts) ++
        (blanks ++ ']' :: rest))) (by omega) (endsNumber_cons (by decide) _)
      have hitems := ih (by simp) bound (by omega)
      rw [items?, List.append_assoc, List.append_assoc, List.singleton_append, hitem]
      simp [skipBlanks_cons (show isBlank ',' = false by decide), hitems]

-- Items are no empty array: none starts with a closing bracket.
private theorem value?_of_items? {bound : Nat} {cs rest : List Char} {items : List Json}
    (h : items? bound cs = some (items, rest)) :
    value? (bound + 1) ('[' :: cs) = some (array items, rest) := by
  have hopen : ∀ tail, skipBlanks cs ≠ ']' :: tail := by
    intro tail hclose
    have hnone : ∀ bound, value? bound cs = none := by
      intro bound
      cases bound with
      | zero => rw [value?]
      | succ bound =>
        rw [value?, hclose]
        simp [number?, natural?]
    cases bound with
    | zero => cases h
    | succ bound =>
      rw [items?, hnone] at h
      cases h
  -- By `hopen` the array is not taken for an empty one.
  rw [value?, skipBlanks_cons (by decide)]
  simp only [h]
  rfl

private theorem value?_of_members? {bound : Nat} {cs rest : List Char}
    {members : List (String × Json)} (h : members? bound cs = some (members, rest)) :
    value? (bound + 1) ('\x7b' :: cs) = some (object members, rest) := by
  have hopen : ∀ tail, skipBlanks cs ≠ '\x7d' :: tail := by
    intro tail hclose
    cases bound with
    | zero => cases h
    | succ bound =>
      rw [members?, hclose] at h
      simp at h
  rw [value?, skipBlanks_cons (by decide)]
  simp only [h]
  rfl

private theorem reads_array {texts : List (List Char)} {items : List Json}
    (h : List.Forall₂ Reads texts items) (blanks : List Char)
    (hblanks : ∀ c ∈ blanks, isBlank c = true) :
    Reads ('[' :: [','].intercalate texts ++ blanks ++ [']']) (array items) := by
  intro bound rest hbound hrest
  simp only [List.cons_append, List.length_cons, List.length_append, List.length_nil,
    List.append_assoc, List.nil_append] at hbound ⊢
  obtain ⟨bound, rfl⟩ : ∃ less, bound = less + 1 := ⟨bound - 1, by omega⟩
  by_cases hempty : texts = []
  · subst hempty
    cases h
    have hclose := skipBlanks_close hblanks (show isBlank ']' = false by decide) rest
    rw [value?, skipBlanks_cons (by decide)]
    simp [hclose]
  · exact value?_of_items? (items?_of_reads h hempty hblanks bound (by omega) rest)

-- What is read after one member: a comma and more of them, or the closing brace.
private def membersAfter (bound : Nat) (member : String × Json) (rest : List Char) :
    Option (List (String × Json) × List Char) :=
  match skipBlanks rest with
  | ',' :: rest => (members? bound rest).map fun read ↦ (member :: read.1, read.2)
  | '\x7d' :: rest => some ([member], rest)
  | _ => none

private theorem members?_of_readsMember {text : List Char} {member : String × Json}
    (h : ReadsMember text member) {bound : Nat} (hbound : text.length ≤ bound) {rest : List Char}
    (hrest : EndsNumber rest) :
    members? (bound + 1) (text ++ rest) = membersAfter bound member rest := by
  obtain ⟨key, value⟩ := member
  obtain ⟨blanks, valueText, hblanks, rfl, hvalue⟩ := h
  simp only [List.length_append, List.length_cons] at hbound
  have hkey := stringTail?_escape key.toList (':' :: (valueText ++ rest))
  have hread := hvalue bound rest (by omega) hrest
  rw [members?]
  simp only [quote, List.append_assoc, List.cons_append, List.nil_append]
  rw [skipBlanks_append hblanks, skipBlanks_cons (by decide)]
  simp only [hkey, hread, skipBlanks_cons (show isBlank ':' = false by decide),
    Option.bind_eq_bind, Option.bind_some, String.ofList_toList]
  rfl

private theorem members?_of_reads {texts : List (List Char)} {members : List (String × Json)}
    (h : List.Forall₂ ReadsMember texts members) (hne : texts ≠ []) {blanks : List Char}
    (hblanks : ∀ c ∈ blanks, isBlank c = true) (bound : Nat)
    (hbound : ([','].intercalate texts).length < bound) (rest : List Char) :
    members? bound ([','].intercalate texts ++ (blanks ++ '\x7d' :: rest)) =
      some (members, rest) := by
  induction h generalizing bound with
  | nil => exact absurd rfl hne
  | @cons text member texts members htext hrest ih =>
    obtain ⟨bound, rfl⟩ : ∃ less, bound = less + 1 := ⟨bound - 1, by omega⟩
    cases hrest with
    | nil =>
      rw [List.intercalate_singleton] at hbound ⊢
      rw [members?_of_readsMember htext (by omega)
        (endsNumber_append hblanks (endsNumber_cons (by decide) rest)), membersAfter,
        skipBlanks_close hblanks (by decide)]
      rfl
    | @cons text' member' texts members htext' hrest =>
      rw [List.intercalate_cons_cons] at hbound ⊢
      simp only [List.length_append, List.length_singleton] at hbound
      have hmembers := ih (by simp) bound (by omega)
      rw [List.append_assoc, List.append_assoc, List.singleton_append,
        members?_of_readsMember htext (by omega) (endsNumber_cons (by decide) _), membersAfter,
        skipBlanks_cons (by decide)]
      simp [hmembers]

private theorem reads_object {texts : List (List Char)} {members : List (String × Json)}
    (h : List.Forall₂ ReadsMember texts members) (blanks : List Char)
    (hblanks : ∀ c ∈ blanks, isBlank c = true) :
    Reads ('\x7b' :: [','].intercalate texts ++ blanks ++ ['\x7d']) (object members) := by
  intro bound rest hbound hrest
  simp only [List.cons_append, List.length_cons, List.length_append, List.length_nil,
    List.append_assoc, List.nil_append] at hbound ⊢
  obtain ⟨bound, rfl⟩ : ∃ less, bound = less + 1 := ⟨bound - 1, by omega⟩
  by_cases hempty : texts = []
  · subst hempty
    cases h
    have hclose := skipBlanks_close hblanks (show isBlank '\x7d' = false by decide) rest
    rw [value?, skipBlanks_cons (by decide)]
    simp [hclose]
  · exact value?_of_members? (members?_of_reads h hempty hblanks bound (by omega) rest)

/-! ### The two layouts -/

mutual

private theorem reads_compactChars : ∀ value : Json, Reads value.compactChars value
  | null => reads_null
  | bool value => reads_bool value
  | number value => reads_number value
  | string value => reads_quote value
  | array items => by
    have h := reads_array (reads_compactItems items) [] (by simp)
    simpa [compactChars] using h
  | object members => by
    have h := reads_object (reads_compactMembers members) [] (by simp)
    simpa [compactChars] using h

private theorem reads_compactItems :
    ∀ items : List Json, List.Forall₂ Reads (compactItems items) items
  | [] => .nil
  | item :: items => .cons (reads_compactChars item) (reads_compactItems items)

private theorem reads_compactMembers :
    ∀ members : List (String × Json), List.Forall₂ ReadsMember (compactMembers members) members
  | [] => .nil
  | (key, value) :: members =>
    .cons ⟨[], value.compactChars, by simp, by simp, reads_compactChars value⟩
      (reads_compactMembers members)

end

private theorem isBlank_of_mem_newLine {level : Nat} {c : Char} (h : c ∈ newLine level) :
    isBlank c = true := by
  rw [newLine, List.mem_cons, List.mem_replicate] at h
  rcases h with rfl | ⟨-, rfl⟩ <;> decide

mutual

private theorem reads_indentedChars :
    ∀ (level : Nat) (value : Json), Reads (value.indentedChars level) value
  | _, null => reads_null
  | _, bool value => reads_bool value
  | _, number value => reads_number value
  | _, string value => reads_quote value
  | _, array [] => reads_array .nil [] (by simp)
  | level, array (item :: items) =>
    reads_array (reads_indentedItems (level + 1) (item :: items)) _
      (fun _ hc ↦ isBlank_of_mem_newLine hc)
  | _, object [] => reads_object .nil [] (by simp)
  | level, object (member :: members) =>
    reads_object (reads_indentedMembers (level + 1) (member :: members)) _
      (fun _ hc ↦ isBlank_of_mem_newLine hc)

private theorem reads_indentedItems :
    ∀ (level : Nat) (items : List Json), List.Forall₂ Reads (indentedItems level items) items
  | _, [] => .nil
  | level, item :: items =>
    .cons (.append_blanks _ (fun _ hc ↦ isBlank_of_mem_newLine hc) (reads_indentedChars level item))
      (reads_indentedItems level items)

private theorem reads_indentedMembers :
    ∀ (level : Nat) (members : List (String × Json)),
      List.Forall₂ ReadsMember (indentedMembers level members) members
  | _, [] => .nil
  | level, (key, value) :: members =>
    .cons ⟨newLine level, ' ' :: value.indentedChars level,
      fun _ hc ↦ isBlank_of_mem_newLine hc, rfl,
      .append_blanks [' '] (by simp [isBlank]) (reads_indentedChars level value)⟩
      (reads_indentedMembers level members)

end

/-- A rendered value is parsed to itself, whichever the layout. -/
theorem parse?_render (indented : Bool) (value : Json) :
    parse? (value.render indented) = some value := by
  have hreads : Reads (value.render indented).toList value := by
    rw [render, String.toList_ofList]
    cases indented with
    | true => exact reads_indentedChars 0 value
    | false => exact reads_compactChars value
  have hread := hreads (2 * (value.render indented).toList.length + 2) [] (by omega)
    fun _ hc ↦ by cases hc
  rw [List.append_nil] at hread
  rw [parse?, hread]
  rfl

end PropDoc.Json
