import Mathlib.Data.String.Basic

/-!
# Ranges of a text

Ranges of characters by their indices, and of bytes by their offsets. There is no range that ends
before it starts or after the text does, and none of bytes that starts or ends within a character.
-/

namespace PropDoc.Text

/-! ### Characters -/

/-- A character that is found at an index splits the text there. -/
theorem exists_split_of_getElem? {chars : List Char} {index : Nat} {c : Char}
    (h : chars[index]? = some c) :
    ∃ before rest, chars = before ++ c :: rest ∧ index = before.length := by
  obtain ⟨hlt, rfl⟩ := List.getElem?_eq_some_iff.mp h
  exact ⟨chars.take index, chars.drop (index + 1), by simp, (List.length_take_of_le hlt.le).symm⟩

/-- The first index of a character that nothing before it is equal to. -/
theorem idxOf?_append_cons {c : Char} (before after : List Char) (h : c ∉ before) :
    (before ++ c :: after).idxOf? c = some before.length := by
  have hbefore : before.findIdx? (· == c) = none := List.idxOf?_eq_none_iff.mpr h
  simp [List.idxOf?, List.findIdx?_append, List.findIdx?_cons, hbefore]

/-- The characters from one index up to another, if there are that many. -/
def slice? (chars : List Char) (start stop : Nat) : Option (List Char) :=
  if start ≤ stop ∧ stop ≤ chars.length then some ((chars.take stop).drop start) else none

/-- A range of characters is what stands between those before its start and those after it. -/
theorem slice?_eq_some_iff (chars middle : List Char) (start stop : Nat) :
    slice? chars start stop = some middle ↔
      ∃ before after, chars = before ++ (middle ++ after) ∧ start = before.length ∧
        stop = before.length + middle.length := by
  constructor
  · intro h
    unfold slice? at h
    split at h
    · next hle =>
      obtain rfl := Option.some.inj h
      refine ⟨chars.take start, chars.drop stop, ?_, ?_, ?_⟩
      · have hbefore : chars.take start = (chars.take stop).take start := by
          rw [List.take_take, min_eq_left hle.1]
        rw [← List.append_assoc, hbefore, List.take_append_drop, List.take_append_drop]
      · simp
        omega
      · simp
        omega
    · cases h
  · rintro ⟨before, after, rfl, rfl, rfl⟩
    rw [slice?, if_pos (by simp), ← List.append_assoc, ← List.length_append, List.take_left,
      List.drop_left]

/-! ### Bytes -/

/-- What stands before and after a number of bytes, if a character ends there. -/
def splitAtByte? : List Char → Nat → Option (List Char × List Char)
  | chars, 0 => some ([], chars)
  | [], _ + 1 => none
  | c :: chars, bytes + 1 =>
    if c.utf8Size ≤ bytes + 1 then
      (splitAtByte? chars (bytes + 1 - c.utf8Size)).map fun halves ↦ (c :: halves.1, halves.2)
    else none

/-- A text is split after some bytes exactly where these are the bytes of some characters. -/
theorem splitAtByte?_eq_some_iff (chars : List Char) (bytes : Nat) (before after : List Char) :
    splitAtByte? chars bytes = some (before, after) ↔
      chars = before ++ after ∧ bytes = String.utf8Len before := by
  fun_induction splitAtByte? chars bytes generalizing before after with
  | case1 chars =>
    cases before with
    | nil => simp
    | cons c before =>
      have hpos := c.utf8Size_pos
      simp only [Option.some.injEq, Prod.mk.injEq, List.nil_eq, reduceCtorEq, false_and, false_iff,
        String.utf8Len_cons]
      omega
  | case2 => cases before <;> simp
  | case3 c chars bytes hle ih =>
    cases before with
    | nil => simp
    | cons d before =>
      simp only [Option.map_eq_some_iff, Prod.exists, Prod.mk.injEq, List.cons.injEq,
        List.cons_append, String.utf8Len_cons, ih]
      constructor
      · rintro ⟨_, _, ⟨rfl, hbytes⟩, ⟨rfl, rfl⟩, rfl⟩
        exact ⟨⟨rfl, rfl⟩, by omega⟩
      · rintro ⟨⟨rfl, rfl⟩, hbytes⟩
        exact ⟨before, after, ⟨rfl, by omega⟩, ⟨rfl, rfl⟩, rfl⟩
  | case4 c chars bytes hlt =>
    cases before with
    | nil => simp
    | cons d before =>
      simp only [reduceCtorEq, List.cons_append, List.cons.injEq, String.utf8Len_cons, false_iff]
      rintro ⟨⟨rfl, -⟩, hbytes⟩
      omega

/-- The characters from one byte up to another, if characters end at both. -/
def byteSlice? (chars : List Char) (start stop : Nat) : Option (List Char) := do
  let (_, rest) ← splitAtByte? chars start
  let (middle, _) ← if start ≤ stop then splitAtByte? rest (stop - start) else none
  some middle

/-- The bytes between two texts are cut out by the lengths before and after them. -/
theorem byteSlice?_append (before middle after : List Char) :
    byteSlice? (before ++ (middle ++ after)) (String.utf8Len before)
      (String.utf8Len before + String.utf8Len middle) = some middle := by
  have hstart := (splitAtByte?_eq_some_iff _ _ before (middle ++ after)).mpr ⟨rfl, rfl⟩
  have hstop := (splitAtByte?_eq_some_iff _ _ middle after).mpr ⟨rfl, rfl⟩
  simp [byteSlice?, hstart, hstop]

end PropDoc.Text
