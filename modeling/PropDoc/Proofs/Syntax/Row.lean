import PropDoc.Proofs.Text.Bytes
import PropDoc.Syntax.Node

/-!
# Rows of a source

A row is counted in bytes and the lines of a text in characters. The two agree: in UTF-8 a newline
is one byte, and no other character has that byte.
-/

namespace PropDoc

namespace Text

private theorem count_utf8EncodeChar (c : Char) :
    (String.utf8EncodeChar c).count 10 = if c = '\n' then 1 else 0 := by
  have hnewline : c = '\n' ↔ c.val.toNat = 10 := by
    rw [← Char.val_inj, ← UInt32.toNat_inj]
    rfl
  have hcode := code_lt c
  simp only [hnewline]
  rw [String.utf8EncodeChar]
  generalize c.val.toNat = n at hcode
  split_ifs <;>
    simp (disch := omega) [List.count_cons, ← UInt8.toNat_inj, Nat.mod_eq_of_lt] <;>
    omega

/-- A text has as many newlines as its bytes. -/
theorem count_bytes_newline (text : String) : (bytes text).count 10 = text.toList.count '\n' := by
  rw [bytes_eq]
  induction text.toList with
  | nil => rfl
  | cons c cs ih =>
    rw [List.flatMap_cons, List.count_append, ih, count_utf8EncodeChar, List.count_cons,
      Nat.add_comm]
    simp

end Text

namespace Syntax.Source

/-- The row at the end of a slice is at least as many rows below its start as the slice has
newlines. A slice that is no text has none. -/
theorem row_add_count_slice_le (source : Source) {start stop : Nat} (h : start ≤ stop) :
    source.row start + (source.slice start stop).toList.count '\n' ≤ source.row stop := by
  have hslice : (source.slice start stop).toList.count '\n' ≤
      ((source.before stop).drop start).count 10 := by
    unfold slice String.fromUTF8?
    split
    · next hvalid =>
      have hbytes : Text.bytes (String.fromUTF8 _ hvalid) = (source.before stop).drop start := by
        simp [Text.bytes, before, String.fromUTF8, List.drop_take]
      rw [Option.getD_some, ← Text.count_bytes_newline, hbytes]
    · exact Nat.zero_le _
  have hbefore : source.before start = (source.before stop).take start := by
    rw [before, before, List.take_take, Nat.min_eq_left h]
  calc source.row start + (source.slice start stop).toList.count '\n'
    _ ≤ ((source.before stop).take start).count 10 +
        ((source.before stop).drop start).count 10 := by
      rw [row, hbefore]
      exact Nat.add_le_add_left hslice _
    _ = source.row stop := by
      rw [← List.count_append, List.take_append_drop, row]

end Syntax.Source

end PropDoc
