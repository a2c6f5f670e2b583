import Mathlib.Tactic

/-!
# Lines of Bytes

A reader of lines looks for newline bytes before it decodes a line. In UTF-8 a byte below 128
stands for the character of its number and occurs nowhere else, so lines of bytes and lines of
characters are the same lines.
-/

namespace HotIndex.Lib

/-! ## UTF-8 -/

/-- A byte below 128 in the encoding of a character is that character. -/
theorem toNat_of_mem_utf8EncodeChar {c : Char} {b : UInt8} (hb : b ∈ String.utf8EncodeChar c)
    (hascii : b.toNat < 128) : c.toNat = b.toNat := by
  have hc : c.val.toNat < 0x110000 := by
    rcases c.valid with h | h
    · exact Nat.lt_trans h (by decide)
    · exact h.2
  show c.val.toNat = _
  unfold String.utf8EncodeChar at hb
  simp only at hb
  -- one case for each length of an encoding; only the shortest has such a byte
  split_ifs at hb <;> simp only [List.mem_cons, List.not_mem_nil, or_false] at hb
  · rw [hb, UInt8.toNat_ofNat']
    omega
  · rcases hb with rfl | rfl <;> rw [UInt8.toNat_ofNat'] at hascii <;> omega
  · rcases hb with rfl | rfl | rfl <;> rw [UInt8.toNat_ofNat'] at hascii <;> omega
  · rcases hb with rfl | rfl | rfl | rfl <;> rw [UInt8.toNat_ofNat'] at hascii <;> omega

theorem ten_mem_utf8EncodeChar_iff {c : Char} : 10 ∈ String.utf8EncodeChar c ↔ c = '\n' := by
  constructor
  · intro h
    exact Char.toNat_inj.1 (toNat_of_mem_utf8EncodeChar h (by decide))
  · rintro rfl
    decide

theorem thirteen_mem_utf8EncodeChar_iff {c : Char} :
    13 ∈ String.utf8EncodeChar c ↔ c = '\r' := by
  constructor
  · intro h
    exact Char.toNat_inj.1 (toNat_of_mem_utf8EncodeChar h (by decide))
  · rintro rfl
    decide

/-- Decoding undoes encoding. -/
theorem fromUTF8?_toByteArray (text : String) : String.fromUTF8? text.toByteArray = some text := by
  unfold String.fromUTF8?
  rw [dif_pos text.isValidUTF8]
  rfl

/-- What can be decoded is the encoding of the result. -/
theorem toByteArray_of_fromUTF8? {bytes : ByteArray} {text : String}
    (h : String.fromUTF8? bytes = some text) : text.toByteArray = bytes := by
  unfold String.fromUTF8? at h
  split_ifs at h with hvalid
  cases h
  rfl

/-! ## Lines -/

/-- `BufRead::lines` on bytes, `current` being the line so far in reverse: a line ends at a
newline, which a carriage return may precede, or at the end of the input. -/
def byteLines (current : List UInt8) : List UInt8 → List (List UInt8)
  | [] => if current.isEmpty then [] else [current.reverse]
  | b :: rest =>
    if b = 10 then
      (if current.head? = some 13 then current.tail else current).reverse :: byteLines [] rest
    else byteLines (b :: current) rest

/-- Bytes without a newline go into the current line. -/
theorem byteLines_append_of_notMem {bytes : List UInt8} (h : 10 ∉ bytes)
    (current rest : List UInt8) :
    byteLines current (bytes ++ rest) = byteLines (bytes.reverse ++ current) rest := by
  induction bytes generalizing current with
  | nil => rfl
  | cons b bytes ih =>
    rw [List.mem_cons, not_or] at h
    rw [List.cons_append, byteLines, if_neg (Ne.symm h.1), ih h.2, List.reverse_cons,
      List.append_assoc]
    rfl

theorem byteLines_newline (current rest : List UInt8) :
    byteLines current (10 :: rest) =
      (if current.head? = some 13 then current.tail else current).reverse ::
        byteLines [] rest := by
  rw [byteLines, if_pos rfl]

/-- Lines that are written with a newline behind each are read back. -/
theorem byteLines_written {lines : List (List UInt8)}
    (hnewline : ∀ line ∈ lines, 10 ∉ line) (hreturn : ∀ line ∈ lines, 13 ∉ line) :
    byteLines [] (lines.flatMap (fun line => line ++ [10])) = lines := by
  induction lines with
  | nil => rfl
  | cons line lines ih =>
    rw [List.forall_mem_cons] at hnewline hreturn
    have hhead : ¬ (line.reverse ++ []).head? = some 13 := by
      rw [List.append_nil]
      exact fun h => hreturn.1 (List.mem_reverse.1 (List.mem_of_mem_head? h))
    rw [List.flatMap_cons, List.append_assoc, byteLines_append_of_notMem hnewline.1]
    show byteLines _ (10 :: lines.flatMap _) = _
    rw [byteLines_newline, if_neg hhead, ih hnewline.2 hreturn.2, List.append_nil,
      List.reverse_reverse]

end HotIndex.Lib
