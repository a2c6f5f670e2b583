import HotIndex.Dataset.DatasetDir
import HotIndex.Storage.RowJson

/-!
# NDJSON Files

A row is written as its JSON text and a newline. `serde_json` escapes every control character,
so the text of a row is one line, and a file that `write_ndjson` wrote is read back row by row
(`readNdjson_written`).

Readers take lines of bytes and decode each; on a whole text these are the lines of its characters
(`byteLines_asBytes`). So the rows of a fixture file are those of its text
(`parseFixtureJsonlFile_eq_ok_iff`).
-/

namespace HotIndex

open Lib RustText

/-! ## Texts as bytes -/

theorem asBytes_ofList (letters : List Char) :
    asBytes (String.ofList letters) = letters.flatMap String.utf8EncodeChar := by
  unfold asBytes
  rw [String.toByteArray_ofList, List.utf8Encode, List.data_toByteArray]

theorem asBytes_eq_flatMap (text : String) :
    asBytes text = text.toList.flatMap String.utf8EncodeChar := by
  rw [← asBytes_ofList, String.ofList_toList]

theorem readText_eq_ok_iff {content : Bytes} {text : String} :
    readText content = .ok text ↔ content = asBytes text := by
  unfold readText
  constructor
  · intro h
    cases hdecoded : String.fromUTF8? ⟨content.toArray⟩ with
    | none =>
      rw [hdecoded] at h
      cases h
    | some decoded =>
      rw [hdecoded] at h
      cases h
      unfold asBytes
      rw [toByteArray_of_fromUTF8? hdecoded]
  · rintro rfl
    unfold asBytes
    rw [Array.toArray_toList, fromUTF8?_toByteArray]

theorem readText_asBytes (text : String) : readText (asBytes text) = .ok text :=
  readText_eq_ok_iff.2 rfl

/-! ## Lines of characters and lines of bytes -/

theorem splitLines_newline (current rest : List Char) :
    splitLines current ('\n' :: rest) =
      String.ofList (if current.head? = some '\r' then current.tail else current).reverse ::
        splitLines [] rest := by
  -- only a carriage return at the end of the line goes
  cases current with
  | nil => rfl
  | cons c line =>
    by_cases hc : c = '\r'
    · subst hc
      rw [List.head?_cons, if_pos rfl]
      rfl
    · rw [splitLines, if_neg (by simpa using hc)]
      intro line' heq
      cases heq
      exact hc rfl

theorem splitLines_cons_of_ne {c : Char} (hc : c ≠ '\n') (current rest : List Char) :
    splitLines current (c :: rest) = splitLines (c :: current) rest := by
  rw [splitLines.eq_def]
  split
  · -- the text is not empty
    rename_i heq
    cases heq
  · rename_i heq
    cases heq
    exact absurd rfl hc
  · rename_i heq
    cases heq
    rfl

/-- The bytes of some letters, the last letter first. -/
private def encodedReverse (letters : List Char) : Bytes :=
  (letters.reverse.flatMap String.utf8EncodeChar).reverse

private theorem encodedReverse_cons (c : Char) (letters : List Char) :
    encodedReverse (c :: letters) =
      (String.utf8EncodeChar c).reverse ++ encodedReverse letters := by
  simp [encodedReverse, List.flatMap_append]

private theorem reverse_encodedReverse (letters : List Char) :
    (encodedReverse letters).reverse = asBytes (String.ofList letters.reverse) := by
  rw [encodedReverse, List.reverse_reverse, asBytes_ofList]

/-- The last byte is a carriage return if the last letter is one. -/
private theorem strip_encodedReverse (current : List Char) :
    (if (encodedReverse current).head? = some 13 then (encodedReverse current).tail
      else encodedReverse current) =
    encodedReverse (if current.head? = some '\r' then current.tail else current) := by
  cases current with
  | nil => rfl
  | cons c rest =>
    by_cases hc : c = '\r'
    · subst hc
      have hcons : encodedReverse ('\r' :: rest) = 13 :: encodedReverse rest :=
        encodedReverse_cons _ _
      rw [hcons, List.head?_cons, List.head?_cons, if_pos rfl, if_pos rfl]
      rfl
    · -- byte 13 occurs in the encoding of no other character
      have hhead : ¬ (encodedReverse (c :: rest)).head? = some 13 := by
        intro h
        rw [encodedReverse_cons, List.head?_append_of_ne_nil _
          (by simp [String.utf8EncodeChar_ne_nil])] at h
        exact hc (thirteen_mem_utf8EncodeChar_iff.1
          (List.mem_reverse.1 (List.mem_of_mem_head? h)))
      rw [if_neg hhead, if_neg (by simpa using hc)]

private theorem byteLines_encoded (letters current : List Char) :
    byteLines (encodedReverse current) (letters.flatMap String.utf8EncodeChar) =
      (splitLines current letters).map asBytes := by
  -- both splitters walk the text together: a character other than a newline adds its bytes to the
  -- current line on the left and itself on the right
  induction letters generalizing current with
  | nil =>
    cases current with
    | nil => rfl
    | cons c current =>
      have hne : (encodedReverse (c :: current)).isEmpty = false := by
        rw [encodedReverse_cons]
        simp [String.utf8EncodeChar_ne_nil]
      rw [List.flatMap_nil, byteLines, hne, splitLines, reverse_encodedReverse]
      rfl
  | cons c letters ih =>
    rw [List.flatMap_cons]
    by_cases hc : c = '\n'
    · subst hc
      show byteLines _ (10 :: letters.flatMap _) = _
      rw [byteLines_newline, strip_encodedReverse, reverse_encodedReverse, splitLines_newline,
        List.map_cons, ← ih []]
      rfl
    · -- no byte of a longer encoding is a newline
      have hnewline : 10 ∉ String.utf8EncodeChar c := mt ten_mem_utf8EncodeChar_iff.1 hc
      rw [byteLines_append_of_notMem hnewline, splitLines_cons_of_ne hc, ← ih,
        encodedReverse_cons]

theorem byteLines_asBytes (text : String) :
    byteLines [] (asBytes text) = (splitLines [] text.toList).map asBytes := by
  rw [asBytes_eq_flatMap]
  exact byteLines_encoded text.toList []

/-- A file is text if all of its lines are. -/
theorem exists_asBytes_of_lines {content current : Bytes}
    (h : ∀ line ∈ byteLines current content, ∃ text, line = asBytes text) :
    ∃ text, current.reverse ++ content = asBytes text := by
  induction content generalizing current with
  | nil =>
    cases current with
    | nil => exact ⟨"", rfl⟩
    | cons b current =>
      obtain ⟨text, htext⟩ := h _ (List.mem_singleton_self _)
      exact ⟨text, by rw [List.append_nil, htext]⟩
  | cons b rest ih =>
    by_cases hb : b = 10
    · subst hb
      rw [byteLines_newline, List.forall_mem_cons] at h
      obtain ⟨⟨line, hline⟩, hrest⟩ := h
      obtain ⟨text, htext⟩ := ih hrest
      rw [List.reverse_nil, List.nil_append] at htext
      subst htext
      -- the line that ends here, with its end
      by_cases hreturn : current.head? = some 13
      · rw [if_pos hreturn] at hline
        obtain ⟨tail, rfl⟩ := List.head?_eq_some_iff.1 hreturn
        refine ⟨line ++ ("\r\n" ++ text), ?_⟩
        rw [asBytes_append, asBytes_append, ← hline, List.reverse_cons, List.append_assoc]
        rfl
      · rw [if_neg hreturn] at hline
        refine ⟨line ++ ("\n" ++ text), ?_⟩
        rw [asBytes_append, asBytes_append, ← hline]
        rfl
    · rw [byteLines, if_neg hb] at h
      obtain ⟨text, htext⟩ := ih h
      exact ⟨text, by rw [← htext, List.reverse_cons, List.append_assoc]; rfl⟩

theorem textLines_asBytes (lines : List String) :
    textLines (lines.map asBytes) = (lines, none) := by
  induction lines with
  | nil => rfl
  | cons line lines ih => rw [List.map_cons, textLines, readText_asBytes, ih]

/-- Lines that are all passed are text. -/
theorem texts_of_textLines {lines : List Bytes} (h : (textLines lines).2 = none) :
    ∀ bytes ∈ lines, ∃ text, bytes = asBytes text := by
  induction lines with
  | nil => exact nofun
  | cons bytes lines ih =>
    rw [textLines] at h
    -- a line that is no text would be the error
    cases hline : readText bytes with
    | error error =>
      rw [hline] at h
      cases h
    | ok line =>
      rw [hline] at h
      exact List.forall_mem_cons.2 ⟨⟨line, readText_eq_ok_iff.1 hline⟩, ih h⟩

/-- A fixture file has rows if it is text and the text has them. -/
theorem parseFixtureJsonlFile_eq_ok_iff {env : DatasetEnv} {options : ParserOptions}
    {rawInput : RawInput} {dir : DatasetDir} {rows : ParserOutput} :
    parseFixtureJsonlFile env options rawInput dir = .ok rows ↔
      ∃ text, dir.openFile env rawInput.place = .ok (asBytes text) ∧
        parseFixtureJsonlStr env.json options text = .ok rows := by
  unfold parseFixtureJsonlFile parseFixtureJsonlStr
  rw [bind_eq_ok_iff]
  constructor
  · rintro ⟨content, hcontent, h⟩
    obtain ⟨parsed, hparsed, hend⟩ := bind_eq_ok_iff.1 h
    cases herror : (textLines (byteLines [] content)).2 with
    | some error =>
      rw [herror] at hend
      cases hend
    | none =>
      rw [herror] at hend
      cases hend
      -- all lines are text, and so is the file
      obtain ⟨text, htext⟩ := exists_asBytes_of_lines (texts_of_textLines herror)
      rw [List.reverse_nil, List.nil_append] at htext
      subst htext
      rw [byteLines_asBytes, textLines_asBytes] at hparsed
      exact ⟨text, hcontent, hparsed⟩
  · rintro ⟨text, hcontent, hparsed⟩
    refine ⟨_, hcontent, ?_⟩
    rw [byteLines_asBytes, textLines_asBytes]
    exact bind_eq_ok_iff.2 ⟨rows, hparsed, rfl⟩

/-! ## Reading rows back -/

/-- The codec writes a row as one line of text that is not blank. -/
structure Codec.WritesLine {α : Type} (codec : Codec α) (row : α) : Prop where
  newline : 10 ∉ codec.toVec row
  carriageReturn : 13 ∉ codec.toVec row
  text : ∃ text, codec.toVec row = asBytes text ∧ (trim text).isEmpty = false

/-- A text that is not all blank. -/
theorem trim_isEmpty_of_mem {text : String} {c : Char} (hmem : c ∈ text.toList)
    (hc : isWhitespace c = false) : (trim text).isEmpty = false := by
  -- trimming drops whitespace only, at either end
  have hdrop : ∀ letters : List Char, c ∈ letters → c ∈ letters.dropWhile isWhitespace := by
    intro letters h
    induction letters with
    | nil => cases h
    | cons d letters ih =>
      rw [List.dropWhile_cons]
      split_ifs with hd
      · rcases List.mem_cons.1 h with rfl | h
        · rw [hc] at hd
          cases hd
        · exact ih h
      · exact h
  have hkept : c ∈ (trim text).toList := by
    rw [trim, String.toList_ofList, List.mem_reverse]
    exact hdrop _ (List.mem_reverse.2 (hdrop _ hmem))
  rw [Bool.eq_false_iff, ne_eq, String.isEmpty_iff]
  intro hempty
  rw [hempty] at hkept
  cases hkept

/-- The text of a JSON object is such a line. -/
theorem Codec.writesLine_of_isJsonLine {α : Type} {codec : Codec α} {row : α} {text : String}
    (htext : codec.toVec row = asBytes text) (hline : IsJsonLine text) :
    codec.WritesLine row := by
  -- no byte of a printable character is a control character
  have hcontrol : ∀ b : UInt8, b.toNat < 32 → b ∉ codec.toVec row := by
    intro b hb hmem
    rw [htext, asBytes_eq_flatMap] at hmem
    obtain ⟨c, hc, hbyte⟩ := List.mem_flatMap.1 hmem
    have hsame := toNat_of_mem_utf8EncodeChar hbyte (by omega)
    have hprintable := hline.printable c hc
    omega
  exact ⟨hcontrol 10 (by decide), hcontrol 13 (by decide), text, htext,
    trim_isEmpty_of_mem hline.brace_mem (by decide)⟩

section Rows

variable {α : Type} {codec : Codec α} {rows : List α}

theorem byteLines_ndjson (hline : ∀ row ∈ rows, codec.WritesLine row) :
    byteLines [] (ndjson codec rows) = rows.map codec.toVec := by
  have hwritten : ndjson codec rows =
      (rows.map codec.toVec).flatMap (fun line => line ++ [10]) := by
    rw [ndjson, List.flatMap_map]
  rw [hwritten]
  apply byteLines_written
  · -- no written row has a newline in it, or ends in a carriage return
    intro line hmem
    obtain ⟨row, hrow, rfl⟩ := List.mem_map.1 hmem
    exact (hline row hrow).newline
  · intro line hmem
    obtain ⟨row, hrow, rfl⟩ := List.mem_map.1 hmem
    exact (hline row hrow).carriageReturn

theorem readNdjsonLines_rows (hline : ∀ row ∈ rows, codec.WritesLine row)
    (htrips : ∀ row ∈ rows, codec.RoundTrips row) (display : String) (lineNo : Nat) :
    readNdjsonLines codec display (rows.map codec.toVec) lineNo = .ok rows := by
  induction rows generalizing lineNo with
  | nil => rfl
  | cons row rows ih =>
    rw [List.forall_mem_cons] at hline htrips
    obtain ⟨text, htext, hblank⟩ := hline.1.text
    -- the written line is not blank and parses back to its row
    have hparsed : parseRow codec display lineNo text = .ok row := by
      unfold parseRow
      rw [← htext, htrips.1]
    rw [List.map_cons, readNdjsonLines, htext, readText_asBytes]
    show (if (trim text).isEmpty then _ else _) = _
    rw [hblank, if_neg (by simp), hparsed, ih hline.2 htrips.2]
    rfl

/-- **NDJSON round trip.** A file that `write_ndjson` wrote is read back as the rows. -/
theorem readNdjson_written {env : DatasetEnv} {dir : DatasetDir} {place : FilePlace}
    (hline : ∀ row ∈ rows, codec.WritesLine row) (htrips : ∀ row ∈ rows, codec.RoundTrips row)
    (hfile : dir.read? env place = some (ndjson codec rows)) :
    readNdjson env codec dir place = .ok rows := by
  unfold readNdjson DatasetDir.openFile
  rw [hfile]
  show readNdjsonLines codec _ (byteLines [] (ndjson codec rows)) 1 = _
  rw [byteLines_ndjson hline]
  exact readNdjsonLines_rows hline htrips _ 1

end Rows

end HotIndex
