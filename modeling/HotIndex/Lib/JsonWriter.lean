import Mathlib.Data.List.Basic

/-!
# Writing JSON

Compact JSON text, as `serde_json` writes it: no blanks, strings with the short escapes
where there are any.
-/

namespace HotIndex.Lib

/-- How `serde_json` writes a character inside a string. -/
def jsonChar (c : Char) : String :=
  match c.toNat with
  | 8 => "\\b"
  | 9 => "\\t"
  | 10 => "\\n"
  | 12 => "\\f"
  | 13 => "\\r"
  | 34 => "\\\""
  | 92 => "\\\\"
  | n =>
    if n < 32 then "\\u00" ++ String.ofList [Nat.digitChar (n / 16), Nat.digitChar (n % 16)]
    else String.ofList [c]

def jsonText (text : String) : String :=
  "\"" ++ String.join (text.toList.map jsonChar) ++ "\""

def jsonOption {α : Type} (json : α → String) : Option α → String
  | some value => json value
  | none => "null"

def jsonObject (fields : List (String × String)) : String :=
  "\x7b" ++ String.intercalate "," (fields.map (fun (name, value) => jsonText name ++ ":" ++ value))
    ++ "\x7d"

def jsonArray (values : List String) : String := "[" ++ String.intercalate "," values ++ "]"

/-! ## Letters

The text of a value is put together from many strings; its letters are put together as lists. -/

/-- The letters of `jsonText`. -/
def jsonTextLetters (text : String) : List Char :=
  '"' :: text.toList.flatMap (fun c => (jsonChar c).toList) ++ ['"']

theorem toList_jsonText (text : String) : (jsonText text).toList = jsonTextLetters text := by
  simp [jsonText, jsonTextLetters, String.toList_append, String.toList_join, List.flatMap_map]

/-- The letters of `jsonObject`, for values that are given by their letters. -/
def jsonObjectLetters (fields : List (String × List Char)) : List Char :=
  '{' :: [','].intercalate (fields.map (fun field =>
    jsonTextLetters field.1 ++ ':' :: field.2)) ++ ['}']

theorem toList_jsonObject (fields : List (String × String)) :
    (jsonObject fields).toList =
      jsonObjectLetters (fields.map (fun field => (field.1, field.2.toList))) := by
  simp [jsonObject, jsonObjectLetters, String.toList_append, String.toList_intercalate,
    toList_jsonText, Function.comp_def]

/-! ## One line

Every control character is escaped, so a value is written on one line. -/

/-- A text without control characters. -/
def Printable (text : String) : Prop := ∀ c ∈ text.toList, 32 ≤ c.toNat

instance (text : String) : Decidable (Printable text) :=
  List.decidableBAll (fun c : Char => 32 ≤ c.toNat) text.toList

theorem Printable.append {a b : String} (ha : Printable a) (hb : Printable b) :
    Printable (a ++ b) := by
  unfold Printable
  rw [String.toList_append]
  exact List.forall_mem_append.2 ⟨ha, hb⟩

theorem printable_join {texts : List String} (h : ∀ text ∈ texts, Printable text) :
    Printable (String.join texts) := by
  intro c hc
  rw [String.toList_join] at hc
  obtain ⟨text, htext, hmem⟩ := List.mem_flatMap.1 hc
  exact h text htext c hmem

theorem printable_digits (n : Nat) : Printable (String.ofList (Nat.toDigits 10 n)) := by
  intro c hc
  rw [String.toList_ofList] at hc
  have hdigit := Nat.isDigit_of_mem_toDigits (by decide) (by decide) hc
  simp only [Char.isDigit, Bool.and_eq_true, decide_eq_true_eq] at hdigit
  have hzero : ('0').toNat ≤ c.toNat := hdigit.1
  exact Nat.le_trans (by decide) hzero

theorem printable_jsonChar (c : Char) : Printable (jsonChar c) := by
  have hdigit : ∀ d < 16, 32 ≤ (Nat.digitChar d).toNat := by decide
  unfold jsonChar
  split
  iterate 7 decide
  split_ifs with hcontrol
  · -- a control character is written with two hexadecimal digits
    apply Printable.append (by decide)
    have hpair : Printable (String.ofList [Nat.digitChar (c.toNat / 16),
        Nat.digitChar (c.toNat % 16)]) := by
      unfold Printable
      rw [String.toList_ofList, List.forall_mem_cons, List.forall_mem_singleton]
      exact ⟨hdigit _ (by omega), hdigit _ (by omega)⟩
    exact hpair
  · -- any other character stands for itself
    unfold Printable
    rw [String.toList_ofList, List.forall_mem_singleton]
    omega

@[simp] theorem printable_jsonText (text : String) : Printable (jsonText text) := by
  unfold jsonText
  refine Printable.append (Printable.append (by decide) (printable_join ?_)) (by decide)
  intro piece hpiece
  obtain ⟨c, -, rfl⟩ := List.mem_map.1 hpiece
  exact printable_jsonChar c

@[simp] theorem printable_jsonOption {α : Type} {json : α → String}
    (h : ∀ value, Printable (json value)) (value : Option α) :
    Printable (jsonOption json value) := by
  cases value with
  | none => show Printable "null"; decide
  | some value => exact h value

theorem printable_intercalate {texts : List String} (h : ∀ text ∈ texts, Printable text) :
    Printable (String.intercalate "," texts) := by
  -- a letter is a comma or of one of the pieces
  have hletters : ∀ pieces : List (List Char), (∀ piece ∈ pieces, ∀ c ∈ piece, 32 ≤ c.toNat) →
      ∀ c ∈ [','].intercalate pieces, 32 ≤ c.toNat := by
    intro pieces
    induction pieces with
    | nil => simp [List.intercalate]
    | cons piece rest ih =>
      cases rest with
      | nil => simp [List.intercalate]
      | cons next rest =>
        intro hpieces c hc
        rw [List.intercalate, List.intersperse_cons_cons, List.flatten_cons, List.flatten_cons,
          List.mem_append, List.mem_append, List.mem_singleton] at hc
        rcases hc with hc | rfl | hc
        · exact hpieces piece List.mem_cons_self c hc
        · decide
        · exact ih (fun p hp => hpieces p (List.mem_cons_of_mem _ hp)) c hc
  intro c hc
  rw [String.toList_intercalate] at hc
  refine hletters _ ?_ c hc
  intro piece hpiece
  obtain ⟨text, htext, rfl⟩ := List.mem_map.1 hpiece
  exact h text htext

theorem printable_jsonObject {fields : List (String × String)}
    (h : ∀ field ∈ fields, Printable field.2) : Printable (jsonObject fields) := by
  unfold jsonObject
  refine Printable.append (Printable.append (by decide) (printable_intercalate ?_)) (by decide)
  intro text htext
  obtain ⟨field, hfield, rfl⟩ := List.mem_map.1 htext
  refine Printable.append (Printable.append (printable_jsonText _) (by decide)) ?_
  exact h field hfield

@[simp] theorem printable_jsonArray {values : List String}
    (h : ∀ value ∈ values, Printable value) : Printable (jsonArray values) :=
  Printable.append (Printable.append (by decide) (printable_intercalate h)) (by decide)

/-- The text of an object whose values are printable. -/
def IsJsonLine (text : String) : Prop :=
  ∃ fields, text = jsonObject fields ∧ ∀ field ∈ fields, Printable field.2

theorem IsJsonLine.printable {text : String} (h : IsJsonLine text) : Printable text := by
  obtain ⟨fields, rfl, hfields⟩ := h
  exact printable_jsonObject hfields

theorem IsJsonLine.brace_mem {text : String} (h : IsJsonLine text) : '{' ∈ text.toList := by
  obtain ⟨fields, rfl, -⟩ := h
  rw [toList_jsonObject]
  exact List.mem_cons_self

end HotIndex.Lib
