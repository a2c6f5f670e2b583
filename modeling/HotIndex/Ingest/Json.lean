import HotIndex.Core.Types
import HotIndex.Lib.JsonWriter
import HotIndex.Lib.RustText

/-!
# JSON Values

`serde_json::Value`, and the parser's readers of optional fields under several names.
-/

namespace HotIndex

open Lib RustText

/-- `serde_json::Number`. A float is kept as the text that `serde_json` displays it by. -/
inductive JsonNumber where
  | posInt (value : UInt64)
  | negInt (value : Int)
  | float (display : String)
  deriving DecidableEq, Repr

/-- `Number::to_string` -/
def JsonNumber.display : JsonNumber → String
  | .posInt value => toString value
  | .negInt value => toString value
  | .float display => display

/-- `Number::as_u64` -/
def JsonNumber.asU64 : JsonNumber → Option UInt64
  | .posInt value => some value
  | _ => none

/-- `serde_json::Value` -/
inductive JsonValue where
  | null
  | bool (value : Bool)
  | number (value : JsonNumber)
  | string (value : String)
  | array (items : List JsonValue)
  | object (fields : List (String × JsonValue))

/-- Reading and writing JSON text: `serde_json::from_str` and `serde_json::to_string`. -/
structure JsonText where
  fromStr : String → Except String JsonValue
  toString : JsonValue → String

namespace JsonValue

/-- `Value::get` with a name -/
def get (value : JsonValue) (key : String) : Option JsonValue :=
  match value with
  | .object fields => (fields.find? (fun field => field.1 == key)).map Prod.snd
  | _ => none

/-- `Value::as_array` -/
def asArray : JsonValue → Option (List JsonValue)
  | .array items => some items
  | _ => none

mutual

/-- The compact text of a value; the fields of an object stand in the order of its map. -/
def text : JsonValue → String
  | .null => "null"
  | .bool value => toString value
  | .number value => value.display
  | .string value => jsonText value
  | .array items => "[" ++ String.intercalate "," (itemTexts items) ++ "]"
  | .object fields => jsonObject (fieldTexts fields)

def itemTexts : List JsonValue → List String
  | [] => []
  | item :: rest => item.text :: itemTexts rest

def fieldTexts : List (String × JsonValue) → List (String × String)
  | [] => []
  | (name, value) :: rest => (name, value.text) :: fieldTexts rest

end

mutual

/-- The letters of the compact text. -/
def letters : JsonValue → List Char
  | .null => "null".toList
  | .bool value => (toString value).toList
  | .number value => value.display.toList
  | .string value => jsonTextLetters value
  | .array items => '[' :: [','].intercalate (itemLetters items) ++ [']']
  | .object fields => jsonObjectLetters (fieldLetters fields)

def itemLetters : List JsonValue → List (List Char)
  | [] => []
  | item :: rest => item.letters :: itemLetters rest

def fieldLetters : List (String × JsonValue) → List (String × List Char)
  | [] => []
  | (name, value) :: rest => (name, value.letters) :: fieldLetters rest

end

mutual

theorem toList_text : (value : JsonValue) → value.text.toList = value.letters
  | .null | .bool _ | .number _ => by simp [text, letters]
  | .string value => by rw [text, letters, toList_jsonText]
  | .array items => by
    simp [text, letters, String.toList_append, String.toList_intercalate, map_itemTexts items]
  | .object fields => by rw [text, letters, toList_jsonObject, map_fieldTexts fields]

theorem map_itemTexts : (items : List JsonValue) →
    (itemTexts items).map String.toList = itemLetters items
  | [] => rfl
  | item :: rest => by
    rw [itemTexts, itemLetters, List.map_cons, toList_text item, map_itemTexts rest]

theorem map_fieldTexts : (fields : List (String × JsonValue)) →
    (fieldTexts fields).map (fun field => (field.1, field.2.toList)) = fieldLetters fields
  | [] => rfl
  | (name, value) :: rest => by
    rw [fieldTexts, fieldLetters, List.map_cons, toList_text value, map_fieldTexts rest]

end

end JsonValue

/-- `serde_json` at texts that hold one of the given values, one value to a text. -/
def JsonText.ofTexts (texts : List (String × JsonValue)) : JsonText where
  fromStr text :=
    match texts.find? (fun entry => entry.1 == text) with
    | some entry => .ok entry.2
    | none => .error "unexpected text"
  toString := JsonValue.text

/-! ## Fields under several names

The first name that is present decides, whatever it holds. -/

def stringField (value : JsonValue) (keys : List String) : Option String :=
  match keys.findSome? value.get with
  | some (.string value) => some value
  | some (.number value) => some value.display
  | some (.bool value) => some (toString value)
  | _ => none

def u64Field (value : JsonValue) (keys : List String) : Option UInt64 :=
  match keys.findSome? value.get with
  | some (.number value) => value.asU64
  | some (.string value) => parseU64 value
  | _ => none

def u32Field (value : JsonValue) (keys : List String) : Option UInt32 :=
  (u64Field value keys).bind (fun value =>
    if value.toNat < UInt32.size then some (UInt32.ofNat value.toNat) else none)

def u16Field (value : JsonValue) (keys : List String) : Option UInt16 :=
  (u64Field value keys).bind (fun value =>
    if value.toNat < UInt16.size then some (UInt16.ofNat value.toNat) else none)

end HotIndex
