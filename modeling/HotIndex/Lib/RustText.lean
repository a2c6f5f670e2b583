import Mathlib.Data.List.Infix
import Mathlib.Data.UInt
import Mathlib.Tactic

/-!
# Rust Text

The operations of Rust's `str` and of its formatting that the parser and the dataset
tools use, on the characters of a `String`.
-/

namespace HotIndex.Lib.RustText

/-! ## Searching and trimming -/

/-- `char::is_whitespace`: the Unicode property `White_Space`. -/
def isWhitespace (c : Char) : Bool :=
  let n := c.toNat
  (9 ≤ n && n ≤ 13) || n == 0x20 || n == 0x85 || n == 0xA0 || n == 0x1680 ||
    (0x2000 ≤ n && n ≤ 0x200A) || n == 0x2028 || n == 0x2029 || n == 0x202F || n == 0x205F ||
    n == 0x3000

/-- `str::trim` -/
def trim (text : String) : String :=
  let start := text.toList.dropWhile isWhitespace
  String.ofList (start.reverse.dropWhile isWhitespace).reverse

/-- Nothing is trimmed off a text that begins and ends with other characters than spaces. -/
theorem trim_eq_self {l : List Char} (hhead : ∀ c, l.head? = some c → isWhitespace c = false)
    (hlast : ∀ c, l.getLast? = some c → isWhitespace c = false) :
    trim (String.ofList l) = String.ofList l := by
  have hdrop : ∀ l : List Char, (∀ c, l.head? = some c → isWhitespace c = false) →
      l.dropWhile isWhitespace = l := by
    intro l h
    cases l with
    | nil => rfl
    | cons c l => simp [h c rfl]
  have hreverse := hdrop l.reverse (by rw [List.head?_reverse]; exact hlast)
  simp only [trim, String.toList_ofList, hdrop l hhead, hreverse, List.reverse_reverse]

/-- `str::to_ascii_lowercase` -/
def toAsciiLowercase (text : String) : String :=
  String.ofList (text.toList.map (fun c =>
    if 'A' ≤ c ∧ c ≤ 'Z' then Char.ofNat (c.toNat + 32) else c))

/-- `str::contains` -/
def contains (text needle : String) : Bool :=
  text.toList.tails.any (fun rest => needle.toList.isPrefixOf rest)

/-- `str::strip_prefix` -/
def stripPrefix (text start : String) : Option String :=
  if start.toList.isPrefixOf text.toList then
    some (String.ofList (text.toList.drop start.toList.length))
  else none

/-- `str::strip_suffix` -/
def stripSuffix (text ending : String) : Option String :=
  if ending.toList.isSuffixOf text.toList then
    some (String.ofList (text.toList.take (text.toList.length - ending.toList.length)))
  else none

theorem stripPrefix_append (start rest : String) :
    stripPrefix (start ++ rest) start = some rest := by
  unfold stripPrefix
  rw [String.toList_append, if_pos (List.isPrefixOf_iff_prefix.2 (List.prefix_append _ _)),
    List.drop_left, String.ofList_toList]

theorem stripSuffix_append (rest ending : String) :
    stripSuffix (rest ++ ending) ending = some rest := by
  unfold stripSuffix
  rw [String.toList_append, if_pos (List.isSuffixOf_iff_suffix.2 (List.suffix_append _ _)),
    List.length_append, Nat.add_sub_cancel, List.take_left, String.ofList_toList]

/-- The characters before the first `::`, all of them if there is none. -/
def beforePath : List Char → List Char
  | [] => []
  | c :: rest => if c == ':' && rest.head? == some ':' then [] else c :: beforePath rest

/-- The characters behind the last `::`. -/
def afterPath? : List Char → Option (List Char)
  | [] => none
  | c :: rest =>
    match afterPath? rest with
    | some tail => some tail
    | none => if c == ':' && rest.head? == some ':' then some rest.tail else none

/-- `text.split("::").next()` -/
def splitPathFirst (text : String) : String := String.ofList (beforePath text.toList)

/-- `text.rsplit("::").next()` -/
def rsplitPathFirst (text : String) : String :=
  String.ofList ((afterPath? text.toList).getD text.toList)

/-! ## Numbers -/

/-- The value of a string of decimal digits. -/
def decimalValue? : List Char → Option Nat
  | [] => none
  | digits =>
    if digits.all Char.isDigit then
      some (digits.foldl (fun n c => 10 * n + (c.toNat - 48)) 0)
    else none

/-- `str::parse::<u64>`: an optional plus sign and digits, within range. -/
def parseU64 (text : String) : Option UInt64 :=
  -- a sign without digits is refused below
  let digits := match text.toList with
    | '+' :: rest => rest
    | chars => chars
  match decimalValue? digits with
  | some n => if n < UInt64.size then some (UInt64.ofNat n) else none
  | none => none

theorem decimalValue?_toDigits (n : Nat) : decimalValue? (Nat.toDigits 10 n) = some n := by
  have hall : (Nat.toDigits 10 n).all Char.isDigit := by
    rw [List.all_eq_true]
    exact fun c hc => Nat.isDigit_of_mem_toDigits (by decide) (by decide) hc
  -- reading undoes writing, by the last digit
  have hvalue : ∀ n, (Nat.toDigits 10 n).foldl (fun n c => 10 * n + (c.toNat - 48)) 0 = n := by
    intro n
    induction n using Nat.strong_induction_on with
    | _ n ih =>
      have hdigit : ∀ d < 10, (Nat.digitChar d).toNat - 48 = d := by decide
      rw [Nat.toDigits_eq_if (by decide)]
      split_ifs with h
      · simpa using hdigit n h
      · rw [List.foldl_append, ih (n / 10) (by omega), List.foldl_cons, List.foldl_nil,
          hdigit _ (Nat.mod_lt _ (by decide))]
        omega
  cases hdigits : Nat.toDigits 10 n with
  | nil => exact absurd hdigits Nat.toDigits_ne_nil
  | cons c rest =>
    rw [decimalValue?, ← hdigits, if_pos hall, hvalue]
    exact nofun

theorem toList_toString_uInt64 (n : UInt64) : (toString n).toList = Nat.toDigits 10 n.toNat := by
  show (Nat.repr n.toNat).toList = _
  rw [Nat.repr_eq_ofList_toDigits, String.toList_ofList]

/-- Parsing undoes printing. -/
theorem parseU64_toString (n : UInt64) : parseU64 (toString n) = some n := by
  unfold parseU64
  rw [toList_toString_uInt64]
  -- a written number has no sign that the parser would drop
  have hsign : ∀ chars : List Char, chars.head? ≠ some '+' →
      (match chars with | '+' :: rest => rest | chars => chars) = chars := by
    intro chars h
    split
    · exact absurd rfl h
    · rfl
  rw [hsign]
  · simp only [decimalValue?_toDigits, UInt64.ofNat_toNat]
    exact if_pos n.toNat_lt
  · intro hplus
    have hdigit := Nat.isDigit_of_mem_toDigits (by decide) (by decide)
      (List.mem_of_mem_head? (Option.mem_def.2 hplus))
    exact absurd hdigit (by decide)

/-- A number in lowercase hexadecimal digits, at least `width` of them: `{:0width$x}`. -/
def hexPadded (width n : Nat) : String :=
  let digits := (Nat.toDigits 16 n)
  String.ofList (List.replicate (width - digits.length) '0' ++ digits)

/-- Pad with zeros on the left to `width` characters: `{:0>width$}`. -/
def padLeftZeros (width : Nat) (text : String) : String :=
  String.ofList (List.replicate (width - text.toList.length) '0' ++ text.toList)

/-- `char::is_ascii_hexdigit` -/
def isAsciiHexdigit (c : Char) : Bool :=
  c.isDigit || ('a' ≤ c && c ≤ 'f') || ('A' ≤ c && c ≤ 'F')

end HotIndex.Lib.RustText
