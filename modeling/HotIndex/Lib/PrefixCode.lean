import HotIndex.Lib.ByteString

/-!
# Prefix Codes

A code whose words can be told apart at the head of any stream: two streams that both
begin with a code word begin with the same one. Words behind each other then determine
their items without any delimiter, which is how a stream of length-prefixed fields is read.

- a pair of prefix codes is one (`PrefixCode.prod`);
- a length in front of its bytes makes one (`prefixCode_lengthPrefixed`);
- a list of items is determined by its concatenated words (`PrefixCode.flatMap_inj`).
-/

namespace HotIndex.Lib

section PrefixCode

variable {α β γ : Type*}

/-- On the valid items, a word and what is behind it can be told apart. -/
def PrefixCode (word : α → List β) (Valid : α → Prop) : Prop :=
  ∀ a b, Valid a → Valid b → ∀ rest rest', word a ++ rest = word b ++ rest' →
    a = b ∧ rest = rest'

theorem PrefixCode.prod {word : α → List β} {word' : γ → List β} {Valid : α → Prop}
    {Valid' : γ → Prop} (h : PrefixCode word Valid) (h' : PrefixCode word' Valid') :
    PrefixCode (fun p : α × γ => word p.1 ++ word' p.2) (fun p => Valid p.1 ∧ Valid' p.2) := by
  intro p q hp hq rest rest' heq
  simp only [List.append_assoc] at heq
  rcases h _ _ hp.1 hq.1 _ _ heq with ⟨hfst, heq⟩
  rcases h' _ _ hp.2 hq.2 _ _ heq with ⟨hsnd, hrest⟩
  exact ⟨Prod.ext hfst hsnd, hrest⟩

/-- A stream of nonempty code words determines its items. -/
theorem PrefixCode.flatMap_inj {word : α → List β} {Valid : α → Prop}
    (h : PrefixCode word Valid) (hne : ∀ a, word a ≠ []) {l l' : List α}
    (hl : ∀ a ∈ l, Valid a) (hl' : ∀ a ∈ l', Valid a)
    (heq : l.flatMap word = l'.flatMap word) : l = l' := by
  induction l generalizing l' with
  | nil =>
    cases l' with
    | nil => rfl
    | cons b l' =>
      -- the empty stream does not begin with the word of an item
      simp [hne b] at heq
  | cons a l ih =>
    cases l' with
    | nil => simp [hne a] at heq
    | cons b l' =>
      simp only [List.flatMap_cons] at heq
      simp only [List.forall_mem_cons] at hl hl'
      rcases h a b hl.1 hl'.1 _ _ heq with ⟨rfl, hrest⟩
      rw [ih hl.2 hl'.2 hrest]

end PrefixCode

/-! ## Length prefixes -/

/-- A byte string behind its big-endian length. -/
def lengthPrefixed (width : Nat) (bytes : Bytes) : Bytes := beBytes width bytes.length ++ bytes

/-- A length that fits into its prefix says where the bytes end, whatever they look like. -/
theorem prefixCode_lengthPrefixed (width : Nat) :
    PrefixCode (lengthPrefixed width) (fun bytes => bytes.length < 256 ^ width) := by
  intro a b ha hb rest rest' heq
  simp only [lengthPrefixed, List.append_assoc] at heq
  -- the prefixes have one width, so they are equal, and so are the lengths they encode
  rcases List.append_inj heq (by simp) with ⟨hwidth, hbytes⟩
  have hlength : a.length = b.length := beBytes_inj ha hb hwidth
  exact List.append_inj hbytes hlength

theorem lengthPrefixed_ne_nil {width : Nat} (hwidth : 0 < width) (bytes : Bytes) :
    lengthPrefixed width bytes ≠ [] := by
  intro h
  have hlength := congrArg List.length h
  simp [lengthPrefixed] at hlength
  omega

end HotIndex.Lib
