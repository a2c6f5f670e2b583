import HotIndex.Core.Types

/-!
# Composite Keys

`key.rs`: the byte keys of the column families. Text segments are joined by the
separator `0x00`, which `assertTextSegments` keeps out of every text; numbers are
big-endian words of fixed width, so they may hold separator bytes.

Each builder has one equation (`…_eq`) for arguments that pass the assertion. The
second half of the file derives from these equations how keys compare: a key
orders like its arguments, segment by segment, and so determines them.
-/

namespace HotIndex.Key

open Lib

/-! ## Segments -/

/-- `SEP` -/
def sep : UInt8 := 0

/-- A text that may stand in a key: no byte of it is the separator. -/
def TextOk (text : String) : Prop := sep ∉ asBytes text

instance (text : String) : Decidable (TextOk text) := inferInstanceAs (Decidable (_ ∉ _))

/-- The panic of `assert_text_segments`. -/
def separatorPanic : Fault :=
  .panic "text key segment contains the reserved 0x00 separator"

def assertTextSegments (segments : List String) : Except Fault Unit :=
  if segments.any (fun segment => (asBytes segment).contains sep) then .error separatorPanic
  else .ok ()

def joinSegments : List Bytes → Bytes
  | [] => []
  | [segment] => segment
  | segment :: rest => segment ++ sep :: joinSegments rest

def prefixSegments (segments : List Bytes) : Bytes := joinSegments segments ++ [sep]

def optionalTextSegment : Option String → String
  | some value => "some:" ++ value
  | none => "none"

/-! ## Key builders -/

def beU64 (value : UInt64) : Bytes := beBytes 8 value.toNat

def beU32 (value : UInt32) : Bytes := beBytes 4 value.toNat

def reverseTsKey (tsUs : UInt64) : Bytes := beU64 (reverseTsUs tsUs)

def txByVersion (version : UInt64) : Bytes := beU64 version

def rawEventByVersionIdx (version : UInt64) (eventIdx : UInt32) : Bytes :=
  beU64 version ++ beU32 eventIdx

def eventByTypeVersion (eventType : DecibelEventType) (version : UInt64) (eventIdx : UInt32) :
    Except Fault Bytes := do
  let eventKey := eventType.asKey
  assertTextSegments [eventKey]
  return joinSegments [asBytes eventKey, beU64 version, beU32 eventIdx]

def fillsByMarketTime (marketId : String) (timestampUs version : UInt64) (fillId : String) :
    Except Fault Bytes := do
  assertTextSegments [marketId, fillId]
  -- no event index: the fills of a transaction are told apart by their ids
  return joinSegments
    [asBytes marketId, reverseTsKey timestampUs, beU64 version, asBytes fillId]

def fillsByMarketPrefix (marketId : String) : Except Fault Bytes := do
  assertTextSegments [marketId]
  return prefixSegments [asBytes marketId]

def fillsByAccountTime (account : String) (timestampUs : UInt64) (marketId fillId : String) :
    Except Fault Bytes := do
  assertTextSegments [account, marketId, fillId]
  return joinSegments
    [asBytes account, reverseTsKey timestampUs, asBytes marketId, asBytes fillId]

def fillsByAccountPrefix (account : String) : Except Fault Bytes := do
  assertTextSegments [account]
  return prefixSegments [asBytes account]

def orderById (orderId : String) : Except Fault Bytes := do
  assertTextSegments [orderId]
  return asBytes orderId

def positionsByAccountMarket (account marketId : String) (subaccount : Option String) :
    Except Fault Bytes := do
  let subaccount := optionalTextSegment subaccount
  assertTextSegments [account, marketId, subaccount]
  -- the tag in front of a subaccount keeps one named `none` apart from no subaccount
  return joinSegments [asBytes account, asBytes marketId, asBytes subaccount]

def positionsByAccountPrefix (account : String) : Except Fault Bytes := do
  assertTextSegments [account]
  return prefixSegments [asBytes account]

def builderCodeFills (builderAddr : String) (timestampUs : UInt64) (marketId fillId : String) :
    Except Fault Bytes := do
  assertTextSegments [builderAddr, marketId, fillId]
  return joinSegments
    [asBytes builderAddr, reverseTsKey timestampUs, asBytes marketId, asBytes fillId]

def builderCodeFillsPrefix (builderAddr : String) : Except Fault Bytes := do
  assertTextSegments [builderAddr]
  return prefixSegments [asBytes builderAddr]

def marketActivity (marketId : String) (timestampUs : UInt64) (activityType : String)
    (version : UInt64) (eventIdx : UInt32) : Except Fault Bytes := do
  assertTextSegments [marketId, activityType]
  return joinSegments [asBytes marketId, reverseTsKey timestampUs, asBytes activityType,
    beU64 version, beU32 eventIdx]

def marketActivityPrefix (marketId : String) : Except Fault Bytes := do
  assertTextSegments [marketId]
  return prefixSegments [asBytes marketId]

def ingestCheckpoint (network : Network) (packageAddress : String) : Except Fault Bytes := do
  assertTextSegments [network.asStr, packageAddress]
  return joinSegments [asBytes network.asStr, asBytes packageAddress]

/-! ## What the assertion checks -/

theorem assertTextSegments_ok {segments : List String} (h : ∀ s ∈ segments, TextOk s) :
    assertTextSegments segments = .ok () := by
  have hany : ¬ segments.any (fun segment => (asBytes segment).contains sep) = true := by
    rw [List.any_eq_true]
    rintro ⟨s, hs, hsep⟩
    exact h s hs (List.contains_iff_mem.1 hsep)
  unfold assertTextSegments
  rw [if_neg hany]

theorem assertTextSegments_panic {segments : List String} {s : String} (hs : s ∈ segments)
    (h : ¬ TextOk s) : assertTextSegments segments = .error separatorPanic := by
  have hany : segments.any (fun segment => (asBytes segment).contains sep) = true := by
    rw [List.any_eq_true]
    exact ⟨s, hs, List.contains_iff_mem.2 (not_not.1 h)⟩
  unfold assertTextSegments
  rw [if_pos hany]

@[simp] theorem map_assertTextSegments_eq_ok_iff {α : Type} {segments : List String}
    {f : Unit → α} {b : α} :
    f <$> assertTextSegments segments = .ok b ↔ (∀ s ∈ segments, TextOk s) ∧ f () = b := by
  by_cases h : ∀ s ∈ segments, TextOk s
  · rw [assertTextSegments_ok h]
    exact ⟨fun he => ⟨h, Except.ok.inj he⟩, fun he => congrArg Except.ok he.2⟩
  · have hpanic : assertTextSegments segments = .error separatorPanic := by
      push Not at h
      obtain ⟨s, hs, hno⟩ := h
      exact assertTextSegments_panic hs hno
    rw [hpanic]
    exact ⟨nofun, fun he => absurd he.1 h⟩

theorem textOk_append_iff {a b : String} : TextOk (a ++ b) ↔ TextOk a ∧ TextOk b := by
  unfold TextOk
  rw [asBytes_append, List.mem_append, not_or]

theorem textOk_optionalTextSegment_iff (value : Option String) :
    TextOk (optionalTextSegment value) ↔ ∀ v ∈ value, TextOk v := by
  have hnone : TextOk "none" := by decide
  have hsome : TextOk "some:" := by decide
  cases value with
  | none => simp [optionalTextSegment, hnone]
  | some v => simp [optionalTextSegment, textOk_append_iff, hsome]

theorem textOk_network (network : Network) : TextOk network.asStr := by
  cases network <;> decide

/-! ## What the builders return -/

theorem eventByTypeVersion_eq_ok_iff (t : DecibelEventType) (v : UInt64) (i : UInt32)
    (k : Bytes) :
    eventByTypeVersion t v i = .ok k ↔
      TextOk t.asKey ∧ asBytes t.asKey ++ sep :: (beU64 v ++ sep :: beU32 i) = k := by
  simp [eventByTypeVersion, joinSegments]

theorem fillsByMarketTime_eq_ok_iff (m : String) (ts v : UInt64) (f : String) (k : Bytes) :
    fillsByMarketTime m ts v f = .ok k ↔
      (TextOk m ∧ TextOk f) ∧
        asBytes m ++ sep :: (reverseTsKey ts ++ sep :: (beU64 v ++ sep :: asBytes f)) = k := by
  simp [fillsByMarketTime, joinSegments]

theorem fillsByAccountTime_eq_ok_iff (a : String) (ts : UInt64) (m f : String) (k : Bytes) :
    fillsByAccountTime a ts m f = .ok k ↔
      (TextOk a ∧ TextOk m ∧ TextOk f) ∧
        asBytes a ++ sep :: (reverseTsKey ts ++ sep :: (asBytes m ++ sep :: asBytes f)) = k := by
  simp [fillsByAccountTime, joinSegments]

theorem orderById_eq_ok_iff (o : String) (k : Bytes) :
    orderById o = .ok k ↔ TextOk o ∧ asBytes o = k := by
  simp [orderById]

theorem positionsByAccountMarket_eq_ok_iff (a m : String) (s : Option String) (k : Bytes) :
    positionsByAccountMarket a m s = .ok k ↔
      (TextOk a ∧ TextOk m ∧ ∀ v ∈ s, TextOk v) ∧
        asBytes a ++ sep :: (asBytes m ++ sep :: asBytes (optionalTextSegment s)) = k := by
  simp [positionsByAccountMarket, joinSegments, textOk_optionalTextSegment_iff]

theorem builderCodeFills_eq_ok_iff (b : String) (ts : UInt64) (m f : String) (k : Bytes) :
    builderCodeFills b ts m f = .ok k ↔
      (TextOk b ∧ TextOk m ∧ TextOk f) ∧
        asBytes b ++ sep :: (reverseTsKey ts ++ sep :: (asBytes m ++ sep :: asBytes f)) = k := by
  simp [builderCodeFills, joinSegments]

theorem marketActivity_eq_ok_iff (m : String) (ts : UInt64) (t : String) (v : UInt64)
    (i : UInt32) (k : Bytes) :
    marketActivity m ts t v i = .ok k ↔
      (TextOk m ∧ TextOk t) ∧
        asBytes m ++ sep :: (reverseTsKey ts ++ sep ::
          (asBytes t ++ sep :: (beU64 v ++ sep :: beU32 i))) = k := by
  simp [marketActivity, joinSegments]

theorem ingestCheckpoint_eq_ok_iff (n : Network) (p : String) (k : Bytes) :
    ingestCheckpoint n p = .ok k ↔ TextOk p ∧ asBytes n.asStr ++ sep :: asBytes p = k := by
  simp [ingestCheckpoint, joinSegments, textOk_network]

/-! ## How segments compare -/

theorem beU64_lt_iff (a b : UInt64) : beU64 a < beU64 b ↔ a < b := by
  unfold beU64
  rw [beBytes_lt_iff a.toNat_lt b.toNat_lt, UInt64.lt_iff_toNat_lt]

theorem beU32_lt_iff (a b : UInt32) : beU32 a < beU32 b ↔ a < b := by
  unfold beU32
  rw [beBytes_lt_iff a.toNat_lt b.toNat_lt, UInt32.lt_iff_toNat_lt]

theorem reverseTsUs_lt_iff (a b : UInt64) : reverseTsUs a < reverseTsUs b ↔ b < a := by
  have ha := toNat_le_u64Max a
  have hb := toNat_le_u64Max b
  rw [UInt64.lt_iff_toNat_lt, UInt64.lt_iff_toNat_lt, toNat_reverseTsUs, toNat_reverseTsUs]
  omega

theorem beU64_inj {a b : UInt64} : beU64 a = beU64 b ↔ a = b :=
  ⟨fun h => UInt64.toNat_inj.1 (beBytes_inj a.toNat_lt b.toNat_lt h), fun h => h ▸ rfl⟩

theorem reverseTsUs_inj {a b : UInt64} : reverseTsUs a = reverseTsUs b ↔ a = b := by
  refine ⟨fun h => ?_, fun h => h ▸ rfl⟩
  have h₁ := reverseTsUs_lt_iff a b
  have h₂ := reverseTsUs_lt_iff b a
  rw [h, lt_self_iff_false, false_iff, not_lt] at h₁
  rw [h, lt_self_iff_false, false_iff, not_lt] at h₂
  exact le_antisymm h₁ h₂

/-- Behind a number and a separator, keys compare as pairs. -/
theorem beU64_sep_lt_iff {a b : UInt64} {x y : Bytes} :
    beU64 a ++ sep :: x < beU64 b ++ sep :: y ↔ a < b ∨ a = b ∧ x < y := by
  rw [append_lt_append_iff_of_length_eq (by simp [beU64]), beU64_lt_iff, beU64_inj,
    List.cons_lt_cons_iff]
  simp

/-- Behind a reversed timestamp and a separator, keys compare as pairs, recent first. -/
theorem reverseTsKey_sep_lt_iff {a b : UInt64} {x y : Bytes} :
    reverseTsKey a ++ sep :: x < reverseTsKey b ++ sep :: y ↔ b < a ∨ a = b ∧ x < y := by
  unfold reverseTsKey
  rw [beU64_sep_lt_iff, reverseTsUs_lt_iff, reverseTsUs_inj]

private theorem sep_lt_of_textOk {a : String} (h : TextOk a) : ∀ c ∈ asBytes a, sep < c := by
  intro c hc
  have hne : sep ≠ c := fun he => h (he ▸ hc)
  exact lt_of_le_of_ne (UInt8.le_iff_toNat_le.2 (Nat.zero_le _)) hne

/-- Behind a text and its separator, keys compare as pairs. -/
theorem text_sep_lt_iff {a b : String} {x y : Bytes} (ha : TextOk a) (hb : TextOk b) :
    asBytes a ++ sep :: x < asBytes b ++ sep :: y ↔
      (⟨a⟩ : Text) < ⟨b⟩ ∨ (⟨a⟩ : Text) = ⟨b⟩ ∧ x < y := by
  rw [append_sep_lt_append_sep_iff (sep_lt_of_textOk ha) (sep_lt_of_textOk hb)]
  exact or_congr Iff.rfl (and_congr_left' ⟨fun h => congrArg Text.mk (asBytes_inj h),
    fun h => congrArg (fun t : Text => asBytes t.str) h⟩)

end HotIndex.Key
