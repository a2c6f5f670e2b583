import HotIndex.Lib.Fallible
import HotIndex.Lib.RustText
import HotIndex.Lib.ScaledSum
import HotIndex.Storage.Engine

/-!
# Builder Volumes

The volume of a builder over a time window, as both engines compute it from the
builder's attribution rows: `get_builder_code_volume` behind its row query, with
`DecimalAccumulator` and `parse_decimal`, which the engines each have a copy of.

Arithmetic on `i128` panics on overflow. Where it does not overflow, the accumulator is
the exact sum of `Lib.Scaled`, and the row does not depend on the order in which the
attributions are visited (`builderVolumeRow_perm`).
-/

namespace HotIndex

open Lib

/-! ## Checked arithmetic -/

/-- `i128::MIN` -/
def i128Min : Int := -2 ^ 127

/-- `i128::MAX` -/
def i128Max : Int := 2 ^ 127 - 1

def multiplyOverflow : Fault := .panic "attempt to multiply with overflow"

def addOverflow : Fault := .panic "attempt to add with overflow"

def negateOverflow : Fault := .panic "attempt to negate with overflow"

/-- The panics of `i128` arithmetic. -/
def Fault.IsOverflow (fault : Fault) : Prop :=
  fault = multiplyOverflow ∨ fault = addOverflow ∨ fault = negateOverflow

/-- The result of an `i128` operation, if it is in range. -/
def checkedI128 (overflow : Fault) (n : Int) : Except Fault Int :=
  if i128Min ≤ n ∧ n ≤ i128Max then .ok n else .error overflow

/-- No `i128` overflow occurs in a computation. -/
def NoOverflow {α : Type} (m : Except Fault α) : Prop :=
  ∀ fault, m = .error fault → ¬ fault.IsOverflow

/-! ## Decimals -/

/-- `struct DecimalAccumulator`: `units: i128`, `scale: u32`. -/
abbrev DecimalAccumulator := Scaled

/-- `DecimalAccumulator::default` -/
def DecimalAccumulator.zero : DecimalAccumulator := { units := 0, scale := 0 }

/-- `parse_decimal`: a value that is no decimal, or too large for `i128`, is none. The scale is
the number of fractional digits, cast to `u32`. -/
def parseDecimal (value : String) : Option Scaled :=
  let trimmed := RustText.trim value
  if trimmed.isEmpty then none
  else
    let negative := trimmed.toList.head? == some '-'
    let body := ((RustText.stripPrefix trimmed "-").getD trimmed).toList
    match body.splitOn '.' with
    | [whole] => parseParts negative whole none
    | [whole, fractional] => parseParts negative whole (some fractional)
    | _ => none
where
  parseParts (negative : Bool) (whole : List Char) (fractional : Option (List Char)) :
      Option Scaled :=
    if whole.isEmpty && (fractional.getD []).isEmpty then none
    else if !whole.all Char.isDigit || !(fractional.getD []).all Char.isDigit then none
    else
      -- trailing zeros count, so texts of one value may differ in scale
      let scale := (fractional.map (fun digits => digits.length % 2 ^ 32)).getD 0
      match RustText.decimalValue? (whole ++ fractional.getD []) with
      | some n =>
        if (n : Int) ≤ i128Max then
          some { units := if negative then -(n : Int) else n, scale := scale }
        else none
      | none => none

/-- `steps` rounds of a loop that multiplies by ten. -/
def timesTen : Nat → Int → Except Fault Int
  | 0, units => .ok units
  | steps + 1, units => do
    let units ← checkedI128 multiplyOverflow (units * 10)
    timesTen steps units

namespace DecimalAccumulator

/-- `DecimalAccumulator::add`. The two loops bring the accumulator and the value to the
larger of their scales. -/
def add (acc : DecimalAccumulator) (value : String) : Except Fault DecimalAccumulator :=
  match parseDecimal value with
  | none => .ok acc
  | some decimal => do
    -- truncated subtraction: of the two loops, one does nothing
    let units ← timesTen (decimal.scale - acc.scale) acc.units
    let scale := max acc.scale decimal.scale
    let aligned ← timesTen (scale - decimal.scale) decimal.units
    let units ← checkedI128 addOverflow (units + aligned)
    return { units := units, scale := scale }

/-- `trim_trailing_zeros` -/
def trimTrailingZeros (digits : List Char) : List Char :=
  (digits.reverse.dropWhile (· == '0')).reverse

/-- The `Display` of an accumulator. -/
def display (acc : DecimalAccumulator) : Except Fault String :=
  if acc.scale = 0 then .ok (toString acc.units)
  else do
    let sign := if acc.units < 0 then "-" else ""
    let magnitude ← checkedI128 negateOverflow |acc.units|
    let digits := (toString magnitude).toList
    if digits.length ≤ acc.scale then
      let zeros := List.replicate (acc.scale - digits.length) '0'
      let fractional := trimTrailingZeros (zeros ++ digits)
      if fractional.isEmpty then return sign ++ "0"
      else return sign ++ "0." ++ String.ofList fractional
    else
      let split := digits.length - acc.scale
      let whole := String.ofList (digits.take split)
      let fractional := trimTrailingZeros (digits.drop split)
      if fractional.isEmpty then return sign ++ whole
      else return sign ++ whole ++ "." ++ String.ofList fractional

end DecimalAccumulator

/-! ## The volume row -/

/-- `iter().max().unwrap_or_default()` -/
def latestTimestamp (timestamps : List UInt64) : UInt64 := timestamps.foldl max 0

/-- The local variables of the loop in `get_builder_code_volume`. -/
@[ext] structure VolumeState where
  trades : UInt64
  accounts : Finset Text
  notional : DecimalAccumulator
  feeShare : DecimalAccumulator
  hasFeeShare : Bool

namespace VolumeState

def start : VolumeState where
  trades := 0
  accounts := ∅
  notional := .zero
  feeShare := .zero
  hasFeeShare := false

/-- Add a value if the row has one. -/
def addIfSome (acc : DecimalAccumulator) : Option String → Except Fault DecimalAccumulator
  | some value => acc.add value
  | none => .ok acc

/-- The body of the loop. -/
def visit (st : VolumeState) (row : BuilderAttributionRow) : Except Fault VolumeState := do
  let notional ← addIfSome st.notional row.notional
  let feeShare ← addIfSome st.feeShare row.estimatedFeeAmount
  return {
    trades := st.trades + 1
    accounts := insert ⟨row.account⟩ st.accounts
    notional := notional
    feeShare := feeShare
    hasFeeShare := st.hasFeeShare || row.estimatedFeeAmount.isSome }

/-- `has_fee_share.then(|| fee_share.to_string())` -/
def estimatedFeeShare (st : VolumeState) : Except Fault (Option String) :=
  if st.hasFeeShare then some <$> st.feeShare.display else .ok none

end VolumeState

/-- `get_builder_code_volume` for a builder that has attribution rows. -/
def builderVolumeRow (builderAddr : String) (window : TimeWindow)
    (rows : List BuilderAttributionRow) (checkpointTs : UInt64) :
    Except Fault BuilderVolumeRow := do
  let maxTs := latestTimestamp (rows.map BuilderAttributionRow.timestampUs)
  let windowEndTsUs := max checkpointTs maxTs
  let windowStartTsUs :=
    saturatingAdd (saturatingSub (max maxTs windowEndTsUs) window.durationUs) 1
  let st ← (rows.filter (fun row => windowStartTsUs ≤ row.timestampUs)).foldlM
    VolumeState.visit .start
  let notionalVolume ← st.notional.display
  let estimatedFeeShare ← st.estimatedFeeShare
  return {
    builderAddr := builderAddr
    window := window
    windowStartTsUs := windowStartTsUs
    windowEndTsUs := windowEndTsUs
    notionalVolume := notionalVolume
    trades := st.trades
    activeAccounts := UInt64.ofNat st.accounts.card
    estimatedFeeShare := estimatedFeeShare
    source := "parsed_decibel_events"
    disclaimer := "analytics estimate; not official settlement statement" }

/-! ## Failures are overflows -/

/-- Whenever a computation fails, an `i128` overflow occurred. -/
def FailsByOverflow {α : Type} (m : Except Fault α) : Prop :=
  ∀ fault, m = .error fault → fault.IsOverflow

theorem FailsByOverflow.ok {α : Type} (a : α) : FailsByOverflow (.ok a : Except Fault α) := by
  intro fault h
  cases h

theorem FailsByOverflow.bind {α β : Type} {m : Except Fault α} {f : α → Except Fault β}
    (hm : FailsByOverflow m) (hf : ∀ a, FailsByOverflow (f a)) : FailsByOverflow (m >>= f) := by
  cases m with
  | error fault => exact fun _ h => hm _ (by cases h; rfl)
  | ok a => exact hf a

/-- A computation that fails by overflow only returns where no overflow occurs. -/
theorem FailsByOverflow.returns {α : Type} {m : Except Fault α} (hm : FailsByOverflow m)
    (h : NoOverflow m) : ∃ a, m = .ok a := by
  cases m with
  | error fault => exact absurd (hm fault rfl) (h fault rfl)
  | ok a => exact ⟨a, rfl⟩

theorem failsByOverflow_checkedI128 {overflow : Fault} (h : overflow.IsOverflow) (n : Int) :
    FailsByOverflow (checkedI128 overflow n) := by
  intro fault hfault
  unfold checkedI128 at hfault
  split_ifs at hfault
  cases hfault
  exact h

theorem failsByOverflow_timesTen (steps : Nat) (units : Int) :
    FailsByOverflow (timesTen steps units) := by
  induction steps generalizing units with
  | zero => exact .ok units
  | succ steps ih => exact .bind (failsByOverflow_checkedI128 (.inl rfl) _) ih

theorem DecimalAccumulator.failsByOverflow_add (acc : DecimalAccumulator) (value : String) :
    FailsByOverflow (acc.add value) := by
  unfold DecimalAccumulator.add
  -- a text that is no decimal is passed over; otherwise both sides are scaled and added
  cases parseDecimal value with
  | none => exact .ok acc
  | some decimal =>
    apply FailsByOverflow.bind (failsByOverflow_timesTen _ _)
    intro units
    apply FailsByOverflow.bind (failsByOverflow_timesTen _ _)
    intro aligned
    apply FailsByOverflow.bind (failsByOverflow_checkedI128 (.inr (.inl rfl)) _)
    intro units
    exact .ok _

theorem DecimalAccumulator.failsByOverflow_display (acc : DecimalAccumulator) :
    FailsByOverflow acc.display := by
  unfold DecimalAccumulator.display
  -- only the absolute value of the units can overflow
  by_cases hscale : acc.scale = 0
  · rw [if_pos hscale]
    exact .ok _
  · rw [if_neg hscale]
    apply FailsByOverflow.bind (failsByOverflow_checkedI128 (.inr (.inr rfl)) _)
    intro magnitude
    simp only
    split_ifs <;> exact .ok _

theorem VolumeState.failsByOverflow_addIfSome (acc : DecimalAccumulator) (value : Option String) :
    FailsByOverflow (addIfSome acc value) := by
  cases value with
  | none => exact .ok acc
  | some value => exact acc.failsByOverflow_add value

theorem VolumeState.failsByOverflow_visit (st : VolumeState) (row : BuilderAttributionRow) :
    FailsByOverflow (st.visit row) := by
  apply FailsByOverflow.bind (failsByOverflow_addIfSome _ _)
  intro notional
  apply FailsByOverflow.bind (failsByOverflow_addIfSome _ _)
  intro feeShare
  exact .ok _

theorem VolumeState.failsByOverflow_foldlM (rows : List BuilderAttributionRow)
    (st : VolumeState) : FailsByOverflow (rows.foldlM visit st) := by
  induction rows generalizing st with
  | nil => exact .ok st
  | cons row rows ih =>
    rw [List.foldlM_cons]
    exact .bind (st.failsByOverflow_visit row) ih

theorem failsByOverflow_builderVolumeRow (builderAddr : String) (window : TimeWindow)
    (rows : List BuilderAttributionRow) (checkpointTs : UInt64) :
    FailsByOverflow (builderVolumeRow builderAddr window rows checkpointTs) := by
  apply FailsByOverflow.bind (VolumeState.failsByOverflow_foldlM _ _)
  intro st
  apply FailsByOverflow.bind st.notional.failsByOverflow_display
  intro notionalVolume
  apply FailsByOverflow.bind
  · unfold VolumeState.estimatedFeeShare
    split_ifs
    · -- the fee share is displayed only if some row had one
      exact .bind st.feeShare.failsByOverflow_display (fun _ => .ok _)
    · exact .ok _
  · intro estimatedFeeShare
    exact .ok _

/-! ## The exact sum -/

theorem checkedI128_eq_ok {overflow : Fault} {n m : Int} (h : checkedI128 overflow n = .ok m) :
    m = n := by
  unfold checkedI128 at h
  split_ifs at h
  exact (Except.ok.inj h).symm

theorem timesTen_eq_ok {steps : Nat} {units scaled : Int} (h : timesTen steps units = .ok scaled) :
    scaled = units * 10 ^ steps := by
  induction steps generalizing units with
  | zero =>
    cases h
    simp
  | succ steps ih =>
    -- one factor of ten at a time
    obtain ⟨next, hnext, hrest⟩ := bind_eq_ok_iff.1 h
    rw [ih hrest, checkedI128_eq_ok hnext, pow_succ']
    ring

/-- An addition that does not overflow is exact. -/
theorem DecimalAccumulator.add_eq_ok {acc sum : DecimalAccumulator} {value : String}
    (h : acc.add value = .ok sum) : sum = acc.addOption (parseDecimal value) := by
  unfold DecimalAccumulator.add at h
  cases hvalue : parseDecimal value with
  | none =>
    rw [hvalue] at h
    cases h
    rfl
  | some decimal =>
    rw [hvalue] at h
    obtain ⟨units, hunits, h⟩ := bind_eq_ok_iff.1 h
    obtain ⟨aligned, haligned, h⟩ := bind_eq_ok_iff.1 h
    obtain ⟨total, htotal, h⟩ := bind_eq_ok_iff.1 h
    cases h
    -- the accumulator is scaled up by what it lacks of the larger scale
    have hlack : decimal.scale - acc.scale = max acc.scale decimal.scale - acc.scale := by omega
    rw [checkedI128_eq_ok htotal, timesTen_eq_ok hunits, timesTen_eq_ok haligned, hlack]
    rfl

namespace VolumeState

theorem addIfSome_eq_ok {acc sum : DecimalAccumulator} {value : Option String}
    (h : addIfSome acc value = .ok sum) : sum = acc.addOption (value.bind parseDecimal) := by
  cases value with
  | none =>
    cases h
    rfl
  | some value =>
    rw [Option.bind_some]
    exact DecimalAccumulator.add_eq_ok h

/-- The body of the loop in exact arithmetic. -/
def visitExact (st : VolumeState) (row : BuilderAttributionRow) : VolumeState where
  trades := st.trades + 1
  accounts := insert ⟨row.account⟩ st.accounts
  notional := st.notional.addOption (row.notional.bind parseDecimal)
  feeShare := st.feeShare.addOption (row.estimatedFeeAmount.bind parseDecimal)
  hasFeeShare := st.hasFeeShare || row.estimatedFeeAmount.isSome

theorem visit_eq_ok {st st' : VolumeState} {row : BuilderAttributionRow}
    (h : st.visit row = .ok st') : st' = st.visitExact row := by
  obtain ⟨notional, hnotional, h⟩ := bind_eq_ok_iff.1 h
  obtain ⟨feeShare, hfeeShare, h⟩ := bind_eq_ok_iff.1 h
  cases h
  rw [addIfSome_eq_ok hnotional, addIfSome_eq_ok hfeeShare]
  rfl

/-- Two rows may be visited in either order. -/
theorem visitExact_rightComm (st : VolumeState) (a b : BuilderAttributionRow) :
    (st.visitExact a).visitExact b = (st.visitExact b).visitExact a := by
  apply VolumeState.ext
  · rfl
  · exact Finset.insert_comm _ _ _
  · exact Scaled.addOption_rightComm _ _ _
  · exact Scaled.addOption_rightComm _ _ _
  · exact Bool.or_right_comm _ _ _

/-- A loop that does not overflow ends as every other order of the same rows does. -/
theorem foldlM_visit_perm {rows rows' : List BuilderAttributionRow} (hperm : rows.Perm rows')
    {st st₁ st₂ : VolumeState} (h₁ : rows.foldlM visit st = .ok st₁)
    (h₂ : rows'.foldlM visit st = .ok st₂) : st₁ = st₂ := by
  rw [foldlM_eq_foldl (fun _ _ _ => visit_eq_ok) h₁, foldlM_eq_foldl (fun _ _ _ => visit_eq_ok) h₂]
  exact hperm.foldl_eq' (fun a _ b _ st => visitExact_rightComm st a b) st

end VolumeState

theorem latestTimestamp_perm {l l' : List UInt64} (hperm : l.Perm l') :
    latestTimestamp l = latestTimestamp l' :=
  hperm.foldl_eq' (fun a _ b _ m => by rw [max_assoc, max_comm a b, ← max_assoc]) 0

/-- **Order independence.** Where no overflow occurs in either, two visits of the same
attributions give one volume row. -/
theorem builderVolumeRow_perm {builderAddr : String} {window : TimeWindow}
    {rows rows' : List BuilderAttributionRow} (hperm : rows.Perm rows') {checkpointTs : UInt64}
    {r₁ r₂ : BuilderVolumeRow}
    (h₁ : builderVolumeRow builderAddr window rows checkpointTs = .ok r₁)
    (h₂ : builderVolumeRow builderAddr window rows' checkpointTs = .ok r₂) : r₁ = r₂ := by
  have hmax : latestTimestamp (rows.map BuilderAttributionRow.timestampUs) =
      latestTimestamp (rows'.map BuilderAttributionRow.timestampUs) :=
    latestTimestamp_perm (hperm.map _)
  unfold builderVolumeRow at h₁ h₂
  simp only [hmax] at h₁
  obtain ⟨st, hst, h₁⟩ := bind_eq_ok_iff.1 h₁
  obtain ⟨st', hst', h₂⟩ := bind_eq_ok_iff.1 h₂
  -- both loops end in one state, and the rest is a function of that state
  cases VolumeState.foldlM_visit_perm (hperm.filter _) hst hst'
  rw [h₁] at h₂
  exact Except.ok.inj h₂

end HotIndex
