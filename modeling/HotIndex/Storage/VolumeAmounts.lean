import HotIndex.Storage.DecimalDisplay
import HotIndex.Storage.VolumeWindow

/-!
# The Amounts of a Builder Volume

If the amounts of the attributions have at most `s` places and at most `bound` units of the
last one, and the number of attributions times `bound` is an `i128`, no sum overflows in either
engine, in any order. Then both show the volume and the fee share as the canonical texts of the
exact sums (`builderCodeVolume_in_range`).
-/

namespace HotIndex

open Lib

open RocksDb (afterRun)

/-! ## Sums of small decimals -/

theorem fitsI128_of_abs_le {n : Int} {bound : Nat} (h : |n| ≤ bound)
    (hbound : (bound : Int) ≤ i128Max) : FitsI128 n ∧ n ≠ i128Min := by
  have habs := abs_le.1 h
  unfold FitsI128 i128Min i128Max at *
  omega

/-- The text is no decimal, or a small one. -/
def DecimalWithin (s bound : Nat) (text : String) : Prop :=
  ∀ decimal ∈ parseDecimal text, decimal.Within s bound

instance (s bound : Nat) (text : String) : Decidable (DecimalWithin s bound text) :=
  inferInstanceAs (Decidable (∀ decimal ∈ parseDecimal text, _))

/-- The sum of two that are small enough is computed. -/
theorem DecimalAccumulator.add_of_within {acc : DecimalAccumulator} {s m n : Nat} {value : String}
    (hacc : acc.Within s m) (hvalue : DecimalWithin s n value)
    (hfits : ((m + n : Nat) : Int) ≤ i128Max) :
    ∃ sum, acc.add value = .ok sum ∧ sum.Within s (m + n) := by
  cases hparse : parseDecimal value with
  | none =>
    refine ⟨acc, ?_, hacc.mono (Nat.le_add_right m n)⟩
    unfold DecimalAccumulator.add
    rw [hparse]
  | some decimal =>
    have hdecimal := hvalue decimal hparse
    have hm : (m : Int) ≤ i128Max := by push_cast at hfits; omega
    have hn : (n : Int) ≤ i128Max := by push_cast at hfits; omega
    have hunits : acc.units = acc.unitsAt acc.scale := (Scaled.unitsAt_scale acc).symm
    have hmax : max acc.scale decimal.scale ≤ s := max_le hacc.1 hdecimal.1
    have hleft := hacc.units_le (le_max_left _ decimal.scale) hmax
    have hright := hdecimal.units_le (le_max_right acc.scale _) hmax
    have hsum := (abs_add_le _ _).trans (add_le_add hleft hright)
    rw [← Nat.cast_add] at hsum
    have hstart : FitsI128 acc.units := by
      rw [hunits]
      exact (fitsI128_of_abs_le (hacc.units_le le_rfl hacc.1) hm).1
    -- the three checks of `add`: either summand at the common scale, and their sum
    obtain ⟨sum, hadd⟩ := (add_ok_iff hstart hparse).2
      ⟨(fitsI128_of_abs_le hleft hm).1, (fitsI128_of_abs_le hright hn).1,
        (fitsI128_of_abs_le hsum hfits).1⟩
    refine ⟨sum, hadd, ?_⟩
    rw [DecimalAccumulator.add_eq_ok hadd, hparse]
    exact hacc.add hdecimal

/-- The sum of many that are small enough is computed, from left to right. -/
theorem foldlM_add_of_within {values : List String} {s bound m : Nat} {acc : DecimalAccumulator}
    (hacc : acc.Within s m) (hvalues : ∀ value ∈ values, DecimalWithin s bound value)
    (hfits : ((m + values.length * bound : Nat) : Int) ≤ i128Max) :
    ∃ sum, values.foldlM DecimalAccumulator.add acc = .ok sum ∧
      sum.Within s (m + values.length * bound) := by
  induction values generalizing acc m with
  | nil => exact ⟨acc, rfl, by simpa using hacc⟩
  | cons value rest ih =>
    rw [List.forall_mem_cons] at hvalues
    -- each value adds at most the bound, whatever its sign
    have hlength : m + (value :: rest).length * bound = m + bound + rest.length * bound := by
      rw [List.length_cons]
      ring
    rw [hlength] at hfits ⊢
    have hfirst : ((m + bound : Nat) : Int) ≤ i128Max := by
      refine le_trans ?_ hfits
      exact_mod_cast Nat.le_add_right _ _
    obtain ⟨between, hadd, hbetween⟩ := DecimalAccumulator.add_of_within hacc hvalues.1 hfirst
    obtain ⟨sum, hrest, hsum⟩ := ih hbetween hvalues.2 hfits
    refine ⟨sum, ?_, hsum⟩
    rw [List.foldlM_cons, hadd]
    exact hrest

/-- **Small amounts.** Texts whose number times their bound is an `i128` are summed without an
overflow, and their exact sum is printed. -/
theorem decimalSum_of_within {values : List String} {s bound : Nat}
    (hvalues : ∀ value ∈ values, DecimalWithin s bound value)
    (hfits : ((values.length * bound : Nat) : Int) ≤ i128Max) :
    ∃ acc, decimalSum values = .ok acc ∧ PrintsExactSum values := by
  have hzero : DecimalAccumulator.zero.Within s 0 := by
    constructor <;> simp [DecimalAccumulator.zero, Scaled.unitsAt]
  obtain ⟨acc, hsum, hacc⟩ := foldlM_add_of_within hzero hvalues (by simpa using hfits)
  have hunits := hacc.units_le le_rfl hacc.1
  rw [Scaled.unitsAt_scale, Nat.zero_add] at hunits
  exact ⟨acc, hsum, printsExactSum hsum (fitsI128_of_abs_le hunits hfits).2⟩

theorem NoOverflow.of_ok {α : Type} {m : Except Fault α} {a : α} (h : m = .ok a) :
    NoOverflow m := by
  intro fault hfault
  rw [h] at hfault
  cases hfault

/-! ## The loop over the attributions -/

namespace BuilderAttributionRow

/-- The amounts that are summed. -/
def amounts (row : BuilderAttributionRow) : List String :=
  row.notional.toList ++ row.estimatedFeeAmount.toList

def AmountsWithin (row : BuilderAttributionRow) (s bound : Nat) : Prop :=
  ∀ text ∈ row.amounts, DecimalWithin s bound text

instance (row : BuilderAttributionRow) (s bound : Nat) : Decidable (row.AmountsWithin s bound) :=
  inferInstanceAs (Decidable (∀ text ∈ row.amounts, _))

end BuilderAttributionRow

/-- The texts of the notionals and of the fees. -/
def notionals (rows : List BuilderAttributionRow) : List String :=
  rows.filterMap BuilderAttributionRow.notional

def feeAmounts (rows : List BuilderAttributionRow) : List String :=
  rows.filterMap BuilderAttributionRow.estimatedFeeAmount

theorem notionals_cons (row : BuilderAttributionRow) (rest : List BuilderAttributionRow) :
    notionals (row :: rest) = row.notional.toList ++ notionals rest := by
  unfold notionals
  rw [List.filterMap_cons]
  cases row.notional <;> rfl

theorem feeAmounts_cons (row : BuilderAttributionRow) (rest : List BuilderAttributionRow) :
    feeAmounts (row :: rest) = row.estimatedFeeAmount.toList ++ feeAmounts rest := by
  unfold feeAmounts
  rw [List.filterMap_cons]
  cases row.estimatedFeeAmount <;> rfl

/-- A text that is summed is an amount of a row. -/
theorem exists_amount_of_mem_notionals {rows : List BuilderAttributionRow} {text : String}
    (h : text ∈ notionals rows) : ∃ row ∈ rows, text ∈ row.amounts := by
  obtain ⟨row, hrow, hsome⟩ := List.mem_filterMap.1 h
  exact ⟨row, hrow, by simp [BuilderAttributionRow.amounts, hsome]⟩

theorem exists_amount_of_mem_feeAmounts {rows : List BuilderAttributionRow} {text : String}
    (h : text ∈ feeAmounts rows) : ∃ row ∈ rows, text ∈ row.amounts := by
  obtain ⟨row, hrow, hsome⟩ := List.mem_filterMap.1 h
  exact ⟨row, hrow, by simp [BuilderAttributionRow.amounts, hsome]⟩

theorem VolumeState.addIfSome_bind (acc : DecimalAccumulator) (value : Option String)
    (values : List String) :
    (addIfSome acc value >>= fun sum => values.foldlM DecimalAccumulator.add sum) =
      (value.toList ++ values).foldlM DecimalAccumulator.add acc := by
  cases value <;> rfl

/-- The loop computes the two sums, one beside the other. -/
theorem VolumeState.foldlM_visit {rows : List BuilderAttributionRow} {st : VolumeState}
    {notional feeShare : DecimalAccumulator}
    (hnotional : (notionals rows).foldlM DecimalAccumulator.add st.notional = .ok notional)
    (hfeeShare : (feeAmounts rows).foldlM DecimalAccumulator.add st.feeShare = .ok feeShare) :
    ∃ st', rows.foldlM visit st = .ok st' ∧ st'.notional = notional ∧ st'.feeShare = feeShare ∧
      st'.hasFeeShare = (st.hasFeeShare || !(feeAmounts rows).isEmpty) := by
  induction rows generalizing st with
  | nil =>
    cases hnotional
    cases hfeeShare
    exact ⟨st, rfl, rfl, rfl, by simp [feeAmounts]⟩
  | cons row rest ih =>
    rw [notionals_cons, ← addIfSome_bind] at hnotional
    rw [feeAmounts_cons, ← addIfSome_bind] at hfeeShare
    obtain ⟨notional', hfirst, hnotional⟩ := bind_eq_ok_iff.1 hnotional
    obtain ⟨feeShare', hfee, hfeeShare⟩ := bind_eq_ok_iff.1 hfeeShare
    -- where the loop stands behind the first row
    set between : VolumeState :=
      { trades := st.trades + 1
        accounts := insert ⟨row.account⟩ st.accounts
        notional := notional'
        feeShare := feeShare'
        hasFeeShare := st.hasFeeShare || row.estimatedFeeAmount.isSome } with hbetween
    have hvisit : st.visit row = .ok between :=
      bind_eq_ok_iff.2 ⟨_, hfirst, bind_eq_ok_iff.2 ⟨_, hfee, rfl⟩⟩
    obtain ⟨st', hrest, hsum, hfees, hsome⟩ := @ih between hnotional hfeeShare
    refine ⟨st', ?_, hsum, hfees, ?_⟩
    · rw [List.foldlM_cons, hvisit]
      exact hrest
    · rw [hsome, feeAmounts_cons, hbetween]
      cases row.estimatedFeeAmount <;> simp

/-! ## The volume row -/

/-- The volume row shows the amounts of the attributions from the start of its window on. -/
structure ShowsAmounts (rows : List BuilderAttributionRow) (volume : BuilderVolumeRow) : Prop where
  notional : IsDecimalOf volume.notionalVolume (exactSum (notionals
    (rows.filter (fun row => volume.windowStartTsUs ≤ row.timestampUs))))
  feeShare : ∀ text ∈ volume.estimatedFeeShare, IsDecimalOf text (exactSum (feeAmounts
    (rows.filter (fun row => volume.windowStartTsUs ≤ row.timestampUs))))
  /-- There is a share if and only if a row has a fee -/
  feeShare_isSome : volume.estimatedFeeShare.isSome ↔ feeAmounts
    (rows.filter (fun row => volume.windowStartTsUs ≤ row.timestampUs)) ≠ []

private theorem ne_nil_iff_of_perm {α : Type} {l l' : List α} (h : l.Perm l') :
    l ≠ [] ↔ l' ≠ [] := by
  rw [ne_eq, ne_eq, ← List.length_eq_zero_iff, h.length_eq, List.length_eq_zero_iff]

theorem ShowsAmounts.perm {rows rows' : List BuilderAttributionRow} {volume : BuilderVolumeRow}
    (h : ShowsAmounts rows volume) (hperm : rows.Perm rows') : ShowsAmounts rows' volume := by
  have hcounted := hperm.filter (fun row => volume.windowStartTsUs ≤ row.timestampUs)
  have hnotionals : (notionals _).Perm (notionals _) := hcounted.filterMap _
  have hfees : (feeAmounts _).Perm (feeAmounts _) := hcounted.filterMap _
  refine ⟨?_, fun text htext => ?_, ?_⟩
  · rw [← exactSum_perm hnotionals]
    exact h.notional
  · rw [← exactSum_perm hfees]
    exact h.feeShare text htext
  · exact h.feeShare_isSome.trans (ne_nil_iff_of_perm hfees)

/-- Attributions of small amounts have a volume row, and it shows them. -/
theorem builderVolumeRow_of_within {rows : List BuilderAttributionRow} {s bound : Nat}
    (hrows : ∀ row ∈ rows, row.AmountsWithin s bound)
    (hfits : ((rows.length * bound : Nat) : Int) ≤ i128Max) (builderAddr : String)
    (window : TimeWindow) (checkpointTs : UInt64) :
    ∃ volume, builderVolumeRow builderAddr window rows checkpointTs = .ok volume ∧
      ShowsAmounts rows volume := by
  set maxTs := latestTimestamp (rows.map BuilderAttributionRow.timestampUs) with hmaxTs
  set start := saturatingAdd (saturatingSub (max maxTs (max checkpointTs maxTs))
    window.durationUs) 1 with hstart
  set counted := rows.filter (fun row => start ≤ row.timestampUs) with hcounted
  -- each attribution that is counted brings one amount to either sum
  have hsums : ∀ texts : List String, texts.length ≤ counted.length →
      (∀ text ∈ texts, ∃ row ∈ counted, text ∈ row.amounts) →
        ∃ acc, decimalSum texts = .ok acc ∧ PrintsExactSum texts := by
    intro texts hlength hamounts
    refine @decimalSum_of_within texts s bound (fun text htext => ?_) ?_
    · obtain ⟨row, hrow, hamount⟩ := hamounts text htext
      exact hrows row (List.mem_of_mem_filter hrow) text hamount
    · refine le_trans ?_ hfits
      exact_mod_cast Nat.mul_le_mul_right bound (hlength.trans (List.length_filter_le _ _))
  obtain ⟨notional, hnotional, notional', text, hnotional', htext, hshown, -⟩ :=
    hsums (notionals counted) (List.length_filterMap_le _ _)
      (fun _ => exists_amount_of_mem_notionals)
  obtain ⟨feeShare, hfeeShare, feeShare', fee, hfeeShare', hfee, hfeeShown, -⟩ :=
    hsums (feeAmounts counted) (List.length_filterMap_le _ _)
      (fun _ => exists_amount_of_mem_feeAmounts)
  obtain rfl := Except.ok.inj (hnotional.symm.trans hnotional')
  obtain rfl := Except.ok.inj (hfeeShare.symm.trans hfeeShare')
  obtain ⟨st, hloop, rfl, rfl, hsome⟩ :=
    @VolumeState.foldlM_visit counted .start _ _ hnotional hfeeShare
  have hshare : ∃ share, st.estimatedFeeShare = .ok share ∧
      (∀ text ∈ share, text = fee) ∧ (share.isSome ↔ feeAmounts counted ≠ []) := by
    unfold VolumeState.estimatedFeeShare
    rw [hsome]
    by_cases hnone : feeAmounts counted = []
    · exact ⟨none, by simp [hnone, VolumeState.start], by simp, by simp [hnone]⟩
    · refine ⟨some fee, ?_, by simp, by simp [hnone]⟩
      rw [hfee]
      simp [hnone, VolumeState.start]
  obtain ⟨share, hshare, hisFee, hshareSome⟩ := hshare
  refine ⟨_, bind_eq_ok_iff.2 ⟨st, hloop, bind_eq_ok_iff.2 ⟨text, htext,
    bind_eq_ok_iff.2 ⟨share, hshare, rfl⟩⟩⟩, hshown, fun text htext => ?_, hshareSome⟩
  rw [hisFee text htext]
  exact hfeeShown

/-! ## Both engines -/

section Engines

variable {ops : List PutOp} {json : SerdeJson}

/-- Rows of one builder with small amounts have a volume. -/
theorem volumeOfRows_of_within {rows : List BuilderAttributionRow} {s bound : Nat}
    (hrows : ∀ row ∈ rows, row.AmountsWithin s bound)
    (hfits : ((rows.length * bound : Nat) : Int) ≤ i128Max) (builderAddr : String)
    (window : TimeWindow) (checkpointTs : UInt64) :
    ∃ volume?, volumeOfRows builderAddr window rows checkpointTs = .ok volume? ∧
      (volume?.isSome ↔ rows ≠ []) ∧ ∀ volume ∈ volume?, ShowsAmounts rows volume := by
  unfold volumeOfRows
  -- without rows there is no volume at all
  by_cases hempty : rows = []
  · subst hempty
    exact ⟨none, rfl, by simp, by simp⟩
  · obtain ⟨volume, hvolume, hshows⟩ :=
      builderVolumeRow_of_within hrows hfits builderAddr window checkpointTs
    rw [if_neg (mt List.isEmpty_iff.1 hempty), hvolume]
    refine ⟨some volume, rfl, by simp [hempty], fun volume' hvolume' => ?_⟩
    obtain rfl : volume = volume' := Option.some.inj hvolume'
    exact hshows

/-- **Amounts in range.** After a history in which no two attributions share their builder and
fill, all with amounts of at most `s` places and `bound` units of the last one, so that their
number times `bound` is an `i128`: no volume overflows in either engine, both return the same
one, a builder has one exactly if it has an attribution, and the volume and the fee share are
the canonical texts of the exact sums over the window. -/
theorem builderCodeVolume_in_range (hText : ∀ op ∈ ops, op.TextOk)
    (hjson : ∀ op ∈ ops, json.RoundTrips op) (hdistinct : BuildersDistinct ops) {s bound : Nat}
    (hamounts : ∀ row ∈ ops.filterMap PutOp.builderAttribution?, row.AmountsWithin s bound)
    (hfits : (((ops.filterMap PutOp.builderAttribution?).length * bound : Nat) : Int) ≤ i128Max) :
    ∃ db memory, RocksDb.exec (RocksDb.run json ops) .empty = (.ok (), db) ∧
      MemoryEngine.empty.run ops = memory ∧
      ∀ builderAddr window, Key.TextOk builderAddr →
        ∃ volume?, memory.getBuilderCodeVolume builderAddr window = .ok volume? ∧
          db.getBuilderCodeVolume json builderAddr window = .ok volume? ∧
          (volume?.isSome ↔ builderRows ops builderAddr ≠ []) ∧
          ∀ volume ∈ volume?, ShowsAmounts (builderRows ops builderAddr) volume := by
  refine ⟨_, _, RocksDb.exec_run_empty json hText, rfl, fun builderAddr window hbuilder => ?_⟩
  have hmemoryPerm := (builderAttributions_values_perm hdistinct).filter
    (fun row => row.builderAddr == builderAddr)
  have hscanPerm := sortOn_perm BuilderAttributionRow.scanKey (builderRows ops builderAddr)
  -- each engine sums the attributions of the builder in an order of its own
  have hvolume : ∀ rows : List BuilderAttributionRow, rows.Perm (builderRows ops builderAddr) →
      ∃ volume?, volumeOfRows builderAddr window rows (latestTimestamp
          ((MemoryEngine.empty.run ops).checkpoints.values.map
            IngestCheckpoint.lastProcessedTimestampUs)) = .ok volume? ∧
        (volume?.isSome ↔ rows ≠ []) ∧ ∀ volume ∈ volume?, ShowsAmounts rows volume := by
    intro rows hperm
    have hrows : ∀ row ∈ rows, row.AmountsWithin s bound := fun row hrow =>
      hamounts row (List.mem_of_mem_filter (hperm.mem_iff.1 hrow))
    have hlength : rows.length ≤ (ops.filterMap PutOp.builderAttribution?).length := by
      rw [hperm.length_eq]
      exact List.length_filter_le _ _
    refine volumeOfRows_of_within hrows (le_trans ?_ hfits) _ _ _
    exact_mod_cast Nat.mul_le_mul_right bound hlength
  obtain ⟨memoryVolume, hmemory, hsome, hshows⟩ := hvolume _ hmemoryPerm
  obtain ⟨rocksVolume, hrocks, -⟩ := hvolume _ hscanPerm
  have hscan := RocksDb.getBuilderCodeVolume_of_scan hText hjson
    (RocksDb.scanBuilderCodeFills_eq hText hjson hdistinct hbuilder .max) window
  obtain ⟨volume?, hmemory', hrocks'⟩ := getBuilderCodeVolume_agrees hText hjson hdistinct hbuilder
    window (.of_ok hmemory) (.of_ok (hscan.trans hrocks))
  obtain rfl : memoryVolume = volume? := Except.ok.inj (hmemory.symm.trans hmemory')
  refine ⟨memoryVolume, hmemory, hrocks', ?_, fun volume hmem => ?_⟩
  · exact hsome.trans (ne_nil_iff_of_perm hmemoryPerm)
  · exact (hshows volume hmem).perm hmemoryPerm

end Engines

/-- The amounts of the sample have at most three places, and at most 10500 units of the third. -/
theorem builderCodeVolume_in_range_attributionOps :
    ∃ db memory,
      RocksDb.exec (RocksDb.run (.ofOps attributionOps) attributionOps) .empty = (.ok (), db) ∧
      MemoryEngine.empty.run attributionOps = memory ∧
      ∀ builderAddr window, Key.TextOk builderAddr →
        ∃ volume?, memory.getBuilderCodeVolume builderAddr window = .ok volume? ∧
          db.getBuilderCodeVolume (.ofOps attributionOps) builderAddr window = .ok volume? ∧
          (volume?.isSome ↔ builderRows attributionOps builderAddr ≠ []) ∧
          ∀ volume ∈ volume?, ShowsAmounts (builderRows attributionOps builderAddr) volume :=
  @builderCodeVolume_in_range attributionOps (.ofOps attributionOps) (by decide +kernel)
    (by decide +kernel) (by decide) 3 10500 (by decide +kernel) (by decide +kernel)

end HotIndex
