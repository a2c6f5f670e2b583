import HotIndex.Dataset.Replay
import HotIndex.Ingest.EventAccounts

/-!
# Identities of Fixture Events

An event of a fixture file is identified by the version of its line and an index: the one that
it names, or else its position in the array of the line, or zero on a line that is itself one
event. Nothing keeps these apart, and the store keeps one event under each identity. All events
of a file survive its replay exactly if the indices are distinct within each line and across
the lines of a version (`fixtureKept_iff`).
-/

namespace HotIndex

open Lib

/-! ## Identities in the input -/

/-- The version of a line. -/
def lineVersion (value : JsonValue) : Option UInt64 :=
  u64Field value ["version", "transaction_version"]

/-- The event is of a type, and of the contract that the options name. -/
def isDecibelEvent (options : ParserOptions) (event : JsonValue) : Bool :=
  match stringField event ["type", "event_type", "raw_event_type"] with
  | some rawType => matchesDecibelAddress event rawType options
  | none => false

/-- The index of an event at a position of its line. -/
def eventIndex (event : JsonValue) (position : Nat) : UInt32 :=
  (u32Field event ["event_idx", "event_index"]).getD (UInt32.ofNat position)

/-- The indices of some Decibel events from a position on. -/
def indicesFrom (options : ParserOptions) (events : List JsonValue) (position : Nat) :
    List UInt32 :=
  ((events.zipIdx position).filter (fun entry => isDecibelEvent options entry.1)).map
    (fun entry => eventIndex entry.1 entry.2)

/-- The indices of the Decibel events of a line. -/
def lineIndices (options : ParserOptions) (value : JsonValue) : List UInt32 :=
  indicesFrom options (lineEvents value) 0

theorem ParserOptions.SameEvents.lineIndices_eq {options options' : ParserOptions}
    (h : options.SameEvents options') : lineIndices options = lineIndices options' := by
  have hdecibel : isDecibelEvent options = isDecibelEvent options' := by
    funext event
    unfold isDecibelEvent
    simp only [h.takes]
  funext value
  unfold lineIndices indicesFrom
  rw [hdecibel]

/-- The lines of a file that are not blank, as values. -/
def fixtureValues (json : JsonText) (lines : List String) : List JsonValue :=
  lines.filterMap (fun line =>
    if (RustText.trim line).isEmpty then none else (json.fromStr line).toOption)

/-- No index is used twice on a line, or on two lines of one version. -/
structure DistinctIndices (options : ParserOptions) (values : List JsonValue) : Prop where
  within : ∀ value ∈ values, (lineIndices options value).Nodup
  across : values.Pairwise (fun a b => lineVersion a = lineVersion b →
    (lineIndices options a).Disjoint (lineIndices options b))

/-- The places that the events of a line are given. -/
def linePlaces (options : ParserOptions) (value : JsonValue) : List ChainPlace :=
  (lineIndices options value).map (fun idx => toLex ((lineVersion value).getD 0, idx))

/-- On lines with a version, indices are distinct if places are. -/
theorem nodup_linePlaces_iff {options : ParserOptions} {values : List JsonValue}
    (hversion : ∀ value ∈ values, (lineVersion value).isSome) :
    (values.flatMap (linePlaces options)).Nodup ↔ DistinctIndices options values := by
  have hline : ∀ value, (linePlaces options value).Nodup ↔ (lineIndices options value).Nodup := by
    intro value
    apply List.nodup_map_iff
    intro idx idx' h
    simpa using h
  rw [List.nodup_flatMap]
  constructor
  · -- two lines of one version give a common index one place
    rintro ⟨hwithin, hacross⟩
    refine ⟨fun value hvalue => (hline value).1 (hwithin value hvalue), hacross.imp ?_⟩
    intro a b hdisjoint hsame idx ha hb
    apply hdisjoint (List.mem_map_of_mem ha)
    rw [hsame]
    exact List.mem_map_of_mem hb
  · -- a common place names the version of both lines
    rintro ⟨hwithin, hacross⟩
    refine ⟨fun value hvalue => (hline value).2 (hwithin value hvalue),
      hacross.imp_of_mem ?_⟩
    intro a b ha hb hdisjoint place hplace hplace'
    rcases List.mem_map.1 hplace with ⟨idx, hidx, rfl⟩
    rcases List.mem_map.1 hplace' with ⟨idx', hidx', heq⟩
    rcases Option.isSome_iff_exists.1 (hversion a ha) with ⟨version, hversionA⟩
    rcases Option.isSome_iff_exists.1 (hversion b hb) with ⟨version', hversionB⟩
    rw [hversionA, hversionB] at heq
    simp only [Option.getD_some, toLex_inj, Prod.mk.injEq] at heq
    rcases heq with ⟨rfl, rfl⟩
    exact hdisjoint (hversionA.trans hversionB.symm) hidx hidx'

/-! ## Places of the parsed events -/

section Places

variable {json : JsonText} {options : ParserOptions}

theorem parseEvent_places {event : JsonValue} {tx : TxMeta} {position : Nat} {lineNo : Nat}
    {before after : ParserOutput}
    (h : parseEvent json options event tx (UInt32.ofNat position) lineNo before = .ok after) :
    after.events.map NormalizedEvent.place = before.events.map NormalizedEvent.place ++
      if isDecibelEvent options event then [toLex (tx.version, eventIndex event position)]
      else [] := by
  rcases parseEvent_eq_ok h with ⟨rawType, htype, rfl⟩
  have hdecibel : isDecibelEvent options event = matchesDecibelAddress event rawType options := by
    unfold isDecibelEvent
    rw [htype]
  rw [ParserOutput.events_append, List.map_append, hdecibel]
  split_ifs
  · -- a Decibel event adds one entry, at its own place
    rcases @eventRows_madeOf json options event rawType tx (UInt32.ofNat position) lineNo with
      ⟨part, hplace, hpart⟩
    rw [hpart.events, List.map_singleton, List.map_singleton, hplace]
    rfl
  · rfl

theorem parseEvents_places {tx : TxMeta} {lineNo : Nat} {events : List JsonValue} {position : Nat}
    {before after : ParserOutput}
    (h : parseEvents json options tx lineNo events position before = .ok after) :
    after.events.map NormalizedEvent.place = before.events.map NormalizedEvent.place ++
      (indicesFrom options events position).map (fun idx => toLex (tx.version, idx)) := by
  induction events generalizing position before with
  | nil =>
    cases h
    simp [indicesFrom]
  | cons event events ih =>
    rcases bind_eq_ok_iff.1 h with ⟨between, hevent, hrest⟩
    -- an event of another contract takes up a position, but adds no place
    rw [ih hrest, parseEvent_places hevent, List.append_assoc]
    unfold indicesFrom
    rw [List.zipIdx_cons, List.filter_cons]
    split_ifs <;> rfl

theorem parseFixtureLine_places {value : JsonValue} {lineNo : Nat} {before after : ParserOutput}
    (h : parseFixtureLine json options value lineNo before = .ok after) :
    (lineVersion value).isSome ∧
      after.events.map NormalizedEvent.place =
        before.events.map NormalizedEvent.place ++ linePlaces options value := by
  rcases parseFixtureLine_eq_ok h with ⟨tx, output, htx, hevents, hafter⟩
  have hversion : lineVersion value = some tx.version := by
    unfold txMeta at htx
    unfold lineVersion
    cases hfield : u64Field value ["version", "transaction_version"] with
    | none =>
      rw [hfield] at htx
      cases htx
    | some version =>
      rw [hfield] at htx
      rw [← Except.ok.inj htx]
  -- the transaction of the line is no event
  have hsame : after.events = output.events := by
    rw [hafter]
    split_ifs
    · exact List.append_nil _
    · rfl
  refine ⟨by rw [hversion]; rfl, ?_⟩
  rw [hsame, parseEvents_places hevents, linePlaces, hversion]
  rfl

theorem parseFixtureLines_places {lines : List String} {lineNo : Nat}
    {before after : ParserOutput}
    (h : parseFixtureLines json options lines lineNo before = .ok after) :
    (∀ value ∈ fixtureValues json lines, (lineVersion value).isSome) ∧
      after.events.map NormalizedEvent.place = before.events.map NormalizedEvent.place ++
        (fixtureValues json lines).flatMap (linePlaces options) := by
  induction lines generalizing lineNo before with
  | nil =>
    cases h
    exact ⟨by simp [fixtureValues], by simp [fixtureValues]⟩
  | cons line lines ih =>
    rw [parseFixtureLines] at h
    split_ifs at h with hempty
    · -- a blank line has no events
      have hvalues : fixtureValues json (line :: lines) = fixtureValues json lines :=
        List.filterMap_cons_none (by rw [if_pos hempty])
      rw [hvalues]
      exact ih h
    · cases hvalue : json.fromStr line with
      | error message =>
        rw [hvalue] at h
        cases h
      | ok value =>
        rw [hvalue] at h
        rcases bind_eq_ok_iff.1 h with ⟨between, hline, h⟩
        rcases parseFixtureLine_places hline with ⟨hversion, hplaces⟩
        rcases ih h with ⟨hversions, hrest⟩
        have hvalues : fixtureValues json (line :: lines) =
            value :: fixtureValues json lines :=
          List.filterMap_cons_some (by rw [if_neg hempty, hvalue]; rfl)
        rw [hvalues]
        refine ⟨?_, ?_⟩
        · intro value' hvalue'
          rcases List.mem_cons.1 hvalue' with rfl | hvalue'
          · exact hversion
          · exact hversions value' hvalue'
        · rw [hrest, hplaces, List.flatMap_cons, List.append_assoc]

/-- The places of the events of a file, as the input gives them. -/
theorem parseFixtureJsonlStr_places {input : String} {rows : ParserOutput}
    (h : parseFixtureJsonlStr json options input = .ok rows) :
    rows.events.map NormalizedEvent.place =
      (fixtureValues json (splitLines [] input.toList)).flatMap (linePlaces options) :=
  (parseFixtureLines_places h).2

end Places

/-! ## What replay keeps -/

/-- No event of a dataset is lost: they have distinct identities, replay keeps each of them, and
the store counts as many as the manifest. -/
structure NormalizedDataset.EventsKept (dataset : NormalizedDataset) : Prop where
  distinct : (dataset.rows.events.map NormalizedEvent.place).Nodup
  kept : ∀ event ∈ dataset.rows.events,
    event ∈ dataset.replayIntoMemory.eventsByVersionIdx.values
  counted : dataset.replayIntoMemory.stats.eventCount = dataset.manifest.decibelEventCount

namespace NormalizedDataset

variable {dataset : NormalizedDataset}

/-- Distinct identities are all that it takes. -/
theorem eventsKept_iff :
    dataset.EventsKept ↔ (dataset.rows.events.map NormalizedEvent.place).Nodup := by
  refine ⟨EventsKept.distinct, fun hdistinct => ⟨hdistinct, ?_, ?_⟩⟩
  · -- the map has an entry for each of the keys
    intro event hevent
    unfold replayIntoMemory
    rw [MemoryEngine.eventsByVersionIdx_run, eventEntries_replayOps]
    refine List.mem_map.2 ⟨(event.place, event), ?_, rfl⟩
    apply (SortedMap.mem_ofList_of_nodup _ _).2
    · exact List.mem_map_of_mem (f := fun event : NormalizedEvent => (event.place, event)) hevent
    · rw [List.map_map]
      exact hdistinct
  · exact eventCount_replay_of_nodup hdistinct

end NormalizedDataset

/-- **Identities.** The events of a fixture file that is parsed keep distinct identities, and
all of them survive the replay of the normalized dataset, if and only if no index is used twice
on a line or on two lines of one version. -/
theorem fixtureKept_iff {json : JsonText} {options : ParserOptions} {input : String}
    {rows : ParserOutput} (h : parseFixtureJsonlStr json options input = .ok rows)
    (hashes : SortedMap Text String) :
    (fixtureDataset options rows hashes).EventsKept ↔
      DistinctIndices options (fixtureValues json (splitLines [] input.toList)) := by
  rw [NormalizedDataset.eventsKept_iff, ← nodup_linePlaces_iff (parseFixtureLines_places h).1,
    ← parseFixtureJsonlStr_places h]
  rfl

/-- The events of the mixed line have the indices of their positions. -/
theorem fixtureKept_iff_mixedLine :
    ∃ rows, parseFixtureJsonlStr mixedJson mixedOptions mixedLine.text = .ok rows ∧
      lineIndices mixedOptions mixedLine = [0, 1, 2] ∧
      (fixtureDataset mixedOptions rows .empty).EventsKept := by
  have hindices : lineIndices mixedOptions mixedLine = [0, 1, 2] := by
    rw [sameEvents_mixedOptions.lineIndices_eq]
    decide +kernel
  -- the fixture is a single line, so no two lines share an index
  have hvalues : fixtureValues mixedJson [mixedLine.text] = [mixedLine] := by
    apply List.filterMap_cons_some
    rw [splitLines_mixedLine.2, if_neg (by simp), fromStr_mixedLine]
    rfl
  rcases parse_mixedLine with ⟨rows, hparse, _⟩
  refine ⟨rows, hparse, hindices, (fixtureKept_iff hparse .empty).2 ?_⟩
  rw [splitLines_mixedLine.1, hvalues]
  refine ⟨?_, List.pairwise_singleton _ _⟩
  intro value hvalue
  rw [List.mem_singleton.1 hvalue, hindices]
  decide

/-- Two events of one transaction, each on a line of its own. -/
def singleEventLine (rawType : String) : JsonValue :=
  .object [("type", .string rawType), ("version", .number (.posInt 7))]

def singleEventJson : JsonText :=
  .ofTexts [((singleEventLine "Fill").text, singleEventLine "Fill"),
    ((singleEventLine "Funding").text, singleEventLine "Funding")]

def singleEventFile : String :=
  (singleEventLine "Fill").text ++ "\n" ++ (singleEventLine "Funding").text

/-- Both events are given index zero, and the second overwrites the first. -/
theorem replay_loses_event_singleEventFile :
    ∃ rows, parseFixtureJsonlStr singleEventJson mixedOptions singleEventFile = .ok rows ∧
      rows.events.map (fun event => (event.version, event.eventIdx)) = [(7, 0), (7, 0)] ∧
      (fixtureDataset mixedOptions rows .empty).manifest.decibelEventCount = 2 ∧
      (fixtureDataset mixedOptions rows .empty).replayIntoMemory.stats.eventCount = 1 ∧
      ¬ (fixtureDataset mixedOptions rows .empty).EventsKept := by
  -- all three numbers from one run of the parser
  have hcounts : (parseFixtureJsonlStr singleEventJson mixedOptions singleEventFile).map
      (fun rows => (rows.events.map (fun event => (event.version, event.eventIdx)),
        (fixtureDataset mixedOptions rows .empty).manifest.decibelEventCount,
        (fixtureDataset mixedOptions rows .empty).replayIntoMemory.stats.eventCount)) =
      .ok ([(7, 0), (7, 0)], 2, 1) := by
    rw [sameEvents_mixedOptions.parseFixtureJsonlStr_eq]
    decide +kernel
  cases hrows : parseFixtureJsonlStr singleEventJson mixedOptions singleEventFile with
  | error error =>
    rw [hrows] at hcounts
    cases hcounts
  | ok rows =>
    rw [hrows] at hcounts
    simp only [Except.map, Except.ok.injEq, Prod.mk.injEq] at hcounts
    rcases hcounts with ⟨hplaces, hmanifest, hstats⟩
    refine ⟨rows, rfl, hplaces, hmanifest, hstats, fun hkept => ?_⟩
    have hcounted := hkept.counted
    rw [hmanifest, hstats] at hcounted
    exact absurd hcounted (by decide)

end HotIndex
