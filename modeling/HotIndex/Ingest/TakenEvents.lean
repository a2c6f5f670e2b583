import HotIndex.Core.CanonicalAddress
import HotIndex.Ingest.DecibelParser

/-!
# Which Events Are Taken

The parser looks at the addresses of its options only to decide whether an event is taken.
Two options of one dataset that take the same events parse every input to the same output
(`SameEvents`); all options whose addresses are zero do.
-/

namespace HotIndex

/-- A parser without addresses takes every event. -/
theorem matchesDecibelAddress_of_zero {options : ParserOptions}
    (hpackage : isZeroAddress options.packageAddress = true)
    (horderbook : isZeroAddress options.orderbookAddress = true)
    (event : JsonValue) (rawType : String) :
    matchesDecibelAddress event rawType options = true := by
  unfold matchesDecibelAddress
  rw [hpackage, horderbook]
  rfl

theorem matchesDecibelAddress_of_zeroAddress {options : ParserOptions}
    (hpackage : options.packageAddress = zeroAddress)
    (horderbook : options.orderbookAddress = zeroAddress) (event : JsonValue) (rawType : String) :
    matchesDecibelAddress event rawType options = true :=
  matchesDecibelAddress_of_zero (by rw [hpackage, isZeroAddress_zeroAddress])
    (by rw [horderbook, isZeroAddress_zeroAddress]) event rawType

/-- Options of one dataset that take the same events. -/
structure ParserOptions.SameEvents (options options' : ParserOptions) : Prop where
  network : options.network = options'.network
  datasetId : options.datasetId = options'.datasetId
  takes : ∀ event rawType, matchesDecibelAddress event rawType options =
    matchesDecibelAddress event rawType options'

namespace ParserOptions.SameEvents

variable {json : JsonText} {options options' : ParserOptions}

theorem parseEvent_eq (h : options.SameEvents options') :
    parseEvent json options = parseEvent json options' := by
  funext event tx fallbackEventIdx lineNo output
  unfold parseEvent normalizedEvent
  simp only [h.takes, h.network]

theorem parseEvents_eq (h : options.SameEvents options') :
    parseEvents json options = parseEvents json options' := by
  funext tx lineNo events idx output
  induction events generalizing idx output with
  | nil => rfl
  | cons event rest ih =>
    unfold parseEvents
    rw [h.parseEvent_eq]
    simp only [ih]

theorem parseFixtureLine_eq (h : options.SameEvents options') :
    parseFixtureLine json options = parseFixtureLine json options' := by
  funext value lineNo output
  unfold parseFixtureLine
  rw [h.parseEvents_eq, h.parseEvent_eq, h.network, h.datasetId]

theorem parseFixtureJsonlStr_eq (h : options.SameEvents options') :
    parseFixtureJsonlStr json options = parseFixtureJsonlStr json options' := by
  have hlines : ∀ lines lineNo output, parseFixtureLines json options lines lineNo output =
      parseFixtureLines json options' lines lineNo output := by
    intro lines
    induction lines with
    | nil => exact fun _ _ => rfl
    | cons line rest ih =>
      intro lineNo output
      unfold parseFixtureLines
      simp only [ih, h.parseFixtureLine_eq]
  funext input
  exact hlines _ _ _

theorem parseDecibelEventFromParts_eq (h : options.SameEvents options') :
    parseDecibelEventFromParts json options = parseDecibelEventFromParts json options' := by
  funext input output
  unfold parseDecibelEventFromParts
  rw [h.parseEvent_eq]

end ParserOptions.SameEvents

/-- The same options with both addresses written as a single zero. -/
def ParserOptions.shortZeros (options : ParserOptions) : ParserOptions :=
  { options with packageAddress := "0", orderbookAddress := "0" }

theorem ParserOptions.sameEvents_shortZeros {options : ParserOptions}
    (hpackage : options.packageAddress = zeroAddress)
    (horderbook : options.orderbookAddress = zeroAddress) :
    options.SameEvents options.shortZeros where
  network := rfl
  datasetId := rfl
  takes event rawType := by
    have hshort : isZeroAddress "0" = true := by decide +kernel
    rw [matchesDecibelAddress_of_zeroAddress hpackage horderbook]
    exact (@matchesDecibelAddress_of_zero options.shortZeros hshort hshort event rawType).symm

end HotIndex
