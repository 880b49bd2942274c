import IoBoard.Lib.PyFloat

/-!
# Configuration

The settings models of `core/config.py`, with the fields the modelled code reads. What
the source checks in a `field_validator` is a proof field here, so a value of one of
these types is a validated configuration, and the default values come with the proof that
they pass their own checks.

## Numbers

Times of the serial layer, the poll intervals and the health thresholds are exact rationals: the
code compares them with clock readings and passes them to `sleep`, and nothing that is proved of
them depends on a rounding. The sanitizer settings are `PyFloat`s: the validators let infinities
and NaN through, and the sanitizer compares readings with them. Whether a comparison with NaN
passes a check is thus decided as Python decides it: `nan < 0` is false, so NaN is not refused.

The bounds of the loadcell range are integers, and the counts are natural numbers; the
validators refuse negative ones.

## What is left out

Fields that nothing modelled reads (the section of the HTTP server, the baud rate), and where the
settings come from: the environment variables with the prefix `IO_BOARD__`, and how pydantic reads
a number from them. Any validated configuration is possible in every theorem.

## Main definitions

* `SerialModel`, `PollingModel`, `SanitizeModel`, `HealthModel`: the sections.
* `Settings`: all of them, with the defaults of the source.
-/

namespace IoBoard

/-! ### The defaults pass their own checks

The checks of the default values by name, so that all uses of `{}` carry the same proofs. -/

theorem SerialModel.timeouts_pos : (0 : ℚ) < 1 / 2 ∧ (0 : ℚ) < 3 / 10 ∧ (0 : ℚ) < 1 / 2 := by
  norm_num

theorem SerialModel.one_le_maxRetries : 1 ≤ 3 := by norm_num

theorem SerialModel.initialRetryDelay_pos : (0 : ℚ) < 1 / 10 := by norm_num

theorem SerialModel.one_le_retryBackoffMultiplier : (1 : ℚ) ≤ 2 := by norm_num

theorem SerialModel.interCommandGap_nonneg : (0 : ℚ) ≤ 1 / 10 := by norm_num

theorem PollingModel.intervals_pos : (0 : ℚ) < 8 / 10 ∧ (0 : ℚ) < 1 / 2 ∧ (0 : ℚ) < 2 := by
  norm_num

theorem PollingModel.minRequestGap_nonneg : (0 : ℚ) ≤ 3 / 4 := by norm_num

theorem SanitizeModel.nonNegative : PyFloat.ltB 2 0 = false ∧ PyFloat.ltB 5 0 = false ∧
    PyFloat.ltB 2 0 = false ∧ PyFloat.ltB 1 0 = false := by
  decide +kernel

theorem SanitizeModel.two_le_relatchFrames : 2 ≤ 3 := by norm_num

theorem HealthModel.seconds_pos : (0 : ℚ) < 180 ∧ (0 : ℚ) < 5 := by norm_num

/-! ### The models -/

/-- `SerialModel`: serial port, timeouts, retries and the inter-command gap. With at least one
attempt and a backoff multiplier of at least one, the delays between attempts never shrink. -/
structure SerialModel where
  port : String := "/dev/ttyUSB0"
  headerTimeout : ℚ := 1 / 2
  bodyTimeout : ℚ := 3 / 10
  checksumTimeout : ℚ := 1 / 2
  maxRetries : ℕ := 3
  initialRetryDelay : ℚ := 1 / 10
  retryBackoffMultiplier : ℚ := 2
  interCommandGap : ℚ := 1 / 10
  validateTimeouts : 0 < headerTimeout ∧ 0 < bodyTimeout ∧ 0 < checksumTimeout := by
    first | exact SerialModel.timeouts_pos | norm_num
  validateMaxRetries : 1 ≤ maxRetries := by
    first | exact SerialModel.one_le_maxRetries | norm_num
  validateInitialRetryDelay : 0 < initialRetryDelay := by
    first | exact SerialModel.initialRetryDelay_pos | norm_num
  validateRetryBackoffMultiplier : 1 ≤ retryBackoffMultiplier := by
    first | exact SerialModel.one_le_retryBackoffMultiplier | norm_num
  validateInterCommandGap : 0 ≤ interCommandGap := by
    first | exact SerialModel.interCommandGap_nonneg | norm_num

/-- `PollingModel`: the poll intervals and the minimum gap between loadcell requests. The
intervals are positive; a gap of zero is allowed, and turns the throttle off. -/
structure PollingModel where
  loadcellsPollInterval : ℚ := 8 / 10
  ioStatusPollInterval : ℚ := 1 / 2
  ioStatusPollIntervalWhileLoadcellsActive : ℚ := 2
  loadcellsMinRequestGap : ℚ := 3 / 4
  validateIntervals : 0 < loadcellsPollInterval ∧ 0 < ioStatusPollInterval ∧
    0 < ioStatusPollIntervalWhileLoadcellsActive := by
    first | exact PollingModel.intervals_pos | norm_num
  validateMinRequestGap : 0 ≤ loadcellsMinRequestGap := by
    first | exact PollingModel.minRequestGap_nonneg | norm_num

/-- `SanitizeModel`: sign-glitch correction and quantization of loadcell readings. A step of
zero switches the quantization off. -/
structure SanitizeModel where
  enabled : Bool := true
  medianFilter : Bool := false
  magnitudeToleranceGrams : PyFloat := 2
  minMagnitudeGrams : PyFloat := 5
  relatchFrames : ℕ := 3
  stalenessSeconds : PyFloat := 2
  quantizeGrams : PyFloat := 5
  quantizeHysteresisGrams : PyFloat := 1
  validateNonNegative :
    magnitudeToleranceGrams.ltB 0 = false ∧ minMagnitudeGrams.ltB 0 = false ∧
      stalenessSeconds.ltB 0 = false ∧ quantizeHysteresisGrams.ltB 0 = false := by
    first | exact SanitizeModel.nonNegative | decide +kernel
  validateRelatchFrames : 2 ≤ relatchFrames := by
    first | exact SanitizeModel.two_le_relatchFrames | norm_num

/-- `HealthModel`: the thresholds of the `/health` verdicts, for the loadcells and for the door
and the deadbolt. -/
structure HealthModel where
  loadcellMinGrams : ℤ := -40000
  loadcellMaxGrams : ℤ := 40000
  doorOpenErrorSeconds : ℚ := 180
  deadboltApplyTimeoutSeconds : ℚ := 5
  validatePositiveSeconds : 0 < doorOpenErrorSeconds ∧ 0 < deadboltApplyTimeoutSeconds := by
    first | exact HealthModel.seconds_pos | norm_num

/-- `Settings` with all its defaults: `{}` is the configuration of a service without any environment
variable. -/
structure Settings where
  serial : SerialModel := {}
  polling : PollingModel := {}
  sanitize : SanitizeModel := {}
  health : HealthModel := {}

end IoBoard
