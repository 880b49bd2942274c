import IoBoard.Lib.Runs
import IoBoard.Lib.Blocks
import IoBoard.Config
import IoBoard.IoTypes
import IoBoard.Lib.Framing
import IoBoard.SerialFrame
import IoBoard.SerialIo
import IoBoard.SerialSteps
import IoBoard.SerialSafety
import IoBoard.SerialSpacing
import IoBoard.Lib.Construct
import IoBoard.Protocol
import IoBoard.Commands
import IoBoard.Validators
import IoBoard.SerialConnection
import IoBoard.Lib.Literal
import IoBoard.Sanitizer
import IoBoard.SignGuard
import IoBoard.Health
import IoBoard.Quantizer
import IoBoard.Lib.Hysteresis
import IoBoard.QuantizerBins
import IoBoard.SignRepair
import IoBoard.MedianPath
import IoBoard.SanitizerTotal
import IoBoard.CanonicalOutput
import IoBoard.Lib.PyNumber
import IoBoard.Filters
import IoBoard.Events
import IoBoard.Polling
import IoBoard.Sse
import IoBoard.ChangePayload
import IoBoard.Lib.Relaxation
import IoBoard.StepResponse
import IoBoard.DetectorRuns
import IoBoard.LastingChange
import IoBoard.FloatFilters
import IoBoard.FloatChange
import IoBoard.StreamAlarm
import IoBoard.Lib.Fifo
import IoBoard.SerialProgress
import IoBoard.Machine
import IoBoard.MachineSteps
import IoBoard.Line
import IoBoard.Deadbolt
import IoBoard.DeadboltRuns
import IoBoard.ResponseGrammar
import IoBoard.FrameReader
import IoBoard.ErrorState
import IoBoard.FetchErrors
import IoBoard.PollingService
import IoBoard.Recording
import IoBoard.Lib.Sessions
import IoBoard.Lib.Resync
import IoBoard.Loadcells
import IoBoard.LoadcellSteps
import IoBoard.LoadcellGate
import IoBoard.LoadcellCache
import IoBoard.Calibration
import IoBoard.FailedCalibration
import IoBoard.Lib.Spans
import IoBoard.SerialCalls
import IoBoard.Lib.Executions
import IoBoard.FetchProgress
import IoBoard.DrainLoop
import IoBoard.Lib.Retry
import IoBoard.Lib.Traces
import IoBoard.AttemptOutcomes
import IoBoard.AttemptRuns
import IoBoard.RetryLoop
import IoBoard.LaggingBoard
import IoBoard.LaggingRuns
import IoBoard.Operations
import IoBoard.OperationSteps
import IoBoard.OperationLock
import IoBoard.OperationTrace
import IoBoard.DeadboltVerdict
import IoBoard.FilterBounds
import IoBoard.RenderedValues
import IoBoard.Lib.CharDatabase
import IoBoard.SseQuery
import IoBoard.ManufacturingNumber
import IoBoard.RaisingReadings
import IoBoard.CommandOutcomes
import IoBoard.Lib.ParseFailures
import IoBoard.Lib.Words
import IoBoard.ParseCauses
import IoBoard.SseStream
import IoBoard.SseDelivery
import IoBoard.SseShutdown
import IoBoard.AlarmCauses
import IoBoard.QuietShelf
import IoBoard.PollPacing
import IoBoard.Routers
import IoBoard.FrameInversion
import IoBoard.Lib.Json
import IoBoard.Lib.EventStream
import IoBoard.TimeUtils
import IoBoard.SseWire
import IoBoard.HealthHistory
import IoBoard.Lib.OrderStatistics
