import IoBoard.Exceptions
import Mathlib.Data.Rat.Defs

/-!
# Polling Results

`services/polling/data_sources.py` and `stream_queues.py`: a poll result or a poll error
travels through the queue of a subscriber, and the error is raised again where it is
consumed.

A data source catches `Exception` only. A cancellation of the poll is never wrapped, which
`DataSourceError` carries as a field: an item of a queue cannot cancel its consumer. The
time of an item is that of the poll, taken before the command is sent, and every consumer
sees the same.

The polling loop and its queues are in `IoBoard.PollingService`; this module has what is
needed to speak of one item.

## Main definitions

* `StreamItem`: a result or an error, with its time.
* `DataSource.fetch`: what a poll makes of the outcome of its command.
* `StreamQueue.getNowait`: what a consumer gets of an item.
-/

namespace IoBoard

/-- `DataSourceResult`: the data of a poll that succeeded, with its time. -/
structure DataSourceResult (α : Type*) where
  data : α
  timestamp : ℚ

/-- `DataSourceError`: an exception of the command, kept for the consumers. It is not a
cancellation. -/
structure DataSourceError where
  error : PyExc
  timestamp : ℚ
  isException : error.isException = true

/-- What a subscriber's queue holds: a result, or an error that is raised when it is taken. -/
inductive StreamItem (α : Type*)
  | result (r : DataSourceResult α)
  | error (e : DataSourceError)

variable {α : Type*}

/-- `DataSource.fetch` at the time `timestamp`, for the outcome of the command it calls. A
cancellation passes, and no item is made. -/
def DataSource.fetch (outcome : Except PyExc α) (timestamp : ℚ) :
    Except PyExc (StreamItem α) :=
  match outcome with
  | .ok data => .ok (.result ⟨data, timestamp⟩)
  | .error e =>
      if h : e.isException = true then .ok (.error ⟨e, timestamp, h⟩) else .error e

/-- `StreamQueue.get_nowait`, for the item at the head of the queue: an error is raised where it is
taken. -/
def StreamQueue.getNowait : StreamItem α → Except PyExc (α × ℚ)
  | .result r => .ok (r.data, r.timestamp)
  | .error e => .error e.error

end IoBoard
