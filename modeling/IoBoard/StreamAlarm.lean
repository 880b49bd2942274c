import IoBoard.SerialConnection
import IoBoard.Sse

/-!
# The Alarm of a Failed Poll

What `poll_loadcells` makes of the polls that failed, in any run. Whatever the poll failed
with, an `error` event tells the client; the alarm, which treats the loss of the board as a
possible theft, is in the `except IOBoardError` branch only. Exceptions of the transport
itself, such as the `SerialException` of an adapter that is pulled out, go through `fetch`
and `get_loadcells` as they are and end in the branch of unexpected exceptions.

## What the alarm consists of

An uncertainty event about all ten channels, an error event, and the reset of the detector. The
last of these is stated by what it does: the next frame is not compared with anything, however
many polls fail before it. The frame that follows an unexpected exception is compared with the
last one before it, as if nothing had happened.

The run is any list of items of the client's queue, from any detector. The consumption times do
not matter, nor does the number type.

## Main results

* `alarmed_iff`: **a failed poll raises the alarm exactly when it failed with an
  `IOBoardError`**.
* `Polled.Alarmed.after_eq_new`: an alarm takes a stream back to its start.
-/

namespace IoBoard

variable {F : Type*} [PyNumber F] {d : LoadcellChangeDetector F}
  {items : List (StreamItem (List Str) × ℚ)} {p : Polled F}

/-! ### One poll -/

namespace LoadcellChangeDetector

/-- An exception other than an `IOBoardError` is reported as unexpected and nothing else: the
detector stays as it is. -/
theorem failed_of_not_isIOBoardError {e : PyExc} (he : e.isException = true)
    (hio : ¬ e.isIOBoardError = true) (now : ℚ) :
    d.failed e now =
      (d, .ok [.error ⟨"loadcells", ⟨"E9002", "Unexpected loadcell stream error", []⟩⟩]) := by
  cases e with
  | cancelledError => cases he
  | ioBoard e => exact absurd rfl hio
  | _ => rfl

@[simp] theorem reset_failed (d : LoadcellChangeDetector F) (e : PyExc) (now : ℚ) :
    (d.failed e now).1.reset = d.reset := by
  cases e with
  | ioBoard e => exact d.reset_reset
  | _ => rfl

/-- The events of a failure say nothing about changes. -/
theorem change_not_mem_failed (d : LoadcellChangeDetector F) (e : PyExc) (now : ℚ)
    (event : LoadcellChangeEvent F) :
    .change event ∉ (d.failed e now).2.toOption.getD [] := by
  cases e <;> simp [failed, Except.toOption]

theorem Unread.failed (hd : d.Unread) (e : PyExc) (now : ℚ) : (d.failed e now).1.Unread := by
  cases e with
  | ioBoard e => exact d.unread_reset
  | _ => exact hd

@[simp] theorem reset_poll (d : LoadcellChangeDetector F) (item : StreamItem (List Str))
    (now : ℚ) : (d.poll item now).1.reset = d.reset := by
  rw [poll]
  split
  · exact d.reset_failed _ now
  · rename_i rawValues timestamp _
    have hprocess := d.reset_process rawValues
    split
    · rename_i hp
      rw [hp] at hprocess
      rw [reset_failed, hprocess]
    · rename_i hp
      rw [hp] at hprocess
      exact hprocess

/-- A poll that has nothing to compare with reports no change. -/
theorem Unread.change_not_mem_poll (hd : d.Unread) (item : StreamItem (List Str)) (now : ℚ)
    (event : LoadcellChangeEvent F) :
    .change event ∉ (d.poll item now).2.toOption.getD [] := by
  rw [poll]
  split
  · exact change_not_mem_failed _ _ now event
  · rename_i rawValues timestamp _
    split
    · exact change_not_mem_failed _ _ now event
    · rename_i hp
      have hchanged := hd.changedIndices (congrArg Prod.snd hp)
      simp [frameEvents, hchanged, Except.toOption]

end LoadcellChangeDetector

/-! ### Runs -/

/-- A poll of a run does what `poll` does. -/
theorem poll_of_mem (h : p ∈ pollLoadcells d items) :
    p.before.poll p.item p.now = (p.after, p.outcome) := by
  induction items generalizing d with
  | nil => cases h
  | cons entry items ih =>
      obtain ⟨item, now⟩ := entry
      rw [pollLoadcells] at h
      rcases List.mem_cons.mp h with rfl | h
      · rfl
      · split at h
        · cases h
        · exact ih h

/-- A reset leads back to the start of the run, from wherever the run is. -/
theorem before_reset (h : p ∈ pollLoadcells d items) : p.before.reset = d.reset := by
  induction items generalizing d with
  | nil => cases h
  | cons entry items ih =>
      obtain ⟨item, now⟩ := entry
      rw [pollLoadcells] at h
      rcases List.mem_cons.mp h with rfl | h
      · rfl
      · split at h
        · cases h
        · rw [ih h, LoadcellChangeDetector.reset_poll]

/-- From a detector that has nothing to compare with, failed polls and the first frame after
them report no change. -/
theorem change_not_mem_of_unread {errors : List (DataSourceError × ℚ)}
    {good : StreamItem (List Str) × ℚ} (hd : d.Unread)
    (h : p ∈ pollLoadcells d (errors.map (fun e => (.error e.1, e.2)) ++ [good]))
    (event : LoadcellChangeEvent F) : .change event ∉ p.events := by
  induction errors generalizing d with
  | nil =>
      obtain ⟨item, now⟩ := good
      simp only [List.map_nil, List.nil_append, pollLoadcells] at h
      rcases List.mem_cons.mp h with rfl | h
      · exact hd.change_not_mem_poll item now event
      · split at h <;> cases h
  | cons e errors ih =>
      rw [List.map_cons, List.cons_append, pollLoadcells] at h
      rcases List.mem_cons.mp h with rfl | h
      · exact hd.change_not_mem_poll _ _ event
      · split at h
        · cases h
        · exact ih (hd.failed _ _) h

/-! ### The alarm -/

/-- The alarm of a poll: an uncertainty event about all channels, an error event, and a reset
of the detector, after which the next frame, however many polls fail before it, is not
compared with anything. -/
structure Polled.Alarmed (p : Polled F) : Prop where
  uncertainty : ∃ e, .uncertainty e ∈ p.events ∧ e.affectedIndices = List.range 10
  error : ∃ e, .error e ∈ p.events
  reset : p.after = p.before.reset
  uncompared : ∀ (errors : List (DataSourceError × ℚ)) (good : DataSourceResult (List Str))
    (now : ℚ), ∀ q ∈ pollLoadcells p.after
      (errors.map (fun e => (.error e.1, e.2)) ++ [(.result good, now)]),
      ∀ event, .change event ∉ q.events

/-- **The alarm.** In every run, a failed poll raises the alarm exactly when it failed with an
`IOBoardError`. -/
theorem alarmed_iff (h : p ∈ pollLoadcells d items) {e : DataSourceError}
    (he : p.item = .error e) : p.Alarmed ↔ e.error.isIOBoardError = true := by
  have hpoll : p.before.failed e.error p.now = (p.after, p.outcome) := by
    have := poll_of_mem h
    rwa [he] at this
  constructor
  · rintro ⟨⟨event, hevent, -⟩, -, -, -⟩
    by_contra hio
    rw [LoadcellChangeDetector.failed_of_not_isIOBoardError e.isException hio] at hpoll
    simp [Polled.events, ← (Prod.mk.inj hpoll).2, Except.toOption] at hevent
  · intro hio
    obtain ⟨err, herr⟩ := PyExc.isIOBoardError_iff.mp hio
    rw [herr] at hpoll
    obtain ⟨hafter, houtcome⟩ := Prod.mk.inj hpoll
    refine ⟨⟨⟨p.now, List.range 10, "io_board_failure", .failure err.toDict⟩, ?_, rfl⟩,
      ⟨⟨"loadcells", err.toDict⟩, ?_⟩, hafter.symm, ?_⟩
    · simp [Polled.events, ← houtcome, Except.toOption]
    · simp [Polled.events, ← houtcome, Except.toOption]
    · intro errors good now q hq event
      rw [← hafter] at hq
      exact change_not_mem_of_unread p.before.unread_reset hq event

/-- An alarm takes a stream back to its start. -/
theorem Polled.Alarmed.after_eq_new {method : FilterMethod} {thresholds : List F}
    {scope : ThresholdScope} {alpha q r : F}
    (h : p ∈ pollLoadcells (.new method thresholds scope alpha q r) items) (hp : p.Alarmed) :
    p.after = .new method thresholds scope alpha q r := by
  rw [hp.reset, before_reset h, LoadcellChangeDetector.reset_new]

/-- A poll that fails with a timeout. -/
def timeoutItem : DataSourceError :=
  ⟨.ioBoard ⟨.serialCommunication, "Serial read timeout", .serialTimeout, []⟩, 1, rfl⟩

/-- The alarm of a timeout after one frame. -/
theorem alarmed_iff_timeout :
    ∃ p ∈ pollLoadcells
      (LoadcellChangeDetector.new .none (List.replicate 10 (0 : PyFloat)) .filtered 0 0 0)
      [(.result ⟨List.replicate 10 "+00100".toList, 0⟩, 0), (.error timeoutItem, 1)],
      p.item = .error timeoutItem ∧ p.Alarmed := by
  obtain ⟨p, hp, hitem⟩ : ∃ p ∈ pollLoadcells
      (LoadcellChangeDetector.new .none (List.replicate 10 (0 : PyFloat)) .filtered 0 0 0)
      [(.result ⟨List.replicate 10 "+00100".toList, 0⟩, 0), (.error timeoutItem, 1)],
      p.item = .error timeoutItem :=
    ⟨_, List.mem_cons_of_mem _ (List.mem_cons_self ..), rfl⟩
  exact ⟨p, hp, hitem, (alarmed_iff hp hitem).mpr rfl⟩

/-- Not every failed poll raises the alarm: in `lossRun` the loadcell request fails with the
exception of the lost transport, which the stream reports as unexpected. -/
theorem not_forall_alarmed :
    ¬ ∀ (cfg : SerialModel) (s : State) (id : CallId) (fetched : Except PyExc Bytes)
      (sanitizer : Option LoadcellSanitizer) (now : PyFloat) (timestamp : ℚ)
      (e : DataSourceError), Reachable cfg s → s.calls id = some ⟨rqiwArgs, .finished fetched⟩ →
      DataSource.fetch (receiveLoadcells sanitizer fetched now).2 timestamp = .ok (.error e) →
      ∀ (d : LoadcellChangeDetector PyFloat) (items : List (StreamItem (List Str) × ℚ)),
        ∀ p ∈ pollLoadcells d items, p.item = .error e → p.Alarmed := by
  intro h
  let exc : PyExc := .serialException "device reports readiness to read".toList
  let d : LoadcellChangeDetector PyFloat := .new .none [] .filtered 0 0 0
  have hcall : lossState.calls 0 = some ⟨rqiwArgs, .finished (.error exc)⟩ := by decide +kernel
  have halarmed := h {} lossState 0 (.error exc) none 0 0 ⟨exc, 0, rfl⟩ lossState_reachable hcall
    rfl d [(.error ⟨exc, 0, rfl⟩, 0)] _ (List.mem_cons_self ..) rfl
  obtain ⟨event, hevent, -⟩ := halarmed.uncertainty
  simp [Polled.events, LoadcellChangeDetector.poll, StreamQueue.getNowait, exc,
    LoadcellChangeDetector.failed, Except.toOption] at hevent

end IoBoard
