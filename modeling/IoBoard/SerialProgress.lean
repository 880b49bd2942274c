import IoBoard.SerialConnection
import IoBoard.Validators

/-!
# Progress on the Line

What the resumptions of a call mean for the frames on the line: `Progress` sums `Resumed` up
in the few ways that matter to a device at the other end. A connection is usable while some
call may still read from it or write to it.

## Two abstractions

`Resumed` has a constructor for each way through the code of `fetch`. Seen from the line most of
them are the same: nothing is transmitted, and no frame is accepted. `Progress` keeps the
difference between a call that has not started its first attempt, one that is in an attempt, one
that transmits, and one that leaves, with a frame or without.

`State.Usable` is about the answers that are still to come. A failed call closes its connection,
and with the connection it gives up everything that the board may still send on it: whoever
comes next opens a new one. So a surplus of answers survives only a call that has succeeded or
was cancelled, and this is what bounds the confusion of answers in `IoBoard.Line`.

## Main results

* `progress_of_resumed`: **every resumption is one of `Progress`**.
* `usable_of_resumed`: a resumption makes no connection usable but one it opens.
* `not_usable_of_failed`: **a failed call leaves no usable connection behind**, other than one
  it has just opened.
-/

open Framing Runs

namespace IoBoard

variable {cfg : SerialModel} {s s' : State} {id : CallId} {c : Call} {stage stage' : Stage}
  {act : Action}

/-! ### Attempts -/

/-- A stage inside an attempt. -/
def Stage.isAttempt : Stage → Prop
  | .attempting _ _ => True
  | _ => False

theorem Stage.isCritical_of_isAttempt (h : stage.isAttempt) : stage.isCritical := by
  cases stage with
  | attempting => trivial
  | _ => exact h.elim

/-- Some call is in an attempt. -/
def State.Busy (s : State) : Prop :=
  ∃ id c, s.calls id = some c ∧ c.stage.isAttempt

/-- A call may still use the connection: it is cached, and not closing or in use. A closing
connection that nobody uses is never read from again. -/
def State.Usable (s : State) (n : ConnId) : Prop :=
  s.connection = some n ∧ ((s.conns n).closing = false ∨ s.Busy)

/-- Every transmission was made on a connection that has been opened. -/
theorem conn_lt_of_mem_transmissions (h : Reachable cfg s) :
    ∀ t ∈ s.transmissions, t.conn < s.nextConn := by
  refine h.induct (P := fun s => ∀ t ∈ s.transmissions, t.conn < s.nextConn)
    (List.forall_mem_nil _) ?_
  intro s _ s' hr ih _ ht
  cases stepped_of_step ht with
  | @resumed id _ c stage' _ hc hres =>
      have hnext : s.nextConn ≤ s'.nextConn := by
        obtain ⟨-, hnext⟩ | ⟨-, hnext⟩ | ⟨-, -, hnext⟩ := hres.connection_cases
        · exact hnext.ge
        · exact hnext.ge
        · exact hnext ▸ Nat.le_succ _
      obtain heq | ⟨a, d, hstage, -, rfl⟩ := hres.transmissions_cases
      · rw [heq]
        exact fun t ht => (ih t ht).trans_le hnext
      · rw [State.transmit_transmissions]
        intro t ht
        rcases List.mem_append.mp ht with ht | ht
        · exact ih t ht
        · have hcached := usesCached_of_reachable hr id c hc
          rw [hstage] at hcached
          rw [List.mem_singleton.mp ht]
          exact (cacheInv_of_reachable hr).bound _ hcached
  | called | cancelledWaiting | cancelled | ticked | received | closing | lost => exact ih

/-! ### Progress -/

/-- **What one resumption means for the line**: the call stays outside the attempts, starts
its first one, goes on in one, transmits, or leaves the last one with a frame, with an error
or cancelled. -/
inductive Progress (cfg : SerialModel) (s : State) (id : CallId) (c : Call) :
    Stage → Stage → State → Prop
  | outside {stage stage' : Stage} {s' : State} (h : ¬ stage.isAttempt) (h' : ¬ stage'.isAttempt)
      (hok : ∀ r, stage' ≠ .finished (.ok r)) :
      Progress cfg s id c stage stage' s'
  | started {stage : Stage} {n : ConnId} {s' : State} (h : ¬ stage.isAttempt)
      (hn : s.connection = some n ∧ (s.conns n).closing = false ∨ n = s.nextConn) :
      Progress cfg s id c stage (.attempting (firstAttempt cfg n) .interCommandGap) s'
  | kept {a p a' p'} {s' : State} (hconn : a'.conn = a.conn)
      (hread : ∀ response', p'.response = some response' →
        ∃ response, p.response = some response ∧
          response' ++ (s'.conns a.conn).buffer = response ++ (s.conns a.conn).buffer) :
      Progress cfg s id c (.attempting a p) (.attempting a' p') s'
  | transmitted {a d}
      (h : (s.conns a.conn).buffer = [] ∨ (s.conns a.conn).exception ≠ none) :
      Progress cfg s id c (.attempting a (.draining d)) (.attempting a .flushing)
        (s.transmit id c a)
  | accepted {a response d b rest} {s' : State} (he : (s.conns a.conn).exception = none)
      (hb : (s.conns a.conn).buffer = b :: rest)
      (ha : acceptsResponse c.args.expectedCommand c.args.expectedSubcommand
        (response ++ [b]) = true) :
      Progress cfg s id c (.attempting a (.readingChecksum response d))
        (.finished (.ok (response ++ [b]))) s'
  | failed {a p e} {s' : State} (h : (s'.conns a.conn).closing = true) :
      Progress cfg s id c (.attempting a p) (.resetting a.conn e) s'
  | cancelled {a p} {s' : State} :
      Progress cfg s id c (.attempting a p) (.finished (.error .cancelledError)) s'

/-- **Every resumption is one of `Progress`.** -/
theorem progress_of_resumed (h : Resumed cfg s id c stage stage' s') :
    Progress cfg s id c stage stage' s' := by
  cases h with
  | acquired | openFailed | lowLatencyFailed | closeRaised | resetDone =>
      exact .outside not_false not_false nofun
  | startOpen hst =>
      refine .outside ?_ not_false nofun
      obtain ⟨rfl, -⟩ | ⟨n, rfl, -⟩ := hst <;> exact not_false
  | moved hm =>
      cases hm with
      | awaitClose => exact .outside not_false not_false nofun
      | flushed => exact .kept rfl fun response' hr => ⟨response', hr, rfl⟩
      | gapWait | gapPass | gapWoken | wireWait | wirePass | wireWoken =>
          exact .kept rfl nofun
      | nextAttempt => exact .kept rfl nofun
  | reused hn hc => exact .started not_false (.inl ⟨hn, hc⟩)
  | opened => exact .started not_false (.inr rfl)
  | @read a p k p' he hread =>
      refine .kept rfl fun response' hr => ?_
      rw [State.goto_conns, State.setConn_conns, Function.update_self,
        Connection.buffer_consume]
      cases hread with
      | drained => cases hr
      | header hb =>
          cases hr
          exact ⟨[], rfl, by rw [hb]; rfl⟩
      | body hb =>
          cases hr
          obtain ⟨q, -, rfl, hbuf⟩ := readUntil_eq_some_iff.mp hb
          exact ⟨_, rfl, by rw [hbuf]; simp⟩
  | transmitted hb =>
      refine .transmitted (hb.imp_right fun he => ?_)
      rw [he]
      exact Option.some_ne_none _
  | retried | discarded => exact .kept rfl nofun
  | failed | rejected => exact .failed (by simp [Connection.close])
  | cancelledInside => exact .cancelled
  | accepted he hb hv ha => exact .accepted he hb ha

/-! ### Usable connections -/

/-- The calls in an attempt are the same. -/
def SameAttempts (s s' : State) : Prop :=
  ∀ j d, d.stage.isAttempt → (s'.calls j = some d ↔ s.calls j = some d)

theorem SameAttempts.busy_iff (h : SameAttempts s s') : s'.Busy ↔ s.Busy :=
  exists_congr fun j => exists_congr fun d => and_congr_left (h j d)

/-- A step outside the attempts that opens no connection makes none usable, for a transport that
closes does not open again. -/
theorem SameAttempts.usable (h : SameAttempts s s') (hcached : s'.connection = s.connection)
    {n : ConnId} (hclosing : (s'.conns n).closing = false → (s.conns n).closing = false)
    (hn : s'.Usable n) : s.Usable n :=
  ⟨hcached ▸ hn.1, hn.2.imp hclosing h.busy_iff.mp⟩

/-- Bytes that arrive make no connection usable. -/
theorem usable_of_feed {k n : ConnId} {bytes : Bytes}
    (hn : (s.setConn k ((s.conns k).feed bytes)).Usable n) : s.Usable n := by
  refine ⟨hn.1, hn.2.imp_left fun hc => ?_⟩
  rw [State.setConn_conns, Function.update_apply] at hc
  split_ifs at hc with hnk
  · rw [hnk]
    exact hc
  · exact hc

/-- A call that moves inside the block is the only one that can be in an attempt. -/
theorem not_busy_of_resumed (ho : Owned s) (hc : s.calls id = some c)
    (hr : Resumed cfg s id c c.stage stage' s') (h : ¬ stage'.isAttempt) : ¬ s'.Busy := by
  rintro ⟨j, d, hj, hd⟩
  rw [hr.calls_eq] at hj
  rcases update_eq_some.mp hj with ⟨rfl, rfl⟩ | ⟨hji, hj⟩
  · exact h hd
  · exact ho.others hc hr hj hji (Stage.isCritical_of_isAttempt hd)

/-- A resumption makes no connection usable but one that it opens, whichever call it resumes. -/
theorem usable_of_resumed (h : Reachable cfg s) (hc : s.calls id = some c)
    (hr : Resumed cfg s id c c.stage stage' s') {n : ConnId} (hn : s'.Usable n) :
    s.Usable n ∨ n = s.nextConn := by
  obtain ⟨hconn, hlive⟩ := hn
  have hcached : s.connection = some n ∨ n = s.nextConn := by
    obtain ⟨heq, -⟩ | ⟨hnone, -⟩ | ⟨-, hnew, -⟩ := hr.connection_cases
    · exact .inl (heq.symm.trans hconn)
    · cases hnone.symm.trans hconn
    · exact .inr (Option.some.inj (hconn.symm.trans hnew))
  by_cases hstage : c.stage.isAttempt
  · exact hcached.imp_left fun hcached => ⟨hcached, .inr ⟨id, c, hc, hstage⟩⟩
  · by_cases hstage' : stage'.isAttempt
    · have huses := (usesCached_of_reachable h id c hc).resumed hr
      generalize c.stage = stage at hr hstage
      cases progress_of_resumed hr with
      | outside _ h' => exact absurd hstage' h'
      | started _ hn =>
          obtain rfl := Option.some.inj (hconn.symm.trans huses)
          exact hn.imp_left fun hn => ⟨hn.1, .inl hn.2⟩
      | _ => exact absurd trivial hstage
    · refine hcached.imp_left fun hcached => ⟨hcached, .inl ?_⟩
      have hidle := hlive.resolve_right (not_busy_of_resumed (owned_of_reachable h) hc hr hstage')
      by_contra hclosing
      have := (hr.conns_used n).closing (Bool.eq_true_of_not_eq_false hclosing)
      rw [hidle] at this
      cases this

/-- **A failed call leaves no usable connection behind**, other than one it has just
opened. -/
theorem not_usable_of_failed (h : Reachable cfg s) (hc : s.calls id = some c) {e : PyExc}
    (hr : Resumed cfg s id c c.stage (.finished (.error e)) s') (he : e ≠ .cancelledError)
    {n : ConnId} (hn : s'.Usable n) : n = s.nextConn := by
  have hidle : ¬ s'.Busy := not_busy_of_resumed (owned_of_reachable h) hc hr not_false
  obtain ⟨hconn, hlive⟩ := hn
  have hlive := hlive.resolve_right hidle
  have huses := usesCached_of_reachable h id c hc
  have hcaches := (cacheInv_of_reachable h).caches id c hc
  generalize c.stage = stage at hr huses hcaches
  have hdead : ∀ m, s.connection = some m ∧ (s.conns m).closing = true →
      s'.connection = s.connection → (s'.conns m).closing = (s.conns m).closing → False := by
    rintro m ⟨hm, hclosing⟩ hconn' hsame
    obtain rfl := Option.some.inj (hm.symm.trans (hconn'.symm.trans hconn))
    rw [hsame, hclosing] at hlive
    cases hlive
  cases hr with
  | moved hm => cases hm
  | openFailed => cases hcaches.symm.trans hconn
  | lowLatencyFailed => exact (Option.some.inj hconn).symm
  | closeRaised | resetDone => exact (hdead _ huses rfl rfl).elim
  | cancelledInside => exact absurd rfl he

end IoBoard
