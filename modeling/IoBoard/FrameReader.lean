import IoBoard.SerialSafety
import IoBoard.Lib.Resync

/-!
# The Frame Reader

The three read stages of `_fetch_with_timeout`, run over and over on one stream whose bytes
arrive in pieces, each in time. A run of the stages ends with a frame, or with the exception
of a `readuntil` that finds its ETX too far away.

## What is left out

Of `fetch` only the reads are here: no drain, no request, no timeouts and no second caller. The
question is where the stages cut a stream of frames, and it is the same for all ways in which
the bytes arrive; the connection and its reads are those of `IoBoard.SerialIo`. Nothing is
checked either: what a run returns is what `_fetch_with_timeout` would return.

## Why garbage costs a frame

The header stage takes any byte, so in front of a stream of frames garbage shifts the reader: it
takes a garbage byte for the STX, reads on to the first ETX, and returns the garbage together
with the first frame, or its LRC separately. The LRC may itself be an ETX. `InStepSoon` is the
invariant of a reader that has not found the frames yet: it is about to swallow one, or it is in
step. It is an instance of the resynchronisation of `IoBoard.Lib.Resync`, which is stated for
any end mark.

A frame whose ETX is more than 65536 bytes away is never taken as a whole, and a `readuntil`
that raises leaves the buffer as it is, without the byte of the header. So a single long frame
loses its frame boundary, and the bound on the frames is needed.

## Main results

* `readerInv_of_reaches`: what is still to come of a list of frames, at every await.
* `reaches_waits`: the reads come to an end.
* `frames_recovered`: **garbage costs at most one frame, and a stream of frames is cut where
  the frames end**, if no frame is too long for `readuntil`.
* `not_frames_recovered`: a longer frame is lost.
-/

open Framing Runs

namespace IoBoard

/-- The stages of one run: what has been read of the frame so far, one stage for each of the
three reads. -/
inductive ReadStage
  | header
  | body (response : Bytes)
  | checksum (response : Bytes)

/-- A stream, the run of the stages that is going on, and the results of the runs so far, frames and
exceptions in their order. -/
structure Reader where
  conn : Connection := {}
  stage : ReadStage := .header
  results : List (Except PyExc Bytes) := []

/-- What has been read in the run that is going on. -/
def ReadStage.response : ReadStage → Bytes
  | .header => []
  | .body response | .checksum response => response

/-- One read of the stages: `none` when it has to wait. An exception ends the run, and the next
one begins at the header. -/
def Reader.read (r : Reader) : Option Reader :=
  match r.stage with
  | .header => r.conn.readexactly.map fun
      | (.ok b, n) => { r with conn := n, stage := .body [b] }
      | (.error e, n) => { conn := n, stage := .header, results := r.results ++ [.error e] }
  | .body response => r.conn.readuntil.map fun
      | (.ok chunk, n) => { r with conn := n, stage := .checksum (response ++ chunk) }
      | (.error e, n) => { conn := n, stage := .header, results := r.results ++ [.error e] }
  | .checksum response => r.conn.readexactly.map fun
      | (.ok b, n) =>
          { conn := n, stage := .header, results := r.results ++ [.ok (response ++ [b])] }
      | (.error e, n) => { conn := n, stage := .header, results := r.results ++ [.error e] }

/-- Bytes arrive, or the reader goes on. The bytes may be any piece of the stream. -/
inductive ReaderAction
  | receive (chunk : Bytes)
  | read

/-- One step of the reader. -/
def Reader.step (r : Reader) : ReaderAction → Option Reader
  | .receive chunk => some { r with conn := r.conn.feed chunk }
  | .read => r.read

/-! ### What a read can do -/

/-- A connection that has only received bytes: no end, no exception, and not more read than
received. -/
def Connection.Open (n : Connection) : Prop :=
  n.exception = none ∧ n.eof = false ∧ n.consumed ≤ n.received.length

/-- The stage of a run says what it has read: one byte, or a frame up to its ETX. -/
def ReadStage.Shaped : ReadStage → Prop
  | .header => True
  | .body response => ∃ b, response = [b]
  | .checksum response => ∃ b body, ETX ∉ body ∧ response = b :: body ++ [ETX]

/-- **One read**: the header, the body, the last byte, or a body that is too long. The first
three are those of a frame. -/
inductive Reader.Reading (r : Reader) : Reader → Prop
  | header {b rest} (hs : r.stage = .header) (hb : r.conn.buffer = b :: rest) :
      Reading r { r with conn := r.conn.consume 1, stage := .body [b] }
  | body {response body rest} (hs : r.stage = .body response) (hbody : ETX ∉ body)
      (hb : r.conn.buffer = body ++ ETX :: rest) :
      Reading r { r with
        conn := r.conn.consume (body.length + 1)
        stage := .checksum (response ++ (body ++ [ETX])) }
  | overrun {response} (hs : r.stage = .body response)
      (hfar : ∀ body rest future, ETX ∉ body → r.conn.buffer ++ future = body ++ ETX :: rest →
        streamLimit < body.length) :
      Reading r { r with
        stage := .header
        results := r.results ++ [.error .limitOverrunError] }
  | checksum {response b rest} (hs : r.stage = .checksum response)
      (hb : r.conn.buffer = b :: rest) :
      Reading r {
        conn := r.conn.consume 1
        stage := .header
        results := r.results ++ [.ok (response ++ [b])] }

variable {r r' : Reader} {target frames : List Bytes} {g future : Bytes}
  {before : List (Except PyExc Bytes)}

/-- **Every read of a connection that has only received bytes is one of `Reading`**: it goes on
within a run, ends one, or gives one up. -/
theorem reading_of_read (ho : r.conn.Open) (h : r.read = some r') : r.Reading r' := by
  obtain ⟨hexception, heof, -⟩ := ho
  rw [Reader.read] at h
  split at h
  · rename_i hstage
    obtain ⟨⟨result, n⟩, hread, rfl⟩ := Option.map_eq_some_iff.mp h
    rcases Connection.readexactly_eq_some hread with ⟨e, he, -⟩ | ⟨-, -, hend, -⟩ |
      ⟨b, rest, -, hb, rfl, rfl⟩
    · cases hexception.symm.trans he
    · cases heof.symm.trans hend
    · exact .header hstage hb
  · rename_i response hstage
    obtain ⟨⟨result, n⟩, hread, rfl⟩ := Option.map_eq_some_iff.mp h
    rw [Connection.readuntil, hexception] at hread
    dsimp only at hread
    split at hread
    · rename_i chunk rest hchunk
      obtain ⟨body, hbody, rfl, hb⟩ := readUntil_eq_some_iff.mp hchunk
      rw [List.length_append, List.length_singleton, Nat.add_sub_cancel] at hread
      split_ifs at hread with hlimit
      · obtain ⟨rfl, rfl⟩ := Prod.mk.inj (Option.some.inj hread)
        refine .overrun hstage fun body' rest' future hbody' heq => ?_
        rw [hb, List.append_assoc, List.cons_append] at heq
        rw [← (append_cons_inj hbody hbody' heq).1]
        exact hlimit
      · obtain ⟨rfl, rfl⟩ := Prod.mk.inj (Option.some.inj hread)
        exact .body hstage hbody hb
    · rename_i hnone
      have habsent := readUntil_eq_none_iff.mp hnone
      rw [heof] at hread
      simp only [Bool.false_eq_true, if_false, Option.ite_none_right_eq_some, Option.some.injEq,
        Prod.mk.injEq] at hread
      obtain ⟨hlimit, rfl, rfl⟩ := hread
      refine .overrun hstage fun body' rest' future hbody' heq => ?_
      -- the first ETX is behind everything that has arrived
      rcases List.append_eq_append_iff.mp heq with ⟨more, rfl, -⟩ | ⟨more, hmore, heq'⟩
      · rw [List.length_append]
        omega
      · cases more with
        | nil =>
            rw [List.append_nil] at hmore
            rwa [← hmore]
        | cons z more =>
            obtain ⟨rfl, -⟩ := List.cons.inj heq'
            rw [hmore] at habsent
            exact absurd (List.mem_append_right body' List.mem_cons_self) habsent
  · rename_i response hstage
    obtain ⟨⟨result, n⟩, hread, rfl⟩ := Option.map_eq_some_iff.mp h
    rcases Connection.readexactly_eq_some hread with ⟨e, he, -⟩ | ⟨-, -, hend, -⟩ |
      ⟨b, rest, -, hb, rfl, rfl⟩
    · cases hexception.symm.trans he
    · cases heof.symm.trans hend
    · exact .checksum hstage hb

/-! ### What is ahead -/

/-- The stream from where the run that is going on has started, with the bytes that have not
arrived. Arriving moves nothing in it. -/
def Reader.ahead (r : Reader) (future : Bytes) : Bytes :=
  r.stage.response ++ r.conn.buffer ++ future

/-- The reader is in step: some frames have been read, and the others are ahead. `before` are
the results from the time when it was not. -/
def InStep (before : List (Except PyExc Bytes)) (target : List Bytes) (ahead : Bytes)
    (results : List (Except PyExc Bytes)) : Prop :=
  ∃ done todo, results = before ++ done.map .ok ∧ target = done ++ todo ∧ ahead = todo.flatten

/-- The reader is in step, or will be after one frame at the latest: the frame that it is about
to lose is still ahead. -/
def InStepSoon (target : List Bytes) (ahead : Bytes) (results : List (Except PyExc Bytes)) :
    Prop :=
  Lost ETX streamLimit target ahead ∨ ∃ before, InStep before target ahead results

/-- A frame that `readuntil` can take: STX, some bytes, ETX, and one byte. There is no ETX
between the marks, and four bytes at least. -/
def ShortFrame (f : Bytes) : Prop :=
  ∃ body lrc, ETX ∉ body ∧ 4 ≤ body.length ∧ body.length ≤ streamLimit ∧
    f = STX :: body ++ [ETX, lrc]

theorem ShortFrame.isFrame {f : Bytes} (h : ShortFrame f) : IsFrame ETX streamLimit f := by
  obtain ⟨body, lrc, hbody, hlen, hlimit, rfl⟩ := h
  refine ⟨STX, body, lrc, by decide, ?_, hbody, hlimit, rfl⟩
  rintro rfl
  cases hlen

/-- A read takes bytes off the front, and none from those to come. -/
theorem Reader.Reading.conn_open (h : r.Reading r') (ho : r.conn.Open) : r'.conn.Open := by
  have hconsume : ∀ k, k ≤ r.conn.buffer.length → (r.conn.consume k).Open := by
    intro k hk
    rw [Connection.buffer, List.length_drop] at hk
    exact ⟨ho.1, ho.2.1, by have := ho.2.2; simp only [Connection.consume]; omega⟩
  cases h with
  | header hs hb | checksum hs hb => exact hconsume 1 (by rw [hb]; exact Nat.le_add_left 1 _)
  | body hs hbody hb =>
      refine hconsume _ ?_
      rw [hb, List.length_append, List.length_cons]
      omega
  | overrun => exact ho

theorem Reader.Reading.shaped (h : r.Reading r') (hs : r.stage.Shaped) : r'.stage.Shaped := by
  cases h with
  | header hstage hb => exact ⟨_, rfl⟩
  | body hstage hbody hb =>
      rw [hstage] at hs
      obtain ⟨b, rfl⟩ := hs
      exact ⟨b, _, hbody, rfl⟩
  | overrun | checksum => trivial

/-- **What a read does to the stream ahead**: nothing within a run; at the end of a run a frame
comes off, and where the run gives up its first byte does. The three cases are those of the
general reader. -/
theorem Reader.Reading.ahead_cases (h : r.Reading r') (hs : r.stage.Shaped) (future : Bytes) :
    (r'.ahead future = r.ahead future ∧ r'.results = r.results) ∨
    (∃ b body lrc, ETX ∉ body ∧ r.ahead future = b :: body ++ ETX :: lrc :: r'.ahead future ∧
      r'.results = r.results ++ [.ok (b :: body ++ [ETX, lrc])]) ∨
    ∃ b e, r.ahead future = b :: r'.ahead future ∧ r'.results = r.results ++ [.error e] ∧
      ∀ body rest, ETX ∉ body → r'.ahead future = body ++ ETX :: rest →
        streamLimit < body.length := by
  have hconsume : ∀ k, (r.conn.consume k).buffer = r.conn.buffer.drop k :=
    Connection.buffer_consume r.conn
  cases h with
  | @header b rest hstage hb =>
      refine .inl ⟨?_, rfl⟩
      simp [ahead, hstage, ReadStage.response, hconsume, hb]
  | @body response body rest hstage hbody hb =>
      refine .inl ⟨?_, rfl⟩
      have hdrop : (body ++ ETX :: rest).drop (body.length + 1) = rest := by
        rw [List.drop_append, List.drop_eq_nil_of_le (by omega)]
        simp
      simp only [ahead, hstage, ReadStage.response, hconsume, hb, hdrop]
      simp
  | @overrun response hstage hfar =>
      rw [hstage] at hs
      obtain ⟨b, rfl⟩ := hs
      refine .inr (.inr ⟨b, _, ?_, rfl, fun body rest hbody heq => ?_⟩)
      · simp [ahead, hstage, ReadStage.response]
      · simp only [ahead, ReadStage.response, List.nil_append] at heq
        exact hfar body rest future hbody heq
  | @checksum response lrc rest hstage hb =>
      rw [hstage] at hs
      obtain ⟨b, body, hbody, rfl⟩ := hs
      refine .inr (.inl ⟨b, body, lrc, hbody, ?_, by simp⟩)
      simp [ahead, hstage, ReadStage.response, hconsume, hb]

/-- **A reader in step stays in step**, frame by frame. -/
theorem InStep.reading (hin : InStep before target (r.ahead future) r.results)
    (h : r.Reading r') (hs : r.stage.Shaped) (hframes : ∀ f ∈ target, ShortFrame f) :
    InStep before target (r'.ahead future) r'.results := by
  obtain ⟨done, todo, hresults, rfl, hahead⟩ := hin
  rcases h.ahead_cases hs future with ⟨heq, hres⟩ | ⟨b, body, lrc, hbody, heq, hres⟩ |
    ⟨b, e, heq, hres, hfar⟩
  · exact ⟨done, todo, hres.trans hresults, rfl, heq.trans hahead⟩
  · rw [heq] at hahead
    cases todo with
    | nil => cases hahead
    | cons f todo =>
        have hf := hframes f (List.mem_append_right done List.mem_cons_self)
        rw [List.flatten_cons] at hahead
        obtain ⟨rfl, hrest, -⟩ := hf.isFrame.read_eq hbody hahead
        exact ⟨done ++ [b :: body ++ [ETX, lrc]], todo, by rw [hres, hresults]; simp,
          by simp, hrest⟩
  · rw [heq] at hahead
    cases todo with
    | nil => cases hahead
    | cons f todo =>
        obtain ⟨q, check, hq, -, hlen, rfl⟩ :=
          hframes f (List.mem_append_right done List.mem_cons_self)
        rw [List.flatten_cons] at hahead
        obtain ⟨-, hahead⟩ := List.cons.inj hahead
        have hlt := hfar q (check :: todo.flatten) hq (by rw [hahead]; simp)
        omega

/-- **A reader that is not in step** is in step after one frame at the latest. This is the
general reader of the library, read by read. -/
theorem InStepSoon.reading (hin : InStepSoon target (r.ahead future) r.results)
    (h : r.Reading r') (hs : r.stage.Shaped) (hframes : ∀ f ∈ target, ShortFrame f) :
    InStepSoon target (r'.ahead future) r'.results := by
  rcases hin with hl | ⟨before, hin⟩
  · rcases h.ahead_cases hs future with ⟨heq, -⟩ | ⟨b, body, lrc, hbody, heq, -⟩ |
      ⟨b, e, heq, -, hfar⟩
    · exact .inl (heq ▸ hl)
    · rw [heq] at hl
      refine (hl.read hbody).imp_right fun hrest => ?_
      exact ⟨r'.results, [], target, (List.append_nil _).symm, rfl, hrest⟩
    · rw [heq] at hl
      exact .inl (hl.skip hfar)
  · exact .inr ⟨before, hin.reading h hs hframes⟩

/-! ### Runs -/

/-- What holds of a reader on a stream: its connection only receives, and `P` holds of what is
ahead and of the results, however the rest of the stream is going to arrive. -/
structure ReaderInv (P : Bytes → List (Except PyExc Bytes) → Prop) (stream : Bytes)
    (r : Reader) : Prop where
  conn_open : r.conn.Open
  shaped : r.stage.Shaped
  ahead : ∀ future, r.conn.received ++ future = stream → P (r.ahead future) r.results

variable {P : Bytes → List (Except PyExc Bytes) → Prop} {stream : Bytes}

theorem Reader.Reading.received_eq (h : r.Reading r') : r'.conn.received = r.conn.received := by
  cases h <;> rfl

/-- Bytes that arrive have been ahead before. -/
theorem ReaderInv.receive (h : ReaderInv P stream r) (chunk : Bytes) :
    ReaderInv P stream { r with conn := r.conn.feed chunk } := by
  obtain ⟨hexception, heof, hle⟩ := h.conn_open
  refine ⟨⟨hexception, heof, hle.trans ?_⟩, h.shaped, fun future hstream => ?_⟩
  · rw [Connection.feed, List.length_append]
    exact Nat.le_add_right _ _
  · have hahead := h.ahead (chunk ++ future) (by simpa [Connection.feed] using hstream)
    simpa [Reader.ahead, Connection.buffer_feed hle] using hahead

/-- **What every read keeps holds in every run**, however the bytes arrive: those that are still
to arrive are part of the stream ahead. -/
theorem readerInv_of_reaches
    (hP : ∀ {r r' : Reader} {future : Bytes}, P (r.ahead future) r.results →
      r.Reading r' → r.stage.Shaped → P (r'.ahead future) r'.results)
    (h₀ : P stream []) {C : Reader → ReaderAction → Prop} (h : Reaches Reader.step C {} r) :
    ReaderInv P stream r := by
  refine h.invariant (P := ReaderInv P stream) ?_ fun r act r' hr _ hstep => ?_
  · refine ⟨⟨rfl, rfl, Nat.le_refl 0⟩, trivial, fun future hstream => ?_⟩
    obtain rfl : future = stream := hstream
    exact h₀
  · cases act with
    | receive chunk =>
        obtain rfl := Option.some.inj hstep
        exact hr.receive chunk
    | read =>
        have hread := reading_of_read hr.conn_open hstep
        exact ⟨hread.conn_open hr.conn_open, hread.shaped hr.shaped, fun future hstream =>
          hP (hr.ahead future (hread.received_eq ▸ hstream)) hread hr.shaped⟩

/-! ### The end of the reads -/

/-- **A reader that waits** has no complete frame ahead, so it has read all there are. -/
theorem not_complete_of_waits (ho : r.conn.Open) (hs : r.stage.Shaped) (h : r.read = none)
    {b lrc : UInt8} {body rest : Bytes} (hbody : ETX ∉ body) :
    r.ahead [] ≠ b :: body ++ ETX :: lrc :: rest := by
  rw [Reader.read] at h
  rw [Reader.ahead, List.append_nil]
  split at h
  · rename_i hstage
    rw [Option.map_eq_none_iff, Connection.readexactly_eq_none_iff] at h
    rw [hstage, h.2.1]
    exact nofun
  · rename_i response hstage
    rw [hstage] at hs ⊢
    obtain ⟨b', rfl⟩ := hs
    rw [Option.map_eq_none_iff, Connection.readuntil, ho.1] at h
    dsimp only at h
    split at h
    · split_ifs at h
    · rename_i hnone
      have habsent := readUntil_eq_none_iff.mp hnone
      intro heq
      have hbuffer : r.conn.buffer = body ++ ETX :: lrc :: rest := (List.cons.inj heq).2
      rw [hbuffer] at habsent
      exact habsent (List.mem_append_right body List.mem_cons_self)
  · rename_i response hstage
    rw [hstage] at hs ⊢
    obtain ⟨b', body', hbody', rfl⟩ := hs
    rw [Option.map_eq_none_iff, Connection.readexactly_eq_none_iff] at h
    rw [h.2.1, ReadStage.response, List.append_nil]
    intro heq
    obtain ⟨-, htail⟩ := List.cons.inj heq
    cases (append_cons_inj hbody' hbody htail).2

/-- How far the reader is from waiting. Every read takes a byte, or ends a body that is too long. -/
def Reader.measure (r : Reader) : ℕ :=
  2 * r.conn.buffer.length + match r.stage with
    | .body _ => 1
    | _ => 0

theorem Reader.Reading.measure_lt (h : r.Reading r') : r'.measure < r.measure := by
  have hconsume : ∀ k, (r.conn.consume k).buffer = r.conn.buffer.drop k :=
    Connection.buffer_consume r.conn
  cases h with
  | header hstage hb | checksum hstage hb | body hstage hbody hb =>
      simp only [measure, hstage, hconsume, hb, List.length_drop, List.length_append,
        List.length_cons]
      omega
  | overrun hstage =>
      simp only [measure, hstage]
      omega

/-- The reader goes on. -/
def OnlyReads (_ : Reader) : ReaderAction → Prop
  | .receive _ => False
  | .read => True

/-- **The reads come to an end**, by the measure of the reader. -/
theorem reaches_waits (ho : r.conn.Open) :
    ∃ r', Reaches Reader.step OnlyReads r r' ∧ r'.read = none := by
  induction hn : r.measure using Nat.strong_induction_on generalizing r with
  | _ n ih =>
      cases hread : r.read with
      | none => exact ⟨r, Reaches.refl r, hread⟩
      | some r₁ =>
          have hreading := reading_of_read ho hread
          obtain ⟨r', hr', hwaits⟩ :=
            ih r₁.measure (hn ▸ hreading.measure_lt) (hreading.conn_open ho) rfl
          have hfirst : Reaches Reader.step OnlyReads r r₁ :=
            Reaches.single ReaderAction.read trivial hread
          exact ⟨r', hfirst.trans hr', hwaits⟩

theorem open_of_reaches {C : Reader → ReaderAction → Prop} (h : Reaches Reader.step C {} r) :
    r.conn.Open := by
  have hinv : ReaderInv (fun _ _ => True) [] r :=
    readerInv_of_reaches (fun _ _ _ => trivial) trivial h
  exact hinv.conn_open

/-- The reads leave what has arrived as it is. -/
theorem received_of_reads (h : Reaches Reader.step OnlyReads r r') (ho : r.conn.Open) :
    r'.conn.received = r.conn.received ∧ r'.conn.Open := by
  refine h.invariant (P := fun r' => r'.conn.received = r.conn.received ∧ r'.conn.Open)
    ⟨rfl, ho⟩ fun r₁ act r₂ hr hC hstep => ?_
  cases act with
  | receive chunk => exact hC.elim
  | read =>
      have hreading := reading_of_read hr.2 hstep
      exact ⟨hreading.received_eq.trans hr.1, hreading.conn_open hr.2⟩

/-- A reader in step that waits has read all frames. -/
theorem InStep.results_eq (hin : InStep before target (r.ahead []) r.results)
    (ho : r.conn.Open) (hs : r.stage.Shaped) (hframes : ∀ f ∈ target, ShortFrame f)
    (hwaits : r.read = none) : r.results = before ++ target.map .ok := by
  obtain ⟨done, todo, hresults, rfl, hahead⟩ := hin
  cases todo with
  | nil => rw [hresults, List.append_nil]
  | cons f todo =>
      obtain ⟨body, lrc, hbody, -, -, rfl⟩ :=
        hframes f (List.mem_append_right done List.mem_cons_self)
      have hcomplete : r.ahead [] = STX :: body ++ ETX :: lrc :: todo.flatten := by
        rw [hahead]
        simp
      exact absurd hcomplete (not_complete_of_waits ho hs hwaits hbody)

/-- **Framing is self-synchronising.** Whatever garbage is in front of a list of frames, and
however the stream is cut into pieces, the reads come to an end, and then the results are the
frames where there is no garbage, and end with all frames but the first in any case. -/
theorem frames_recovered (hframes : ∀ f ∈ frames, ShortFrame f)
    (h : Reaches Reader.step Any {} r) (hr : r.conn.received = g ++ frames.flatten) :
    (∃ r', Reaches Reader.step OnlyReads r r' ∧ r'.read = none) ∧
      ∀ r', Reaches Reader.step OnlyReads r r' → r'.read = none →
        (g = [] → r'.results = frames.map .ok) ∧
        ∃ front, r'.results = front ++ frames.tail.map .ok := by
  refine ⟨reaches_waits (open_of_reaches h), fun r' hr' hwaits => ?_⟩
  have hall : Reaches Reader.step Any {} r' := h.trans (hr'.mono fun _ _ _ => trivial)
  have hreceived : r'.conn.received ++ [] = g ++ frames.flatten := by
    rw [List.append_nil, (received_of_reads hr' (open_of_reaches h)).1, hr]
  constructor
  · rintro rfl
    have hinv := readerInv_of_reaches (P := InStep [] frames)
      (fun hin hreading hs => hin.reading hreading hs hframes)
      ⟨[], frames, rfl, rfl, rfl⟩ hall
    exact (hinv.ahead [] hreceived).results_eq hinv.conn_open hinv.shaped hframes hwaits
  · cases frames with
    | nil => exact ⟨r'.results, (List.append_nil _).symm⟩
    | cons f frames =>
        have htail : ∀ f ∈ frames, ShortFrame f := fun f hf =>
          hframes f (List.mem_cons_of_mem _ hf)
        have hstart : InStepSoon frames (g ++ (f :: frames).flatten) [] :=
          .inl (.garbage (hframes f List.mem_cons_self).isFrame)
        have hinv := readerInv_of_reaches (P := InStepSoon frames)
          (fun hin hreading hs => hin.reading hreading hs htail) hstart hall
        rcases hinv.ahead [] hreceived with hl | ⟨before, hin⟩
        · obtain ⟨b, body, lrc, rest, hbody, hahead⟩ := hl.exists_read
          exact absurd hahead (not_complete_of_waits hinv.conn_open hinv.shaped hwaits hbody)
        · exact ⟨before, hin.results_eq hinv.conn_open hinv.shaped htail hwaits⟩

/-- Two frames behind a single ETX: the first is read with it, and the second as it is. -/
def garbageRun : List ReaderAction :=
  [.receive [3, 2, 65, 66, 67, 68, 3], .read, .read, .receive [2, 2, 69, 70, 71, 72, 3, 3], .read]

theorem garbageRun_isSome : (runFrom Reader.step {} garbageRun).isSome := by
  decide +kernel

theorem frames_recovered_garbageRun :
    ∃ r', Reaches Reader.step OnlyReads ((runFrom Reader.step {} garbageRun).get garbageRun_isSome)
      r' ∧ r'.read = none ∧ ∃ front, r'.results = front ++ [.ok [2, 69, 70, 71, 72, 3, 3]] := by
  have hframes : ∀ f ∈ [[2, 65, 66, 67, 68, 3, 2], [2, 69, 70, 71, 72, 3, 3]], ShortFrame f := by
    intro f hf
    simp only [List.mem_cons, List.not_mem_nil, or_false] at hf
    rcases hf with rfl | rfl
    · exact ⟨[65, 66, 67, 68], 2, by decide, by decide, by decide, rfl⟩
    · exact ⟨[69, 70, 71, 72], 3, by decide, by decide, by decide, rfl⟩
  have hreceived : ((runFrom Reader.step {} garbageRun).get garbageRun_isSome).conn.received =
      [3] ++ [[2, 65, 66, 67, 68, 3, 2], [2, 69, 70, 71, 72, 3, 3]].flatten := by
    decide +kernel
  obtain ⟨⟨r', hr', hwaits⟩, hresults⟩ :=
    frames_recovered hframes (reaches_get garbageRun_isSome) hreceived
  exact ⟨r', hr', hwaits, (hresults r' hr' hwaits).2⟩

/-! ### Frames that are too long -/

/-- The results only grow. -/
theorem results_of_reads (h : Reaches Reader.step OnlyReads r r') (ho : r.conn.Open)
    (hs : r.stage.Shaped) : r.results <+: r'.results := by
  have hinv : r'.conn.Open ∧ r'.stage.Shaped ∧ r.results <+: r'.results := by
    refine h.invariant (P := fun r' => r'.conn.Open ∧ r'.stage.Shaped ∧ r.results <+: r'.results)
      ⟨ho, hs, List.prefix_rfl⟩ fun r₁ act r₂ ⟨ho₁, hs₁, hres⟩ hC hstep => ?_
    cases act with
    | receive chunk => exact hC.elim
    | read =>
        have hreading := reading_of_read ho₁ hstep
        refine ⟨hreading.conn_open ho₁, hreading.shaped hs₁, hres.trans ?_⟩
        rcases hreading.ahead_cases hs₁ [] with ⟨-, hr⟩ | ⟨_, _, _, -, -, hr⟩ | ⟨_, _, -, hr, -⟩
        · rw [hr]
        · rw [hr]
          exact List.prefix_append _ _
        · rw [hr]
          exact List.prefix_append _ _
  exact hinv.2.2

/-- What the stages make of a frame whose ETX is out of the reach of `readuntil`. -/
theorem reaches_overrun {body : Bytes} (hbody : ETX ∉ body) (hlong : streamLimit < body.length)
    (lrc : UInt8) :
    ∃ r, Reaches Reader.step Any {} r ∧ r.conn.received = STX :: body ++ [ETX, lrc] ∧
      r.stage.Shaped ∧ r.results = [.error .limitOverrunError] := by
  let n : Connection := { received := STX :: body ++ [ETX, lrc] }
  have hfed : Reader.step {} (.receive (STX :: body ++ [ETX, lrc])) = some { conn := n } := rfl
  have hheader : Reader.step { conn := n } .read =
      some { conn := n.consume 1, stage := .body [STX] } := rfl
  have hbuffer : (n.consume 1).buffer = body ++ ETX :: [lrc] := rfl
  have hoverrun : Reader.step { conn := n.consume 1, stage := .body [STX] } .read =
      some { conn := n.consume 1, results := [.error .limitOverrunError] } := by
    have hread : (n.consume 1).readuntil = some (.error .limitOverrunError, n.consume 1) := by
      rw [Connection.readuntil, hbuffer, readUntil_append hbody]
      dsimp only [Connection.consume, n]
      rw [List.length_append, List.length_singleton, Nat.add_sub_cancel, if_pos hlong]
    rw [Reader.step, Reader.read]
    dsimp only
    rw [hread, Option.map_some]
    rfl
  exact ⟨_, (((Reaches.refl _).tail trivial hfed).tail trivial hheader).tail trivial hoverrun, rfl,
    trivial, rfl⟩

/-- **A frame that is too long is lost**, with no garbage in front of it. The reader gives it up
at the limit of its buffer. -/
theorem not_frames_recovered :
    ¬ ∀ (g : Bytes) (frames : List Bytes) (r r' : Reader), g.length < streamLimit →
      (∀ f ∈ frames, ∃ body lrc, ETX ∉ body ∧ 4 ≤ body.length ∧ f = STX :: body ++ [ETX, lrc]) →
      Reaches Reader.step Any {} r → r.conn.received = g ++ frames.flatten →
      Reaches Reader.step OnlyReads r r' → r'.read = none →
        (g = [] → r'.results = frames.map .ok) ∧
        ∃ front, r'.results = front ++ frames.tail.map .ok := by
  intro hall
  have hbody : ETX ∉ List.replicate (streamLimit + 1) (65 : UInt8) := by
    intro hmem
    exact absurd (List.eq_of_mem_replicate hmem) (by decide)
  have hlen : (List.replicate (streamLimit + 1) (65 : UInt8)).length = streamLimit + 1 :=
    List.length_replicate
  generalize List.replicate (streamLimit + 1) (65 : UInt8) = body at hbody hlen
  obtain ⟨r, hr, hreceived, hs, hresults⟩ := reaches_overrun hbody (by omega) 0
  obtain ⟨r', hr', hwaits⟩ := reaches_waits (open_of_reaches hr)
  obtain ⟨hexact, -⟩ := hall [] [STX :: body ++ [ETX, 0]] r r' (by decide)
    (List.forall_mem_singleton.mpr ⟨body, 0, hbody, by rw [hlen]; decide, rfl⟩) hr
    (by simpa using hreceived) hr' hwaits
  obtain ⟨more, hmore⟩ := results_of_reads hr' (open_of_reaches hr) hs
  rw [hresults, hexact rfl] at hmore
  cases hmore

end IoBoard
