import IoBoard.Lib.Spans
import IoBoard.OperationSteps

/-!
# The Operation Lock

The operation lock keeps the deadbolt operations apart: from the recording of its target to its
end a request has the lock, and every MC/DC request on the wire in between is its own.

## The invariants

* `LockInv`: the lock is that of the request whose stage is inside the block. A request that is
  cancelled in a sleep leaves the block like one that fails.
* `CallInv`: a request waits for a `fetch` call of its own, and every MC/DC call in progress is
  that of a request that is inside. So no two of them can be in progress, although the serial layer
  would let them wait for each other.
* `LogInv`: what these come to in the log. It is an invariant of the log, the lock and the
  MC/DC call of each request (`SpanInv`), and it is kept for the same reason in every case: the
  entry that is added is either quiet, or belongs to the request that has the lock.

A request is *running* in the log from the recording of its target to its end. Entries that stand
in this span are those that came while it was running, so exclusion is a statement about the log
alone and says nothing about stages or locks.

## Main results

* `Operations.LockInv.step`: the lock is that of the request inside.
* `SpanInv`: what stands in the log while a request is inside.
* `Operations.LogInv.step`: **what stands in the log between the recording of a target and the
  end of its request is of that request**.
-/

open Runs Spans

namespace IoBoard

/-! ### Spans of requests -/

section Spans

variable {lock : Option PostId} {control control' : PostId → Option CallId}
  {log : List OperationEvent} {p q : PostId}

/-- From its recording on the request `p` has not ended, as far as the log goes. -/
abbrev Running (p : PostId) (log : List OperationEvent) : Prop :=
  Open (.post p .recorded) (.post p .ended) log

/-- The entry `x` stands between the recording of the request `p` and its end. -/
abbrev During (p : PostId) (log : List OperationEvent) (x : OperationEvent) : Prop :=
  Within (.post p .recorded) (.post p .ended) log x

/-- The invariant of the log: a request that has been recorded has the lock until it has ended,
and in between no target is recorded and no MC/DC request is sent but its own. -/
structure SpanInv (lock : Option PostId) (control : PostId → Option CallId)
    (log : List OperationEvent) : Prop where
  owner : ∀ p, Running p log → lock = some p
  alone : ∀ p q, ¬ During p log (.post q .recorded)
  sends : ∀ p t, During p log (.serial (.tx t)) → t.label = deadboltControl.label →
    control p = some t.call

namespace SpanInv

theorem nil : SpanInv none control [] where
  owner _ h := absurd h not_open_nil
  alone _ _ := not_within_nil
  sends _ _ h := absurd h not_within_nil

theorem mono (h : SpanInv lock control log)
    (hcontrol : ∀ p c, control p = some c → control' p = some c) :
    SpanInv lock control' log where
  owner := h.owner
  alone := h.alone
  sends p t hduring hlabel := hcontrol p _ (h.sends p t hduring hlabel)

/-- The serial layer goes on, and sends MC/DC for the request that has the lock only. -/
theorem serial (h : SpanInv lock control log) {more : List Event}
    (hsent : ∀ t, .tx t ∈ more → t.label = deadboltControl.label → ∀ p, lock = some p →
      control p = some t.call) : SpanInv lock control (log ++ more.map .serial) := by
  have hpost (e : PostEvent) (q : PostId) : OperationEvent.post q e ∉ more.map .serial := by simp
  refine ⟨fun p hopen => ?_, fun p q hduring => ?_, fun p t hduring hlabel => ?_⟩
  · exact h.owner p ((open_append (hpost _ p) (hpost _ p)).mp hopen)
  · rcases (within_append (hpost _ p) (hpost _ p)).mp hduring with hduring | ⟨hmem, -⟩
    · exact h.alone p q hduring
    · exact hpost _ q hmem
  · rcases (within_append (hpost _ p) (hpost _ p)).mp hduring with hduring | ⟨hmem, hopen⟩
    · exact h.sends p t hduring hlabel
    · obtain ⟨e, he, heq⟩ := List.mem_map.mp hmem
      cases heq
      exact hsent t he hlabel p (h.owner p hopen)

/-- An entry that is neither the recording of a target nor a transmission. -/
theorem quiet (h : SpanInv lock control log) {x : OperationEvent}
    (hrecorded : ∀ q, x ≠ .post q .recorded) (hsent : ∀ t, x ≠ .serial (.tx t)) :
    SpanInv lock control (log ++ [x]) := by
  refine ⟨fun p hopen => ?_, fun p r hduring => ?_, fun p t hduring hlabel => ?_⟩
  · rcases open_concat.mp hopen with heq | ⟨-, hopen⟩
    · exact absurd heq (hrecorded p)
    · exact h.owner p hopen
  · rcases within_concat.mp hduring with hduring | ⟨heq, -⟩
    · exact h.alone p r hduring
    · exact absurd heq (hrecorded r)
  · rcases within_concat.mp hduring with hduring | ⟨heq, -⟩
    · exact h.sends p t hduring hlabel
    · exact absurd heq (hsent t)

/-- A request does something in between, which is neither a recording nor an end. -/
theorem note (h : SpanInv lock control log) {e : PostEvent} (hrecorded : e ≠ .recorded) :
    SpanInv lock control (log ++ [.post q e]) := by
  refine h.quiet (fun r heq => ?_) (fun t heq => ?_)
  · cases heq
    exact absurd rfl hrecorded
  · cases heq

/-- Something happens to the error-state service. That is no entry of a request. -/
theorem service (h : SpanInv lock control log) (e : ServiceEvent) :
    SpanInv lock control (log ++ [.service e]) := by
  refine h.quiet (fun r heq => ?_) (fun t heq => ?_)
  · cases heq
  · cases heq

/-- A request that gets the free lock records its target. -/
theorem record (h : SpanInv none control log) :
    SpanInv (some q) control (log ++ [.post q .recorded]) := by
  have hnone (p : PostId) : ¬ Running p log := fun hopen => by cases h.owner p hopen
  refine ⟨fun p hopen => ?_, fun p r hduring => ?_, fun p t hduring hlabel => ?_⟩
  · rcases open_concat.mp hopen with heq | ⟨-, hopen⟩
    · cases heq
      rfl
    · exact absurd hopen (hnone p)
  · rcases within_concat.mp hduring with hduring | ⟨-, hopen⟩
    · exact h.alone p r hduring
    · exact hnone p hopen
  · rcases within_concat.mp hduring with hduring | ⟨heq, -⟩
    · exact h.sends p t hduring hlabel
    · cases heq

/-- The request that has the lock leaves it. -/
theorem leave (h : SpanInv (some q) control log) :
    SpanInv none control (log ++ [.post q .ended]) := by
  refine ⟨fun p hopen => ?_, fun p r hduring => ?_, fun p t hduring hlabel => ?_⟩
  · rcases open_concat.mp hopen with heq | ⟨hne, hopen⟩
    · cases heq
    · cases h.owner p hopen
      exact absurd rfl hne
  · rcases within_concat.mp hduring with hduring | ⟨heq, -⟩
    · exact h.alone p r hduring
    · cases heq
  · rcases within_concat.mp hduring with hduring | ⟨heq, -⟩
    · exact h.sends p t hduring hlabel
    · cases heq

end SpanInv

end Spans

variable {cfg : Settings} {m m' : Operations} {p : PostId} {post post' : Post}
  {act : OperationAction}

/-! ### The lock -/

/-- The request `p` is in the `async with operation_lock` block, by its stage. -/
def Operations.Inside (m : Operations) (p : PostId) : Prop :=
  ∃ post, m.posts p = some post ∧ post.stage.isInside

/-- The invariant of the lock: it is that of the request inside, and free if there is none. -/
def Operations.LockInv (m : Operations) : Prop :=
  ∀ p, m.operationLock = some p ↔ m.Inside p

theorem inside_iff (hp : m.posts p = some post) : m.Inside p ↔ post.stage.isInside := by
  refine ⟨?_, fun hin => ⟨post, hp, hin⟩⟩
  rintro ⟨post', hp', hin⟩
  rwa [Option.some.inj (hp.symm.trans hp')]

/-- Only one request moves; the others are where they were. -/
theorem posts_of_update {q : PostId} (hposts : m'.posts = Function.update m.posts p (some post'))
    (hq : m'.posts q = some post) : q = p ∧ post = post' ∨ q ≠ p ∧ m.posts q = some post := by
  rw [hposts] at hq
  exact (update_eq_some.mp hq).imp_left fun ⟨hqp, heq⟩ => ⟨hqp, heq.symm⟩

/-- Only the request that moves may come in or leave. -/
theorem inside_update (hposts : m'.posts = Function.update m.posts p (some post')) (q : PostId) :
    m'.Inside q ↔ q = p ∧ post'.stage.isInside ∨ q ≠ p ∧ m.Inside q := by
  rw [Operations.Inside, hposts]
  by_cases hq : q = p
  · subst hq
    rw [Function.update_self]
    simp
  · rw [Function.update_of_ne hq]
    simp [hq, Operations.Inside]

namespace Operations.LockInv

/-- A request moves on where it is, inside or outside. -/
theorem stays (h : m.LockInv) (hlock : m'.operationLock = m.operationLock)
    (hposts : m'.posts = Function.update m.posts p (some post'))
    (hin : m.Inside p ↔ post'.stage.isInside) : m'.LockInv := by
  intro q
  rw [hlock, h q, inside_update hposts, ← hin]
  by_cases hq : q = p
  · subst hq
    simp
  · simp [hq]

/-- A request leaves the block, and the lock is free. -/
theorem leaves (h : m.LockInv) (hlock : m'.operationLock = none)
    (hposts : m'.posts = Function.update m.posts p (some post')) (hin : m.Inside p)
    (hout : ¬ post'.stage.isInside) : m'.LockInv := by
  intro q
  rw [hlock, inside_update hposts]
  refine ⟨nofun, ?_⟩
  rintro (⟨-, hin'⟩ | ⟨hq, hin'⟩)
  · exact absurd hin' hout
  · exact absurd (Option.some.inj (((h q).mpr hin').symm.trans ((h p).mpr hin))) hq

/-- A request takes the lock, which was free. -/
theorem enters (h : m.LockInv) (hfree : m.operationLock = none)
    (hlock : m'.operationLock = some p)
    (hposts : m'.posts = Function.update m.posts p (some post'))
    (hin : post'.stage.isInside) : m'.LockInv := by
  intro q
  rw [hlock, inside_update hposts]
  refine ⟨fun hq => .inl ⟨(Option.some.inj hq).symm, hin⟩, ?_⟩
  rintro (⟨rfl, -⟩ | ⟨-, hin'⟩)
  · rfl
  · cases hfree.symm.trans ((h q).mpr hin')

end Operations.LockInv

/-- A sleeping request is inside. -/
theorem Sleeps.isInside {stage : PostStage} {deadline : ℚ} (h : Sleeps m stage deadline) :
    stage.isInside := by
  cases h <;> trivial

/-- A sleeping request waits for no call. -/
theorem Sleeps.call_eq_none {stage : PostStage} {deadline : ℚ} (h : Sleeps m stage deadline) :
    stage.call = none := by
  cases h <;> rfl

/-- A request that waits for no call has not just sent MC/DC, so it is not in the `fetch` of
that. -/
theorem ne_controlling_of_call {stage : PostStage} (h : stage.call = none) (id : CallId) :
    stage ≠ .controlling id := by
  rintro rfl
  cases h

/-- The request that a call belongs to is one that has been posted. -/
theorem posts_of_caller {id : CallId} (h : m.caller id = some (p, post)) :
    m.callers id = some p ∧ m.posts p = some post := by
  obtain ⟨q, hq, h⟩ := Option.bind_eq_some_iff.mp h
  obtain ⟨post', hpost', h⟩ := Option.map_eq_some_iff.mp h
  cases h
  exact ⟨hq, hpost'⟩

/-- **Every step keeps the lock with the request inside**: it moves where it is, comes in, or
leaves. -/
theorem Operations.LockInv.step (h : m.LockInv) (hs : Operations.Stepped cfg m act m') :
    m'.LockInv := by
  cases hs with
  | posted hp =>
      refine h.stays rfl rfl ⟨?_, False.elim⟩
      rintro ⟨post, hpost, -⟩
      cases hp.symm.trans hpost
  | acquired hp hstage hlock hs => exact h.enters hlock rfl rfl trivial
  | asked hp hsleeps => exact h.stays rfl rfl ⟨fun _ => trivial, fun _ => ⟨_, hp, hsleeps.isInside⟩⟩
  | gaveUp hp hstage =>
      refine h.stays rfl rfl ((inside_iff hp).trans ?_)
      rw [hstage]
      exact Iff.rfl
  | left hp hsleeps =>
      obtain ⟨deadline, hsleeps⟩ := hsleeps
      exact h.leaves rfl rfl ⟨_, hp, hsleeps.isInside⟩ not_false
  | commanded | consumed | wentOn => exact h
  | @controlled _ _ s _ fetched p post _ _ _ _ hcaller hstage =>
      have hin : m.Inside p := ⟨post, (posts_of_caller hcaller).2, by rw [hstage]; trivial⟩
      rcases finishControl_cases (m.withSerial s) p post fetched with heq | ⟨e, heq⟩
      · rw [heq]
        exact h.stays rfl rfl ⟨fun _ => trivial, fun _ => hin⟩
      · rw [heq]
        exact h.leaves rfl rfl hin not_false
  | @verified _ _ s id fetched p post deadline _ _ _ _ hcaller hstage =>
      have hin : m.Inside p := ⟨post, (posts_of_caller hcaller).2, by rw [hstage]; trivial⟩
      rcases finishStatus_cases (m.withSerial s) p post id deadline fetched with
        ⟨status, -, -, heq⟩ | ⟨status, -, -, -, heq⟩ | ⟨e, heq⟩
      · rw [heq]
        exact h.leaves rfl rfl hin not_false
      · rw [heq]
        exact h.stays rfl rfl ⟨fun _ => trivial, fun _ => hin⟩
      · rw [heq]
        exact h.leaves rfl rfl hin not_false

/-! ### The calls of the requests -/

/-- The invariant of the calls: a request waits for a call of its own that is in progress, and
every MC/DC call in progress is that of a request, which knows it. -/
structure Operations.CallInv (m : Operations) : Prop where
  waits : ∀ p post id, m.posts p = some post → post.stage.call = some id →
    m.callers id = some p ∧ ∃ args, m.serial.Pending id args
  controls : ∀ id args, m.serial.Pending id args →
    responseCodes args.message = deadboltControl.label →
    ∃ p post, m.posts p = some post ∧ post.stage = .controlling id
  known : ∀ p post id, m.posts p = some post → post.stage = .controlling id →
    post.control = some id
  unknown : ∀ p post, m.posts p = some post → post.stage = .acquiring → post.control = none

namespace Operations.CallInv

/-- A request moves to where it waits for no call; the others wait on, and no MC/DC call
begins. -/
theorem update (h : m.CallInv) (m' : Operations)
    (hposts : m'.posts = Function.update m.posts p (some post'))
    (hcallers : m'.callers = m.callers) (hcall : post'.stage.call = none)
    (hstage : post'.stage = .acquiring → post'.control = none)
    (hothers : ∀ q post id args, q ≠ p → m.posts q = some post → post.stage.call = some id →
      m.serial.Pending id args → m'.serial.Pending id args)
    (hcontrols : ∀ id args, m'.serial.Pending id args → m.serial.Pending id args ∧
      ∀ post, m.posts p = some post → post.stage ≠ .controlling id) : m'.CallInv := by
  refine ⟨fun q post id hq hwaits => ?_, fun id args hpending hlabel => ?_,
    fun q post id hq hq' => ?_, fun q post hq hq' => ?_⟩
  · rcases posts_of_update hposts hq with ⟨-, rfl⟩ | ⟨hqp, hq⟩
    · cases hcall.symm.trans hwaits
    · obtain ⟨hcaller, args, hpending⟩ := h.waits q post id hq hwaits
      exact ⟨hcallers ▸ hcaller, args, hothers q post id args hqp hq hwaits hpending⟩
  · obtain ⟨hpending, hp⟩ := hcontrols id args hpending
    obtain ⟨q, post, hq, hstage⟩ := h.controls id args hpending hlabel
    have hqp : q ≠ p := by
      rintro rfl
      exact hp post hq hstage
    exact ⟨q, post, hposts ▸ (Function.update_of_ne hqp ..).trans hq, hstage⟩
  · rcases posts_of_update hposts hq with ⟨-, rfl⟩ | ⟨-, hq⟩
    · rw [hq'] at hcall
      cases hcall
    · exact h.known q post id hq hq'
  · rcases posts_of_update hposts hq with ⟨-, rfl⟩ | ⟨-, hq⟩
    · exact hstage hq'
    · exact h.unknown q post hq hq'

/-- A request sends a command; it knows its call if this is MC/DC. Another command may do the
same. -/
theorem sends (h : m.CallInv) (m' : Operations) {c : Command} {id : CallId}
    (hposts : m'.posts = Function.update m.posts p (some post'))
    (hcallers : m'.callers = Function.update m.callers id (some p))
    (hs : Calls cfg m.serial id c m'.serial) (hcall : post'.stage.call = some id)
    (hold : ∀ post call, m.posts p = some post → post.stage ≠ .controlling call)
    (hcontrol : c = deadboltControl → post'.stage = .controlling id)
    (hknown : ∀ call, post'.stage = .controlling call → post'.control = some call) :
    m'.CallInv := by
  refine ⟨fun q post call hq hwaits => ?_, fun call args hpending hlabel => ?_,
    fun q post call hq hq' => ?_, fun q post hq hq' => ?_⟩
  · rw [hcallers]
    rcases posts_of_update hposts hq with ⟨rfl, rfl⟩ | ⟨hqp, hq⟩
    · obtain rfl := Option.some.inj (hcall.symm.trans hwaits)
      obtain ⟨args, hpending, -⟩ := hs.pending_self
      exact ⟨Function.update_self .., args, hpending⟩
    · obtain ⟨hcaller, args, hpending⟩ := h.waits q post call hq hwaits
      obtain ⟨hne, hpending⟩ := hs.pending hpending
      exact ⟨(Function.update_of_ne hne ..).trans hcaller, args, hpending⟩
  · rw [hposts]
    rcases pending_of_calls hs hpending with ⟨rfl, hself⟩ | ⟨-, hpending⟩
    · have hc : c = deadboltControl := Command.label_injective (hself.symm.trans hlabel)
      exact ⟨p, post', Function.update_self .., hcontrol hc⟩
    · obtain ⟨q, post, hq, hstage⟩ := h.controls call args hpending hlabel
      have hqp : q ≠ p := by
        rintro rfl
        exact hold post call hq hstage
      exact ⟨q, post, (Function.update_of_ne hqp ..).trans hq, hstage⟩
  · rcases posts_of_update hposts hq with ⟨-, rfl⟩ | ⟨-, hq⟩
    · exact hknown call hq'
    · exact h.known q post call hq hq'
  · rcases posts_of_update hposts hq with ⟨-, rfl⟩ | ⟨-, hq⟩
    · rw [hq'] at hcall
      cases hcall
    · exact h.unknown q post hq hq'

/-- A request goes on when its call has ended. -/
theorem finished (h : m.CallInv) {sact : Action} {s : State} {id : CallId}
    {fetched : Except PyExc Bytes} (hs : IoBoard.Stepped cfg.serial m.serial sact s)
    (hcall : ∀ id args, sact ≠ .call id args) (hothers : ∀ j, j ≠ id → s.calls j = m.serial.calls j)
    (hend : Ends m.serial s id fetched) (hcaller : m.caller id = some (p, post))
    (hwaits : post.stage.call = some id) (hserial : m'.serial = s)
    (hposts : m'.posts = Function.update m.posts p (some post'))
    (hcallers : m'.callers = m.callers) (hnone : post'.stage.call = none)
    (hstage : post'.stage ≠ .acquiring) : m'.CallInv := by
  obtain ⟨hp, hpost⟩ := posts_of_caller hcaller
  refine h.update m' hposts hcallers hnone (fun heq => absurd heq hstage)
    (fun q post j args hqp hq hj hpending => ?_) fun j args hpending => ?_
  · rw [hserial]
    refine (pending_of_stepped hs hcall).mpr ⟨hpending, fun fetched' hend' => ?_⟩
    obtain rfl := eq_of_ends hothers hend'
    exact hqp (Option.some.inj ((h.waits q post j hq hj).1.symm.trans hp))
  · rw [hserial] at hpending
    obtain ⟨hpending, hends⟩ := (pending_of_stepped hs hcall).mp hpending
    refine ⟨hpending, fun post' hp' heq => ?_⟩
    rw [Option.some.inj (hpost.symm.trans hp'), heq] at hwaits
    obtain rfl : j = id := Option.some.inj hwaits
    exact hends fetched hend

/-- **Every step keeps the calls with their requests.** -/
theorem step (h : m.CallInv) (hs : Operations.Stepped cfg m act m') : m'.CallInv := by
  have unmoved {p : PostId} {post : Post} (hp : m.posts p = some post)
      (hnone : post.stage.call = none) (id : CallId) (post' : Post) (hp' : m.posts p = some post') :
      post'.stage ≠ .controlling id := by
    rw [← Option.some.inj (hp.symm.trans hp')]
    exact ne_controlling_of_call hnone id
  cases hs with
  | @posted p action hp =>
      refine h.update (m.setPost p { action := action } .acquiring) rfl rfl rfl
        (fun _ => rfl) (fun _ _ _ _ _ _ _ hpending => hpending) fun id args hpending => ?_
      exact ⟨hpending, fun post hpost => by cases hp.symm.trans hpost⟩
  | @acquired p post id now s hp hstage hlock hs =>
      refine h.sends (m.controlling p post id now s) rfl rfl hs rfl (fun post' call hp' => ?_)
        (fun _ => rfl) (fun call hcall => congrArg some (PostStage.controlling.inj hcall))
      exact unmoved hp (by rw [hstage]; rfl) call post' hp'
  | @asked p post id deadline s hp hsleeps hs =>
      refine h.sends (m.verifying p post id deadline s) rfl rfl hs rfl
        (fun post' call hp' => ?_) (fun hc => by cases hc) (fun call hcall => by cases hcall)
      exact unmoved hp hsleeps.call_eq_none call post' hp'
  | @gaveUp p post hp hstage =>
      refine h.update (m.setPost p post (.failed .cancelledError)) rfl rfl rfl
        (fun hacquiring => by cases hacquiring) (fun _ _ _ _ _ _ _ hpending => hpending)
        fun id args hpending => ?_
      exact ⟨hpending, unmoved hp (by rw [hstage]; rfl) id⟩
  | @left p post hp hsleeps =>
      obtain ⟨deadline, hsleeps⟩ := hsleeps
      refine h.update (m.leave p post (.failed .cancelledError)) rfl rfl rfl
        (fun hacquiring => by cases hacquiring) (fun _ _ _ _ _ _ _ hpending => hpending)
        fun id args hpending => ?_
      exact ⟨hpending, unmoved hp hsleeps.call_eq_none id⟩
  | commanded hc hs =>
      refine ⟨fun q post j hq hwaits => ?_, fun j args hpending hlabel => ?_, h.known, h.unknown⟩
      · obtain ⟨hcaller, args, hpending⟩ := h.waits q post j hq hwaits
        exact ⟨hcaller, args, (hs.pending hpending).2⟩
      · rcases pending_of_calls hs hpending with ⟨-, hself⟩ | ⟨-, hpending⟩
        · exact absurd (Command.label_injective (hself.symm.trans hlabel)) hc
        · exact h.controls j args hpending hlabel
  | consumed => exact ⟨h.waits, h.controls, h.known, h.unknown⟩
  | wentOn hs hcall hend =>
      refine ⟨fun q post j hq hwaits => ?_, fun j args hpending hlabel => ?_, h.known, h.unknown⟩
      · obtain ⟨hcaller, args, hpending⟩ := h.waits q post j hq hwaits
        refine ⟨hcaller, args, (pending_of_stepped hs hcall).mpr
          ⟨hpending, fun fetched hends => ?_⟩⟩
        have hq' : m.posts q = some post := hq
        refine hend j fetched q post hends ?_ hwaits
        rw [Operations.caller, hcaller, Option.bind_some, hq', Option.map_some]
      · exact h.controls j args ((pending_of_stepped hs hcall).mp hpending).1 hlabel
  | @controlled _ _ s id fetched p post hs hcall hothers hend hcaller hstage =>
      have hwaits : post.stage.call = some id := by rw [hstage]; rfl
      rcases finishControl_cases (m.withSerial s) p post fetched with heq | ⟨e, heq⟩
      · rw [heq]
        exact h.finished hs hcall hothers hend hcaller hwaits rfl rfl rfl rfl nofun
      · rw [heq]
        exact h.finished hs hcall hothers hend hcaller hwaits rfl rfl rfl rfl nofun
  | @verified _ _ s id fetched p post deadline hs hcall hothers hend hcaller hstage =>
      have hwaits : post.stage.call = some id := by rw [hstage]; rfl
      rcases finishStatus_cases (m.withSerial s) p post id deadline fetched with
        ⟨status, -, -, heq⟩ | ⟨status, -, -, -, heq⟩ | ⟨e, heq⟩
      · rw [heq]
        exact h.finished hs hcall hothers hend hcaller hwaits rfl rfl rfl rfl nofun
      · rw [heq]
        exact h.finished hs hcall hothers hend hcaller hwaits rfl rfl rfl rfl nofun
      · rw [heq]
        exact h.finished hs hcall hothers hend hcaller hwaits rfl rfl rfl rfl nofun

end Operations.CallInv

/-! ### The log -/

/-- The MC/DC call of a request, once it has sent it. It is kept until the request ends, and
after. -/
def Operations.controlCall (m : Operations) (p : PostId) : Option CallId :=
  (m.posts p).bind Post.control

/-- The invariant of the log, with the lock and the MC/DC calls as they are. -/
def Operations.LogInv (m : Operations) : Prop :=
  SpanInv m.operationLock m.controlCall m.log

/-- A request that moves keeps its MC/DC call. -/
theorem controlCall_of_update (hposts : m'.posts = Function.update m.posts p (some post'))
    (hcontrol : ∀ post, m.posts p = some post → post.control = none ∨ post.control = post'.control)
    (q : PostId) (c : CallId) (hc : m.controlCall q = some c) : m'.controlCall q = some c := by
  obtain ⟨post, hq, hc⟩ := Option.bind_eq_some_iff.mp hc
  rw [Operations.controlCall, hposts]
  by_cases hqp : q = p
  · subst hqp
    rw [Function.update_self, Option.bind_some]
    rcases hcontrol post hq with hnone | heq
    · cases hnone.symm.trans hc
    · rw [← heq, hc]
  · rw [Function.update_of_ne hqp, hq, Option.bind_some, hc]

/-- The serial layer sends MC/DC for the request that has the lock only. -/
theorem Operations.LogInv.withSerial (h : m.LogInv) (hlock : m.LockInv) (hcalls : m.CallInv)
    {sact : Action} {s : State} (hs : IoBoard.Stepped cfg.serial m.serial sact s) :
    (m.withSerial s).LogInv := by
  obtain ⟨more, hmore⟩ := hs.log_append
  have hlog : (m.withSerial s).log = m.log ++ more.map .serial := by
    rw [Operations.withSerial, hmore, List.drop_left]
  rw [Operations.LogInv, hlog]
  refine SpanInv.serial h fun t ht hlabel p hp => ?_
  obtain ⟨c, hc, hnone, hmessage⟩ := call_of_transmitted hs hmore ht
  rw [Tx.label, hmessage] at hlabel
  obtain ⟨q, post, hq, hstage⟩ := hcalls.controls t.call c.args ⟨c.stage, hc, hnone⟩ hlabel
  have hin : m.Inside q := ⟨post, hq, by rw [hstage]; trivial⟩
  obtain rfl : p = q := Option.some.inj (hp.symm.trans ((hlock q).mpr hin))
  change (m.posts p).bind Post.control = _
  rw [hq, Option.bind_some, hcalls.known p post _ hq hstage]

/-- **Every step keeps the deadbolt operations apart in the log**, given the invariants of the
lock and the calls. -/
theorem Operations.LogInv.step (h : m.LogInv) (hlock : m.LockInv) (hcalls : m.CallInv)
    (hs : Operations.Stepped cfg m act m') : m'.LogInv := by
  -- a request that moves on in the state `n`, where its MC/DC call stays the same
  have kept {n : Operations} {p : PostId} {post : Post} (hp : n.posts p = some post)
      (stage : PostStage) (q : PostId) (c : CallId) (hc : n.controlCall q = some c) :
      (n.setPost p post stage).controlCall q = some c := by
    refine controlCall_of_update (p := p) rfl (fun post' hp' => .inr ?_) q c hc
    rw [Option.some.inj (hp.symm.trans hp')]
  have left {n : Operations} {p : PostId} {post : Post} (hn : n.LogInv)
      (hp : n.posts p = some post) (hl : n.operationLock = some p) (stage : PostStage) :
      (n.leave p post stage).LogInv := by
    rw [Operations.LogInv, hl] at hn
    exact hn.leave.mono (kept hp stage)
  have locked {p : PostId} {post : Post} (hp : m.posts p = some post) (hin : post.stage.isInside) :
      m.operationLock = some p := (hlock p).mpr ⟨post, hp, hin⟩
  cases hs with
  | @posted p action hp =>
      refine SpanInv.mono h (controlCall_of_update (p := p) rfl fun post hpost => ?_)
      cases hp.symm.trans hpost
  | @acquired p post id now s hp hstage hfree hs =>
      rw [Operations.LogInv, hfree] at h
      have hrecord := (h.service (.controlled post.action now)).record (q := p)
      rw [List.append_assoc] at hrecord
      refine hrecord.mono (controlCall_of_update (p := p) rfl fun post' hpost => .inl ?_)
      rw [← Option.some.inj (hp.symm.trans hpost)]
      exact hcalls.unknown p post hp hstage
  | asked hp hsleeps => exact (h.note (by nofun)).mono (kept hp _)
  | gaveUp hp hstage => exact SpanInv.mono h (kept hp _)
  | left hp hsleeps =>
      obtain ⟨deadline, hsleeps⟩ := hsleeps
      exact left h hp (locked hp hsleeps.isInside) _
  | commanded => exact h
  | consumed => exact SpanInv.service h _
  | wentOn hs => exact h.withSerial hlock hcalls hs
  | @controlled _ _ s id fetched p post hs hcall hothers hend hcaller hstage =>
      have hn := h.withSerial hlock hcalls hs
      have hp := (posts_of_caller hcaller).2
      rcases finishControl_cases (m.withSerial s) p post fetched with heq | ⟨e, heq⟩
      · rw [heq]
        exact (hn.note (by nofun)).mono (kept hp _)
      · rw [heq]
        exact left hn hp (locked hp (by rw [hstage]; trivial)) _
  | @verified _ _ s id fetched p post deadline hs hcall hothers hend hcaller hstage =>
      have hn := h.withSerial hlock hcalls hs
      have hp := (posts_of_caller hcaller).2
      have hl : m.operationLock = some p := locked hp (by rw [hstage]; trivial)
      rcases finishStatus_cases (m.withSerial s) p post id deadline fetched with
        ⟨status, -, -, heq⟩ | ⟨status, -, -, -, heq⟩ | ⟨e, heq⟩
      · have hread : ((m.withSerial s).note p (.read id status s.clock)).LogInv :=
          hn.note (by nofun)
        rw [heq]
        exact left hread hp hl _
      · rw [heq]
        exact (hn.note (by nofun)).mono (kept hp _)
      · rw [heq]
        exact left hn hp hl _

end IoBoard
