import Msgbox.Spec.Steps

/-!
# What `reply_id` and `reply_context` hold

A conn has one `reply_id` and one `reply_context`, which are written when headers and
messages are read and when gets time out, and read much later, in callbacks. Here they are
computed from the history of the process alone.

## Key results

- `lastReplyId`, `lastContext`: the two fields as functions of the history
- `reach_follows`: in every reachable state the fields of every conn follow the history
-/

namespace Msgbox

/-- What the history, newest first, leaves in `conn->reply_id`: the id of the last header
    that was read, unless a one-way message or the reply to a get was completed since. -/
def lastReplyId : List Obs → ConnId → UInt16
  | [], _ => 0
  | .opened c' :: t, c => if c' = c then 0 else lastReplyId t c
  | .header c' h :: t, c => if c' = c then h.replyId else lastReplyId t c
  | .oneWay c' :: t, c => if c' = c then 0 else lastReplyId t c
  | .queued ⟨c', _, _, _, .frame _ _ h _ (some _)⟩ :: t, c =>
    if c' = c ∧ h.kind = .reply then 0 else lastReplyId t c
  | _ :: t, c => lastReplyId t c

/-- What the history leaves in `conn->reply_context`: the context that came with the last
    message that was completed or get that timed out, or what the last callback was given. -/
def lastContext : List Obs → ConnId → Ptr
  | [], _ => null
  | .opened c' :: t, c => if c' = c then null else lastContext t c
  | .queued ⟨c', _, _, _, .frame _ _ _ _ (some context)⟩ :: t, c =>
    if c' = c then context else lastContext t c
  | .queued ⟨c', _, _, _, .timeout _ _ context⟩ :: t, c =>
    if c' = c then context else lastContext t c
  | .called k ⟨c', _, _, _, _⟩ :: t, c => if c' = c then k.replyContext else lastContext t c
  | _ :: t, c => lastContext t c

/-- The two fields of every conn are what the history says. -/
structure Follows (s : State) : Prop where
  replyId : ∀ c, (s.conn c).replyId = lastReplyId s.trace c
  replyContext : ∀ c, (s.conn c).replyContext = lastContext s.trace c

/-- Causes of calls that leave both fields alone. -/
def Cause.neutral : Cause → Bool
  | .frame _ _ _ _ (some _) => false
  | .timeout _ _ _ => false
  | _ => true

/-- Observations that leave both fields alone. -/
def Obs.neutral : Obs → Bool
  | .opened _ => false
  | .header _ _ => false
  | .oneWay _ => false
  | .queued call => call.cause.neutral
  | .called _ _ => false
  | _ => true

/-- Neutral observations leave the last reply id. -/
private theorem lastReplyId_neutral {o : Obs} (h : o.neutral = true) (t : List Obs) (c : ConnId) :
    lastReplyId (o :: t) c = lastReplyId t c := by
  cases o with
  | queued call =>
    obtain ⟨c', event, data, toFree, cause⟩ := call
    cases cause with
    | frame a sid hd payload context =>
      cases context with
      | none => rfl
      | some ctx => exact nomatch h
    | _ => rfl
  | opened c' => exact nomatch h
  | header c' hd => exact nomatch h
  | oneWay c' => exact nomatch h
  | _ => rfl

/-- They leave the last context too. -/
private theorem lastContext_neutral {o : Obs} (h : o.neutral = true) (t : List Obs) (c : ConnId) :
    lastContext (o :: t) c = lastContext t c := by
  cases o with
  | queued call =>
    obtain ⟨c', event, data, toFree, cause⟩ := call
    cases cause with
    | frame a sid hd payload context =>
      cases context with
      | none => rfl
      | some ctx => exact nomatch h
    | timeout sid id ctx => exact nomatch h
    | _ => rfl
  | opened c' => exact nomatch h
  | called k call => exact nomatch h
  | _ => rfl

namespace State

variable {s : State}

/-! ## Elementary updates -/

/-- An update that keeps both fields of every conn, and records neutral observations. -/
private theorem follows_of_eq {s' : State} (h : Follows s)
    (hid : ∀ c, (s'.conn c).replyId = (s.conn c).replyId)
    (hctx : ∀ c, (s'.conn c).replyContext = (s.conn c).replyContext)
    (htrace : s'.trace = s.trace) : Follows s' :=
  ⟨fun c => by rw [hid, htrace, h.replyId], fun c => by rw [hctx, htrace, h.replyContext]⟩

/-- A neutral observation keeps the fields in step with what was observed. -/
private theorem follows_log (h : Follows s) {o : Obs} (ho : o.neutral = true) : Follows (s.log o) :=
  ⟨fun c => by rw [log_trace, lastReplyId_neutral ho]; exact h.replyId c,
    fun c => by rw [log_trace, lastContext_neutral ho]; exact h.replyContext c⟩

/-- So does queueing a call that no frame caused. -/
private theorem follows_sendCallback (h : Follows s) {cause : Cause} (hc : cause.neutral = true)
    (c : ConnId) (event : Event) (data : Option MsgData) (toFree : ToFree) :
    Follows (s.sendCallback c event data toFree cause) := by
  have hlog := follows_log (o := .queued ⟨c, event, data, toFree, cause⟩) h hc
  exact ⟨hlog.replyId, hlog.replyContext⟩

/-- So does a write to a conn that keeps both fields. -/
private theorem follows_modifyConn (h : Follows s) (c : ConnId) {f : Conn → Conn}
    (hid : (f (s.conn c)).replyId = (s.conn c).replyId)
    (hctx : (f (s.conn c)).replyContext = (s.conn c).replyContext) :
    Follows (s.modifyConn c f) := by
  refine follows_of_eq h ?_ ?_ rfl
  · intro c'
    by_cases hc : c' = c
    · subst hc
      simp [hid]
    · simp [Function.update_of_ne hc]
  · intro c'
    by_cases hc : c' = c
    · subst hc
      simp [hctx]
    · simp [Function.update_of_ne hc]

/-! ## One effect -/

/-- The id of a conn is written and that is recorded. -/
private theorem follows_writeId (h : Follows s) {c : ConnId} {id : UInt16} {o : Obs}
    (hid : ∀ t c', lastReplyId (o :: t) c' = if c = c' then id else lastReplyId t c')
    (hctx : ∀ t c', lastContext (o :: t) c' = lastContext t c') :
    Follows ((s.modifyConn c fun conn => { conn with replyId := id }).log o) := by
  refine ⟨fun c' => ?_, fun c' => ?_⟩
  · rw [log_trace, hid, log_conn, modifyConn_conn, modifyConn_trace, Function.update_apply]
    by_cases hc : c' = c
    · rw [if_pos hc, if_pos hc.symm]
    · rw [if_neg hc, if_neg (Ne.symm hc), h.replyId]
  · rw [log_trace, hctx, log_conn, modifyConn_conn, modifyConn_trace, Function.update_apply,
      ← h.replyContext]
    by_cases hc : c' = c
    · rw [if_pos hc, hc]
    · rw [if_neg hc]

/-- So does a new conn, which has neither an id nor a context. -/
private theorem follows_allocConn (h : Follows s) {k : Conn} (hid : k.replyId = 0)
    (hctx : k.replyContext = null) : Follows (s.allocConn k) := by
  refine ⟨fun c => ?_, fun c => ?_⟩
  · by_cases hc : s.nextConn = c
    · subst hc
      simp [lastReplyId, hid]
    · simp [lastReplyId, hc, Function.update_of_ne (Ne.symm hc), h.replyId]
  · by_cases hc : s.nextConn = c
    · subst hc
      simp [lastContext, hctx]
    · simp [lastContext, hc, Function.update_of_ne (Ne.symm hc), h.replyContext]

/-- So does a removal pass, which writes indices only. -/
private theorem follows_removalPass (h : Follows s) : Follows s.removalPass := by
  obtain ⟨index, heq⟩ := removalPass_eq s
  rw [heq]
  exact ⟨h.replyId, h.replyContext⟩

/-- A call loads the fields that its cause says. -/
private theorem follows_makeCall (h : Follows s) (call : PendingCall) (rest : List PendingCall)
    (junk : Junk) : Follows (s.makeCall call rest junk) := by
  rw [makeCall_eq]
  refine ⟨fun c => ?_, fun c => ?_⟩
  · simp only [lastReplyId, Function.update_apply, ← h.replyId]
    by_cases hc : c = call.conn
    · rw [if_pos hc, (loaded_fields s call junk).1, hc]
    · rw [if_neg hc]
  · simp only [lastContext, Function.update_apply, ← h.replyContext]
    by_cases hc : c = call.conn
    · rw [if_pos hc, if_pos hc.symm]
    · rw [if_neg hc, if_neg (Ne.symm hc)]

/-- Early effects keep the fields in step. -/
private theorem follows_early {s₀ s' : State} {i : Input} (h : Follows s)
    (heffect : Early s₀ i s s') :
    Follows s' := by
  cases heffect with
  | kernel | leak | close | poll => exact ⟨h.replyId, h.replyContext⟩
  | note o ho =>
    apply follows_log h
    cases o <;> first | rfl | exact nomatch ho
  | header hd => exact follows_writeId h (fun _ _ => rfl) (fun _ _ => rfl)
  | buffer => exact ⟨h.replyId, h.replyContext⟩
  | @ready c =>
    have hadd : Follows (s.addStatus c) := ⟨h.replyId, h.replyContext⟩
    exact follows_sendCallback hadd rfl _ _ _ _
  | error => exact follows_sendCallback h rfl _ _ _ _
  | unflag => exact follows_modifyConn h _ rfl rfl

/-- A message that is handed over gives the conn its context. -/
private theorem follows_frame (h : Follows s) {c : ConnId} (call : PendingCall) (k : Conn)
    {status : StatusId → ConnStatus} {timeouts : List Timeout} {a : Address} {sid : StatusId}
    {hd : Header} {payload : List (Option UInt8)} {context : Ptr} (hcall : call.conn = c)
    (hcause : call.cause = .frame a sid hd payload (some context))
    (hid : k.replyId = if hd.kind = .reply then 0 else (s.conn c).replyId)
    (hctx : k.replyContext = context) {callbacks : List PendingCall} :
    Follows { s with
      conn := Function.update s.conn c k
      status := status
      timeouts := timeouts
      immediateCallbacks := callbacks
      trace := .queued call :: s.trace } := by
  obtain ⟨c', event, data, toFree, cause⟩ := call
  dsimp only at hcall hcause
  subst hcall hcause
  refine ⟨fun c => ?_, fun c => ?_⟩
  · by_cases hc : c' = c
    · subst hc
      simp [lastReplyId, hid, h.replyId]
    · simp [lastReplyId, hc, Function.update_of_ne (Ne.symm hc), h.replyId]
  · by_cases hc : c' = c
    · subst hc
      simp [lastContext, hctx]
    · simp [lastContext, hc, Function.update_of_ne (Ne.symm hc), h.replyContext]

/-- So does every effect. -/
theorem follows_effect {s₀ s' : State} {i : Input} (h : Follows s) (heffect : Effect s₀ i s s') :
    Follows s' := by
  cases heffect with
  | early hearly => exact follows_early h hearly
  | oneWay => exact follows_writeId h (fun _ _ => rfl) (fun _ _ => rfl)
  | @datagram c r d =>
    have hlog := follows_log (s := s.consume c d.bytes.length)
      (o := .datagram c ⟨d.ip, d.port, .udp⟩ d.bytes) ⟨h.replyId, h.replyContext⟩ rfl
    exact follows_modifyConn hlog c rfl rfl
  | opened k _ _ _ _ _ _ hid hctx =>
    have halloc := follows_allocConn h hid hctx
    exact ⟨halloc.replyId, halloc.replyContext⟩
  | listening => exact follows_sendCallback h rfl _ _ _ _
  | context => exact follows_modifyConn h _ rfl rfl
  | address => exact follows_modifyConn h _ rfl rfl
  | @get c payload context now w sid =>
    have hgot := follows_log (s := s.enterGet sid context)
      (o := .got c sid (s.status sid).nextReplyId context true) ⟨h.replyId, h.replyContext⟩ rfl
    exact ⟨hgot.replyId, hgot.replyContext⟩
  | @failedGet c payload context now w sid =>
    exact follows_log (s := s.enterGet sid context) ⟨h.replyId, h.replyContext⟩ rfl
  -- The pass sets the context of the timeout's conn only.
  | @expire now t rest context data =>
    refine ⟨fun c => ?_, fun c => ?_⟩
    · by_cases hc : t.conn = c
      · subst hc
        simp [lastReplyId, h.replyId]
      · simp [lastReplyId, Function.update_of_ne (Ne.symm hc), h.replyId]
    · by_cases hc : t.conn = c
      · subst hc
        simp [lastContext]
      · simp [lastContext, hc, Function.update_of_ne (Ne.symm hc), h.replyContext]
  | swap => exact ⟨h.replyId, h.replyContext⟩
  | phase => exact ⟨h.replyId, h.replyContext⟩
  | removal => exact follows_removalPass h
  | call => exact follows_makeCall h _ _ _
  | finish =>
    rw [finishCall_eq]
    exact ⟨h.replyId, h.replyContext⟩

/-- So does the last effect of a step. -/
theorem follows_final {s₀ s' : State} {i : Input} (h : Follows s)
    (hfinal : Final s₀ i s s') : Follows s' := by
  cases hfinal with
  | @handled c r event m _ _ hkind =>
    exact follows_frame h ⟨c, event, some m.data, .nothing, .frame (s.conn c).remoteAddress m.status
      m.header m.data.bytes (some null)⟩ { s.conn c with replyContext := null } rfl rfl
        (by rw [if_neg hkind]) rfl
  | @matched c r event m context data _ _ hkind =>
    exact follows_frame h ⟨c, event, some data, .nothing, .frame (s.conn c).remoteAddress m.status
      m.header m.data.bytes (some context)⟩ { s.conn c with replyContext := context, replyId := 0 }
        rfl rfl (by rw [if_pos hkind]) rfl
  | @unmatched c r m =>
    have hlog := follows_log (o := .queued ⟨c, .error, some (msgNewData "Unrecognized reply_id"),
      .data, .frame (s.conn c).remoteAddress m.status m.header m.data.bytes none⟩) h rfl
    exact ⟨hlog.replyId, hlog.replyContext⟩
  | @drop c event ph =>
    have hlog := follows_log (o := .queued (s.closingCall c event)) h rfl
    exact ⟨by simpa using hlog.replyId, by simpa using hlog.replyContext⟩
  | @refuse c index soError msg =>
    have hlog :=
      follows_log (o := .queued ⟨c, .error, some (msgNewData msg), .conn c, .other⟩) h rfl
    exact ⟨hlog.replyId, hlog.replyContext⟩
  | fail k msg _ _ hid hctx =>
    exact follows_sendCallback (follows_allocConn h hid hctx) rfl _ _ _ _

end State

/-- In every reachable state the fields of every conn follow the history. -/
theorem reach_follows {ok : State → Input → Prop} {s : State} (h : machine.Reach ok s) :
    Follows s := by
  refine reach_invariant Follows ⟨fun _ => rfl, fun _ => rfl⟩ ?_ ?_ h
  · intro s₀ s s' i _ _ _ hinv heffect
    exact State.follows_effect hinv heffect
  · intro s₀ s s' i _ _ _ hinv hfinal
    exact State.follows_final hinv hfinal

end Msgbox
