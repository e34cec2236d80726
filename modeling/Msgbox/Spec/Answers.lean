import Msgbox.Spec.Peers
import Msgbox.Spec.Received
import Msgbox.Spec.ReplyContext

/-!
# Replies answer their gets

Two processes over a tcp connection again. The one calls `msg_get` and is handed replies, the other
is handed requests and calls `msg_send` in their callbacks. Both may do other things in between,
have any number of gets under way, and answer them in any order or not at all. Then the reply to a
get, found by its context, is what the callback for this very get's data has sent.

## Key results

- `State.handling`: the request whose callback is running
- `Settled`: the gets of a conn and its messages had one status
- `replies_answer`: a reply comes from the callback for its own get
-/

namespace Msgbox

open State

/-! ## Conditions -/

/-- The data of the request whose callback is running, if it is one to the conn, with the id that
    `msg_send` would put in the header. -/
def State.handling (s : State) (c : ConnId) : Option (List (Option UInt8)) :=
  match s.stack with
  | f :: _ =>
    match f.call.cause with
    -- Only frames that were queued with a context were handed over, not refused.
    | .frame a _ h payload (some _) =>
      if f.call.conn = c ∧ a.protocolType = .tcp ∧ h.kind = .request ∧
          h.replyId = (s.conn c).replyId then some payload
      else none
    | _ => none
  | [] => none

/-- A reply is sent only in the callback for a request, while `reply_id` is the id of this
    request. -/
def repliesInTurn (c : ConnId) (s : State) : Input → Bool
  | .app (.send c' _ _) =>
    decide (c' ≠ c) || (s.conn c).replyId == 0 || (s.handling c).isSome
  | _ => true

/-- The conn, once it is there, is a tcp conn, and no conn with its address is dropped. -/
def keepsStatus (c : ConnId) (s : State) (i : Input) : Bool :=
  decide (s.nextConn ≤ c) || decide ((s.conn c).protocolType = .tcp) &&
    (i.dropTarget s).all fun c' => decide ((s.conn c').remoteAddress ≠ (s.conn c).remoteAddress)

/-- The steps of the two processes: nothing is written behind a part of a frame, and messages in
    progress on other conns are left alone; the one that calls `msg_get` gives no id twice and keeps
    the status of its conn; the other one replies in turn. -/
def answers (ends : Bool → ConnId) (client b : Bool) (s : State) (i : Input) : Bool :=
  keepsFraming s i && undisturbed s i &&
    if b = client then noWrap s i && keepsStatus (ends b) s i else repliesInTurn (ends b) s i

/-! ## The status of a conn -/

/-- The conn is a tcp conn whose address has the given status. -/
def State.HasStatus (s : State) (c : ConnId) (sid : StatusId) : Prop :=
  c < s.nextConn ∧ (s.conn c).protocolType = .tcp ∧ s.statusOfConn c = some sid

/-- The gets of the conn, and the messages that were queued for it, had the status that its address
    has now. -/
structure Settled (c : ConnId) (s : State) : Prop where
  got : ∀ sid id context sent, Obs.got c sid id context sent ∈ s.trace → s.HasStatus c sid
  queued : ∀ p, Obs.queued p ∈ s.trace → p.conn = c → ∀ a sid h payload context,
    p.cause = .frame a sid h payload context → a.protocolType = .tcp ∧ s.HasStatus c sid

namespace State

variable {s₀ s s' : State} {i : Input} {c : ConnId} {sid : StatusId}

/-- A conn keeps its status where its entry stays. -/
theorem HasStatus.keep (h : s.HasStatus c sid) (hnext : s.nextConn ≤ s'.nextConn)
    (htcp : KeepsTcp s s') (hlookup : s.connStatus.lookup (s.conn c).remoteAddress = some sid →
      s'.connStatus.lookup (s.conn c).remoteAddress = some sid) : s'.HasStatus c sid := by
  obtain ⟨hlt, hproto, hsid⟩ := h
  have haddr := htcp c hlt hproto
  refine ⟨hlt.trans_le hnext, ?_, ?_⟩
  · rw [Conn.protocolType, haddr]
    exact hproto
  · rw [statusOfConn, haddr]
    exact hlookup hsid

/-- Effects before the end of a step only add statuses. -/
private theorem lookup_effect (heffect : Effect s₀ i s s') {a : Address}
    (h : s.connStatus.lookup a = some sid) : s'.connStatus.lookup a = some sid := by
  cases heffect with
  | early hearly =>
    cases hearly with
    | @ready c' _ _ hnew =>
      -- `remote_address_seen` only sets the status of an address that has none.
      have hne : a ≠ (s.conn c').remoteAddress := by
        rintro rfl
        exact absurd (h.symm.trans hnew) (Option.some_ne_none sid)
      exact (AList.lookup_insert_ne hne).trans h
    | _ => exact h
  | removal =>
    obtain ⟨index, heq⟩ := removalPass_eq s
    rw [heq]
    exact h
  | call =>
    rw [makeCall_eq]
    exact h
  | finish =>
    rw [finishCall_eq]
    exact h
  | _ => exact h

/-- What a new observation says, if it is a get or a queued call. -/
def Tells (s₀ s : State) (c : ConnId) : Obs → Prop
  | .got c' sid _ _ _ => c' = c → c < s₀.nextConn ∧ s.statusOfConn c = some sid
  | .queued p => p.conn = c → ∀ a sid h payload context, p.cause = .frame a sid h payload context →
      c < s₀.nextConn ∧ a = (s.conn c).remoteAddress ∧ s.statusOfConn c = some sid
  | _ => True

/-- A note tells of no frame. -/
private theorem tells_of_isNote {o : Obs} (h : o.isNote = true) : Tells s₀ s c o := by
  cases o with
  | got | queued => exact Bool.noConfusion h
  | _ => trivial

/-- Neither does a call that no frame caused. -/
theorem tells_queued {p : PendingCall}
    (h : ∀ a sid hd payload context, p.cause ≠ .frame a sid hd payload context) :
    Tells s₀ s c (.queued p) :=
  fun _ a sid hd payload context hcause => absurd hcause (h a sid hd payload context)

/-- One thing is observed. -/
private theorem tells_cons {o o' : Obs} (htells : Tells s₀ s c o') (hmem : o ∈ o' :: s.trace) :
    o ∈ s.trace ∨ Tells s₀ s c o := by
  rcases List.mem_cons.mp hmem with rfl | hold
  · exact .inr htells
  · exact .inl hold

/-- A call of the caller is about a conn that was made. -/
private theorem lt_of_calls {call : AppCall} (hcalls : i.Calls s₀ call) {c' : ConnId}
    (hlive : s₀.admits call = s₀.isLive c') (hc : c' = c) : c < s₀.nextConn := by
  subst hc
  have hadmits := hcalls.admits
  rw [hlive] at hadmits
  simp only [isLive, Bool.and_eq_true, decide_eq_true_eq] at hadmits
  exact hadmits.1

/-- What an effect observes of frames for `c` has the status of the address of `c`. -/
private theorem tells_effect (heffect : Effect s₀ i s s') {o : Obs} (ho : o ∈ s'.trace) :
    o ∈ s.trace ∨ Tells s₀ s c o := by
  cases heffect with
  | early hearly =>
    cases hearly with
    | note o' hnote => exact tells_cons (tells_of_isNote hnote) ho
    | header => exact tells_cons (by exact trivial) ho
    | ready => exact tells_cons (tells_queued fun _ _ _ _ _ => Cause.noConfusion) ho
    | error => exact tells_cons (tells_queued fun _ _ _ _ _ => Cause.noConfusion) ho
    | _ => exact .inl ho
  | oneWay | datagram | opened => exact tells_cons (by exact trivial) ho
  | listening => exact tells_cons (tells_queued fun _ _ _ _ _ => Cause.noConfusion) ho
  -- The get is made on the status the conn has now.
  | get hcalls _ _ hsid =>
    exact tells_cons (by exact fun hc => ⟨lt_of_calls hcalls (by rfl) hc, hc ▸ hsid⟩) ho
  | failedGet hcalls _ _ hsid =>
    exact tells_cons (by exact fun hc => ⟨lt_of_calls hcalls (by rfl) hc, hc ▸ hsid⟩) ho
  | expire => exact tells_cons (tells_queued fun _ _ _ _ _ => Cause.noConfusion) ho
  | removal =>
    obtain ⟨index, heq⟩ := removalPass_eq s
    rw [heq] at ho
    exact .inl ho
  | call =>
    rw [makeCall_eq] at ho
    exact tells_cons (by exact trivial) ho
  | finish =>
    rw [finishCall_eq] at ho
    exact .inl ho
  | _ => exact .inl ho

/-- So has what the last effect of a step observes. -/
private theorem tells_final (hs₀ : Allocated s₀) (hfinal : Final s₀ i s s') {o : Obs}
    (ho : o ∈ s'.trace) :
    o ∈ s.trace ∨ Tells s₀ s c o := by
  have hframe : ∀ {c' : ConnId} {r : ReadIn} {event : Event} {data : Option MsgData}
      {toFree : ToFree}
      {m : Message} {context : Option Ptr}, i.Reads s₀ c' r → s.statusOfConn c' = some m.status →
      Tells s₀ s c (.queued ⟨c', event, data, toFree,
        .frame (s.conn c').remoteAddress m.status m.header m.data.bytes context⟩) := by
    intro c' r event data toFree m context hreads hstatus hc a sid hd payload context' hcause
    injection hcause with haddr hsid
    have hc : c' = c := hc
    subst hc hsid
    exact ⟨hreads.allocated hs₀, haddr.symm, hstatus⟩
  cases hfinal with
  | handled hreads _ _ hstatus => exact tells_cons (hframe hreads hstatus) ho
  | matched hreads _ _ hstatus => exact tells_cons (hframe hreads hstatus) ho
  | unmatched hreads _ hstatus => exact tells_cons (hframe hreads hstatus) ho
  | @drop c' event =>
    have ho : o ∈ (s.localDisconnect c' event).trace := ho
    rw [localDisconnect_trace] at ho
    exact tells_cons (tells_queued fun _ _ _ _ _ => Cause.noConfusion) ho
  | refuse => exact tells_cons (tells_queued fun _ _ _ _ _ => Cause.noConfusion) ho
  | fail =>
    -- A conn that could not be opened: it is recorded, and its error is queued.
    rcases List.mem_cons.mp ho with rfl | ho
    · exact .inr (tells_queued fun _ _ _ _ _ => Cause.noConfusion)
    · exact tells_cons (by exact trivial) ho

/-- New observations are about the status that the conn has. -/
private theorem settled_of (hok : keepsStatus c s₀ i = true) (hnext : s₀.nextConn ≤ s.nextConn)
    (htcp : KeepsTcp s₀ s) (h : Settled c s)
    (hkeep : ∀ sid, s.HasStatus c sid → s'.HasStatus c sid)
    (htells : ∀ {o}, o ∈ s'.trace → o ∈ s.trace ∨ Tells s₀ s c o) : Settled c s' := by
  have hproto : c < s₀.nextConn → (s.conn c).protocolType = .tcp := by
    intro hlt
    simp only [keepsStatus, Bool.or_eq_true, decide_eq_true_eq, Bool.and_eq_true] at hok
    have hok := (hok.resolve_left (Nat.not_le.mpr hlt)).1
    rw [Conn.protocolType, htcp c hlt hok]
    exact hok
  constructor
  · -- The gets.
    intro sid id context sent hgot
    apply hkeep sid
    rcases htells hgot with hold | hnew
    · exact h.got sid id context sent hold
    · obtain ⟨hlt, hsid⟩ := hnew rfl
      exact ⟨hlt.trans_le hnext, hproto hlt, hsid⟩
  · -- The messages.
    intro p hp hc a sid hd payload context hcause
    rcases htells hp with hold | hnew
    · obtain ⟨ha, hstatus⟩ := h.queued p hold hc a sid hd payload context hcause
      exact ⟨ha, hkeep sid hstatus⟩
    · obtain ⟨hlt, rfl, hsid⟩ := hnew hc a sid hd payload context hcause
      exact ⟨hproto hlt, hkeep sid ⟨hlt.trans_le hnext, hproto hlt, hsid⟩⟩

/-- Early effects make no conns. -/
private theorem earlies_nextConn (h : Relation.ReflTransGen (Early s₀ i) s₀ s) :
    s.nextConn = s₀.nextConn := by
  induction h with
  | refl => rfl
  | tail _ hearly ih => exact (early_nextConn hearly).trans ih

/-- The end of a step drops no conn with the address. -/
private theorem hasStatus_final (hok : keepsStatus c s₀ i = true) (htcp : KeepsTcp s₀ s)
    (hfinal : Final s₀ i s s') (h : s.HasStatus c sid) : s'.HasStatus c sid := by
  refine h.keep (final_nextConn_le hfinal) (keepsTcp_final hfinal) fun hlookup => ?_
  cases hfinal with
  | @drop c' event ph hearly hdrops =>
    show (s.localDisconnect c' event).connStatus.lookup _ = _
    -- A step that drops a conn makes none.
    have hlt : c < s₀.nextConn := earlies_nextConn hearly ▸ h.1
    simp only [keepsStatus, Bool.or_eq_true, decide_eq_true_eq, Bool.and_eq_true] at hok
    obtain ⟨hproto, hother⟩ := hok.resolve_left (Nat.not_le.mpr hlt)
    rw [hdrops.target, Option.all_some, decide_eq_true_eq] at hother
    -- `local_disconnect` deletes the status of another address.
    rw [localDisconnect_connStatus, ← hlookup]
    apply AList.lookup_erase_ne
    rw [htcp c hlt hproto, early_remoteAddress hearly]
    exact hother.symm
  | _ => exact hlookup

end State

/-- In every run that keeps the status of `c`, its gets and messages have the status that its
    address has now. -/
theorem reach_settled {c : ConnId} {s : State}
    (h : machine.Reach (fun s i => keepsStatus c s i = true) s) : Settled c s := by
  refine (reach_sound_invariant (Settled c) ?_ ?_ ?_ h).2
  · exact ⟨fun _ _ _ _ hgot => absurd hgot List.not_mem_nil, fun _ hp => absurd hp List.not_mem_nil⟩
  · intro s₀ s s' i hok _ _ hsteps _ hinv heffect
    obtain ⟨htcp, hnext⟩ := State.keepsTcp_effects hsteps
    apply State.settled_of hok hnext htcp hinv
    · intro sid hstatus
      exact hstatus.keep (State.effect_nextConn_le heffect) (State.keepsTcp_effect heffect)
        (State.lookup_effect heffect)
    · exact State.tells_effect heffect
  · intro s₀ s s' i hok hs₀ _ hsteps _ hinv hfinal
    obtain ⟨htcp, hnext⟩ := State.keepsTcp_effects hsteps
    apply State.settled_of hok hnext htcp hinv
    · intro sid hstatus
      exact State.hasStatus_final hok htcp hfinal hstatus
    · exact State.tells_final hs₀.allocated hfinal

/-! ## Steps of the two processes -/

/-- A reply goes out by `msg_send`. -/
private theorem sending_reply {c : ConnId} {s : State} {i : Input} {m : SentMessage}
    (h : sending c s i = some m) (hreply : m.kind = .reply) :
    (∃ out, i = .app (.send c m.payload out)) ∧ m.replyId = (s.conn c).replyId ∧
      (s.conn c).replyId ≠ 0 := by
  rcases sending_cases h with ⟨out, hi, hid, hkind⟩ | ⟨_, _, _, _, _, _, _, hkind⟩ | ⟨_, _, rfl⟩
  · -- Without a `reply_id` it would be a message.
    refine ⟨⟨out, hi⟩, hid, fun hzero => ?_⟩
    rw [hkind, if_neg fun hne => hne hzero] at hreply
    exact MsgType.noConfusion hreply
  · exact MsgType.noConfusion (hkind.symm.trans hreply)
  · exact MsgType.noConfusion hreply

/-- A request goes out by `msg_get`. -/
private theorem sending_request {c : ConnId} {s : State} {i : Input} {m : SentMessage}
    (h : sending c s i = some m) (hrequest : m.kind = .request) :
    ∃ context now out sid, i = .app (.get c m.payload context now out) ∧
      s.statusOfConn c = some sid ∧ m.replyId = (s.status sid).nextReplyId := by
  rcases sending_cases h with ⟨_, _, _, hkind⟩ | ⟨context, now, out, sid, hi, hsid, hid, -⟩ |
    ⟨_, _, rfl⟩
  · rw [hrequest] at hkind
    split at hkind <;> exact MsgType.noConfusion hkind
  · exact ⟨context, now, out, sid, hi, hsid, hid⟩
  · exact MsgType.noConfusion hrequest

/-- A get is recorded. -/
private theorem got_of_get {run : List (State × Input)} {s s₁ : State} {c : ConnId}
    {payload : List UInt8} {context : Ptr} {now : Nat} {out : SendIn} {sid : StatusId}
    (h : machine.Steps run s) (hget : (s₁, Input.app (.get c payload context now out)) ∈ run)
    (hsid : s₁.statusOfConn c = some sid) :
    ∃ sent, Obs.got c sid (s₁.status sid).nextReplyId context sent ∈ s.trace := by
  induction h with
  | init => exact absurd hget List.not_mem_nil
  | @step run s s' i _ hstep ih =>
    rcases List.mem_cons.mp hget with heq | hold
    · obtain ⟨rfl, rfl⟩ := Prod.mk.inj heq
      obtain ⟨-, hcall⟩ := Option.ite_none_right_eq_some.mp hstep
      obtain rfl := Option.some.inj hcall
      show ∃ sent, _ ∈ (s₁.msgGet c payload context now out).trace
      unfold msgGet
      rw [hsid]
      dsimp only
      -- It is recorded before the error of a send that failed.
      split
      · exact ⟨false, List.mem_cons_of_mem _ List.mem_cons_self⟩
      · exact ⟨true, List.mem_cons_self⟩
    · obtain ⟨sent, hsent⟩ := ih hold
      exact ⟨sent, (State.suffix_step hstep).subset hsent⟩

/-- The request whose callback is running was queued for the conn. -/
private theorem queued_of_handling {s : State} {c : ConnId} {data : List (Option UInt8)}
    (hs : Sound s) (h : s.handling c = some data) : ∃ hd, (hd, data) ∈ tcpMessages s.trace c ∧
      hd.kind = .request ∧ hd.replyId = (s.conn c).replyId := by
  unfold State.handling at h
  split at h
  · rename_i f stack hstack
    split at h
    · rename_i a sid hd payload context hcause
      obtain ⟨⟨hconn, ha, hkind, hid⟩, heq⟩ := Option.ite_none_right_eq_some.mp h
      obtain rfl := Option.some.inj heq
      have hrunning : f.call ∈ s.running := by
        rw [running, hstack]
        exact List.mem_cons_self
      exact ⟨hd, mem_tcpMessages.mpr ⟨f.call, mem_queuedCalls.mp (hs.running _ hrunning), hconn, a,
        sid, some context, ha, hcause⟩, hkind, hid⟩
    · exact absurd h.symm (Option.some_ne_none data)
  · exact absurd h.symm (Option.some_ne_none data)

/-- What was found comes from a step. -/
private theorem transmits_of_mem {c : ConnId} {run : List (State × Input)}
    {x : Header × List (Option UInt8)} (h : x ∈ (withPayload c run).map SentMessage.found) :
    ∃ m y, SentMessage.found m = x ∧ y ∈ run ∧ sending c y.1 y.2 = some m := by
  obtain ⟨m, hm, hfound⟩ := List.mem_map.mp h
  obtain ⟨y, hy, htransmits⟩ := List.mem_filterMap.mp (List.mem_filter.mp hm).1
  exact ⟨m, y, hfound, List.mem_reverse.mp hy, (Option.filter_eq_some_iff.mp htransmits).1⟩

/-! ## Main result -/

/-- A reply that is matched with a context was sent by the peer's callback for a request, and the
    data of this request is what had been passed to `msg_get` together with the same context by
    then: `w₀` is where the two processes were in this run when the reply was sent. This holds
    however the steps of the two processes alternate, whatever else they do, and however many gets
    are under way. -/
theorem replies_answer {ends : Bool → ConnId} {client : Bool} {w : Machine.Pair State Input}
    (h : Machine.Exchange machine (fun b s i => answers ends client b s i = true) (tcpLink ends) w)
    {p : PendingCall} (hqueued : Obs.queued p ∈ (w.now client).trace) (hconn : p.conn = ends client)
    {a : Address} {sid : StatusId} {hd : Header} {payload : List (Option UInt8)} {context : Ptr}
    (hcause : p.cause = .frame a sid hd payload (some context)) (hkind : hd.kind = .reply) :
    p.event = .reply ∧ ∃ (question answer : List UInt8) (w₀ : Machine.Pair State Input) (s : State)
      (now : Nat) (out out' : SendIn),
      p.data.map MsgData.bytes = some (answer.map some) ∧
      Machine.Exchange machine (fun b s i => answers ends client b s i = true) (tcpLink ends) w₀ ∧
      (∀ b, w₀.past b <:+ w.past b) ∧
      (w₀.now !client, Input.app (.send (ends !client) answer out)) :: w₀.past (!client) <:+
        w.past !client ∧
      (w₀.now !client).handling (ends !client) = some (question.map some) ∧
      (s, Input.app (.get (ends client) question context now out')) ∈ w₀.past client := by
  have hboth : ∀ {b s i}, answers ends client b s i = true →
      keepsFraming s i = true ∧ undisturbed s i = true := by
    intro b s i hok
    simp only [answers, Bool.and_eq_true] at hok
    exact hok.1
  have hcaller : ∀ s i, answers ends client client s i = true →
      noWrap s i = true ∧ keepsStatus (ends client) s i = true := by
    intro s i hok
    simpa only [answers, if_pos, Bool.and_eq_true] using (Bool.and_eq_true_iff.mp hok).2
  have hserver : ∀ {s i}, answers ends client (!client) s i = true →
      repliesInTurn (ends !client) s i = true := by
    intro s i hok
    have hne : (!client) ≠ client := Bool.not_ne_self client
    rw [answers, if_neg hne] at hok
    exact (Bool.and_eq_true_iff.mp hok).2
  have hsettled := reach_settled ((h.reach client).mono fun s i hok => (hcaller s i hok).2)
  have hgets := reach_gets ((h.reach client).mono fun s i hok => (hcaller s i hok).1)
  obtain ⟨ha, hstatus⟩ := hsettled.queued p hqueued hconn a sid hd payload _ hcause
  -- The reply was sent by the other process.
  have hreply : (hd, payload) ∈ tcpMessages (w.now client).trace (ends client) :=
    mem_tcpMessages.mpr ⟨p, hqueued, hconn, a, sid, some context, ha, hcause⟩
  obtain ⟨m, y, hfound, hy, hsending⟩ := transmits_of_mem
    ((tcpMessages_peers h (fun s i hok => (hboth hok).1) fun s i hok => (hboth hok).2).subset
      hreply)
  obtain ⟨rfl, rfl⟩ := Prod.mk.inj hfound
  have hm : m.kind = .reply := (kind_code m.kind _ _).symm.trans hkind
  obtain ⟨⟨out, hout⟩, hid, hne⟩ := sending_reply hsending hm
  -- By then the other process had read only what this one had sent.
  obtain ⟨w₀, hw₀, hnow, hcons, hsuffix⟩ := h.before hy
  -- This was in the callback for a request.
  have hturn := hserver (h.meets hy)
  rw [hout, ← hnow] at hturn
  simp only [repliesInTurn, ne_eq, not_true_eq_false, decide_false, Bool.false_or, Bool.or_eq_true,
    beq_iff_eq] at hturn
  obtain ⟨data, hdata⟩ := Option.isSome_iff_exists.mp (hturn.resolve_left (by rw [hnow]; exact hne))
  obtain ⟨hd', hrequest, hkind', hid'⟩ := queued_of_handling (reach_sound (hw₀.reach !client)) hdata
  -- The request was sent by this process.
  have hpeers := tcpMessages_peers (b := !client) hw₀ (fun s i hok => (hboth hok).1)
    fun s i hok => (hboth hok).2
  rw [Bool.not_not] at hpeers
  obtain ⟨m', y', hfound', hy', hsending'⟩ := transmits_of_mem (hpeers.subset hrequest)
  obtain ⟨rfl, rfl⟩ := Prod.mk.inj hfound'
  have hm' : m'.kind = .request := (kind_code m'.kind _ _).symm.trans hkind'
  obtain ⟨context', now, out', sid', hget, hsid', hid''⟩ := sending_request hsending' hm'
  -- The ids are the same, and so are the statuses.
  have hget' : (y'.1, Input.app (.get (ends client) m'.payload context' now out')) ∈
      w₀.past client := by
    rw [← hget]
    exact hy'
  obtain ⟨sent', hgot'⟩ := got_of_get (h.steps client) ((hsuffix client).subset hget') hsid'
  obtain ⟨c, sent, hgot⟩ := hgets.matched p hqueued _ _ _ _ _ hcause hkind
  have hsids : sid' = sid := by
    have hstatus' := (hsettled.got _ _ _ _ hgot').2.2
    exact Option.some.inj (hstatus'.symm.trans hstatus.2.2)
  have hids : (y'.1.status sid').nextReplyId = m.replyId := by
    rw [← hid'', hid, ← hnow]
    exact hid'
  rw [hids, hsids] at hgot'
  -- No id was given twice for this status, so it is one get, with one context.
  obtain rfl := hgets.unique _ _ _ _ _ _ _ _ hgot' hgot
  obtain ⟨⟨uninit, hevent⟩, hbytes⟩ := reach_handsOver (h.reach client) p hqueued _ _ _ _ _ hcause
  refine ⟨?_, m'.payload, m.payload, w₀, y'.1, now, out, out', hbytes, hw₀, hsuffix, ?_, hdata,
    hget'⟩
  · rw [eventFor, hkind] at hevent
    exact (Option.some.inj hevent).symm
  · rw [hnow, ← hout]
    exact hcons

/-- The reply to the get with the context 7. -/
theorem replies_answer_one : ∃ w p, Machine.Exchange machine
    (fun b s i => answers listenerAndCaller true b s i = true) (tcpLink listenerAndCaller) w ∧
      Obs.queued p ∈ (w.now true).trace ∧
      p.cause = .frame ⟨67305985, 80, .tcp⟩ 0 ⟨2, 1, 1⟩ [some 67] (some 7) ∧ p.event = .reply ∧
      ∃ (question : List UInt8) (w₀ : Machine.Pair State Input) (s : State) (now : Nat)
        (out : SendIn),
        (∀ b, w₀.past b <:+ w.past b) ∧
        (w₀.now false).handling 1 = some (question.map some) ∧
        (s, Input.app (.get 0 question 7 now out)) ∈ w₀.past true := by
  obtain ⟨w, hw, hview⟩ := Machine.Exchange.exists_of_run machine (answers listenerAndCaller true)
    (tcpLink listenerAndCaller) (connectPeers ++ answerPeer)
    (fun w => (queuedCalls (w.now true).trace).getLast?.map fun p => (p.conn, p.cause))
    (some (0, .frame ⟨67305985, 80, .tcp⟩ 0 ⟨2, 1, 1⟩ [some 67] (some 7))) (by decide +kernel)
  obtain ⟨p, hlast, hp⟩ := Option.map_eq_some_iff.mp hview
  obtain ⟨hconn, hcause⟩ := Prod.mk.inj hp
  have hqueued := mem_queuedCalls.mp (List.mem_of_getLast? hlast)
  obtain ⟨hevent, question, -, w₀, s, now, -, out, -, -, hsuffix, -, hhandling, hget⟩ :=
    replies_answer hw hqueued hconn hcause (by decide)
  exact ⟨w, p, hw, hqueued, hcause, hevent, question, w₀, s, now, out, hsuffix, hhandling, hget⟩

end Msgbox
