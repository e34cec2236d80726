import Msgbox.Lib.Frames
import Msgbox.Spec.Dropping
import Msgbox.Spec.Queue

/-!
# Tcp streams

What was received on each tcp conn, the frames in it, and the messages that were queued for the
conn. Only a step that reads data from a tcp conn has to do with any of these.

## Key results

- `stream`, `decoded`: what was received on a conn, and the frames in it
- `tcpMessages`: the messages that were queued for a conn
- `State.Calm`: a change of the state that leaves the streams and the buffers alone
- `State.calm_effects`, `State.calm_final`: a step that reads no data is such a change
-/

namespace Msgbox

/-! ## Streams -/

/-- The length of the body behind a header. A close has none, whatever it announces. -/
def bodySize (raw : List UInt8) : Nat :=
  if (decodeHeader raw).kind = .close then 0 else (decodeHeader raw).numBytes.toNat

/-- What an observation adds to the stream of a conn: bytes, or the end of the message in
    progress, where `recv` failed. -/
def Obs.symbols (c : ConnId) : Obs → List (Option UInt8)
  | .received c' bytes => if c' = c then bytes.map some else []
  | .recvFailed c' => if c' = c then [none] else []
  | _ => []

/-- What was received on a tcp conn, in this order. -/
def stream (t : List Obs) (c : ConnId) : List (Option UInt8) := t.reverse.flatMap (Obs.symbols c)

/-- The frames of the stream of a conn. -/
def decoded (t : List Obs) (c : ConnId) : Frames.Decoder UInt8 :=
  Frames.decode headerLen bodySize (stream t c)

/-- The stream ends within a frame. -/
def unfinished (t : List Obs) (c : ConnId) : Bool := !(decoded t c).pending.isEmpty

/-- The frames that are handed over: those with a body. -/
def messagesIn (frames : List (List UInt8)) : List (Header × List (Option UInt8)) :=
  (frames.filter fun f => headerLen < f.length).map fun f =>
    (decodeHeader f, (f.drop headerLen).map some)

/-- One more frame, with a body. -/
theorem messagesIn_concat {f : List UInt8} (h : headerLen < f.length) (frames : List (List UInt8)) :
    messagesIn (frames ++ [f]) =
      messagesIn frames ++ [(decodeHeader f, (f.drop headerLen).map some)] := by
  simp [messagesIn, h]

/-- One more frame, without a body. -/
theorem messagesIn_short {f : List UInt8} (h : f.length = headerLen) (frames : List (List UInt8)) :
    messagesIn (frames ++ [f]) = messagesIn frames := by
  simp [messagesIn, h]

/-- The tcp message that a call of the conn is about. -/
def PendingCall.tcpMessage (c : ConnId) (p : PendingCall) : Option (Header × List (Option UInt8)) :=
  match p.cause with
  | .frame a _ h payload _ => if p.conn = c ∧ a.protocolType = .tcp then some (h, payload) else none
  | _ => none

/-- The tcp messages that were queued for a conn, in this order. -/
def tcpMessages (t : List Obs) (c : ConnId) : List (Header × List (Option UInt8)) :=
  (queuedCalls t).filterMap (PendingCall.tcpMessage c)

/-- The observation is about no tcp stream. -/
def Obs.isCalm : Obs → Bool
  | .received _ _ => false
  | .recvFailed _ => false
  | .queued p =>
    match p.cause with
    | .frame a _ _ _ _ => a.protocolType ≠ .tcp
    | _ => true
  | _ => true

/-- The newest observation is the end of the stream. -/
theorem stream_cons (o : Obs) (t : List Obs) (c : ConnId) :
    stream (o :: t) c = stream t c ++ o.symbols c := by
  simp [stream]

/-- Bytes that were received are the end of the stream. -/
theorem stream_received (c : ConnId) (bs : List UInt8) (t : List Obs) :
    stream (.received c bs :: t) c = stream t c ++ bs.map some := by
  simp [stream_cons, Obs.symbols]

/-- A failed `recv` leaves a gap. -/
theorem stream_recvFailed (c : ConnId) (t : List Obs) :
    stream (.recvFailed c :: t) c = stream t c ++ [none] := by
  simp [stream_cons, Obs.symbols]

/-- Observations of other kinds leave the streams. -/
theorem stream_calm {o : Obs} (ho : o.isCalm = true) (t : List Obs) (c : ConnId) :
    stream (o :: t) c = stream t c := by
  rw [stream_cons]
  cases o with
  | received | recvFailed => exact Bool.noConfusion ho
  | _ => exact List.append_nil _

/-- The newest call is the last message, if it is one. -/
theorem tcpMessages_queued (p : PendingCall) (t : List Obs) (c : ConnId) :
    tcpMessages (.queued p :: t) c = tcpMessages t c ++ (p.tcpMessage c).toList := by
  rw [tcpMessages, queuedCalls_queued, List.filterMap_append]
  rfl

/-- Only calls are messages. -/
theorem tcpMessages_other {o : Obs} (ho : o.queuedCall = none) (t : List Obs) (c : ConnId) :
    tcpMessages (o :: t) c = tcpMessages t c := by
  rw [tcpMessages, queuedCalls_cons ho]
  rfl

/-- Calm observations hand over no message. -/
theorem tcpMessages_calm {o : Obs} (ho : o.isCalm = true) (t : List Obs) (c : ConnId) :
    tcpMessages (o :: t) c = tcpMessages t c := by
  cases o with
  | queued p =>
    have hnone : p.tcpMessage c = none := by
      unfold PendingCall.tcpMessage
      unfold Obs.isCalm at ho
      split
      · rename_i a sid h payload context hcause
        simp only [hcause, ne_eq, decide_eq_true_eq] at ho
        rw [if_neg fun h => ho h.2]
      · rfl
    rw [tcpMessages_queued, hnone]
    exact List.append_nil _
  | _ => exact tcpMessages_other rfl t c

/-- The observation is about no tcp stream but that of the conn, and no message is queued. -/
def Obs.isDataOf (c : ConnId) : Obs → Bool
  | .received c' _ => c' = c
  | .recvFailed c' => c' = c
  | o => o.isCalm

/-- The message in progress stays as it is. -/
def SameBuffer (status status' : ConnStatus) : Prop :=
  status'.totalBuffer = status.totalBuffer ∧ status'.waitingBuffer = status.waitingBuffer

/-- A status has its own buffers. -/
theorem SameBuffer.refl (status : ConnStatus) : SameBuffer status status := ⟨rfl, rfl⟩

namespace State

variable {s₀ s s' : State} {i : Input} {c : ConnId}

/-! ## What leaves the streams alone -/

/-- Writing a status with the same buffers leaves all buffers. -/
theorem sameBuffer_update {sid : StatusId} {status : ConnStatus}
    (h : SameBuffer (s.status sid) status) (sid' : StatusId) :
    SameBuffer (s.status sid') (Function.update s.status sid status sid') := by
  by_cases hsid : sid' = sid
  · subst hsid
    rwa [Function.update_self]
  · rw [Function.update_of_ne hsid]
    exact .refl _

/-- A tcp conn has the address that it had. -/
def KeepsTcp (s s' : State) : Prop :=
  ∀ c < s.nextConn, (s.conn c).protocolType = .tcp →
    (s'.conn c).remoteAddress = (s.conn c).remoteAddress

/-- From `s` to `s'` nothing is received on a tcp conn, no tcp message is queued, and the
    buffers stay where they are, except that `conn_status` may lose the entry of one address. -/
structure Calm (except : Option Address) (s s' : State) : Prop where
  trace : ∃ os, s'.trace = os ++ s.trace ∧ ∀ o ∈ os, o.isCalm = true
  next : s.nextConn ≤ s'.nextConn
  nextStatus : s.nextStatus ≤ s'.nextStatus
  address : KeepsTcp s s'
  lookup : ∀ a sid, except ≠ some a → s.connStatus.lookup a = some sid →
    s'.connStatus.lookup a = some sid
  buffers : ∀ sid < s.nextStatus, SameBuffer (s.status sid) (s'.status sid)

/-- Where it is calm, no stream goes on. -/
theorem Calm.stream {except : Option Address} (h : Calm except s s') (c : ConnId) :
    stream s'.trace c = stream s.trace c := by
  obtain ⟨os, htrace, hcalm⟩ := h.trace
  rw [htrace]
  clear htrace
  induction os with
  | nil => rfl
  | cons o os ih =>
    rw [List.cons_append, stream_calm (hcalm o List.mem_cons_self)]
    exact ih fun o' ho' => hcalm o' (List.mem_cons_of_mem _ ho')

/-- Where it is calm, no message is handed over. -/
theorem Calm.messages {except : Option Address} (h : Calm except s s') (c : ConnId) :
    tcpMessages s'.trace c = tcpMessages s.trace c := by
  obtain ⟨os, htrace, hcalm⟩ := h.trace
  rw [htrace]
  clear htrace
  induction os with
  | nil => rfl
  | cons o os ih =>
    rw [List.cons_append, tcpMessages_calm (hcalm o List.mem_cons_self)]
    exact ih fun o' ho' => hcalm o' (List.mem_cons_of_mem _ ho')

/-- A conn that is to be freed stays so. -/
theorem freeing_mono (h : s.trace ⊆ s'.trace) (hfree : s.freeing c = true) :
    s'.freeing c = true := by
  obtain ⟨p, hp, hfrees⟩ := freeing_iff.mp hfree
  exact freeing_iff.mpr ⟨p, h hp, hfrees⟩

/-- Where it is calm, no conn is spared again. -/
theorem Calm.freeing {except : Option Address} (h : Calm except s s')
    (hfree : s'.freeing c = false) : s.freeing c = false := by
  obtain ⟨os, htrace, -⟩ := h.trace
  rw [Bool.eq_false_iff] at hfree ⊢
  exact fun hs => hfree (freeing_mono (fun _ ho => htrace ▸ List.mem_append_right _ ho) hs)

/-- Some things are observed. -/
private theorem calm_of (os : List Obs) (htrace : s'.trace = os ++ s.trace)
    (hos : ∀ o ∈ os, o.isCalm = true) (hnext : s.nextConn ≤ s'.nextConn)
    (hnextStatus : s'.nextStatus = s.nextStatus)
    (haddr : KeepsTcp s s')
    (hlookup : s'.connStatus = s.connStatus)
    (hstatus : ∀ sid, SameBuffer (s.status sid) (s'.status sid)) : Calm none s s' :=
  ⟨⟨os, htrace, hos⟩, hnext, hnextStatus.ge, haddr, fun _ _ _ h => hlookup ▸ h,
    fun sid _ => hstatus sid⟩

/-- Nothing is observed. -/
theorem calm_quiet (htrace : s'.trace = s.trace) (hnext : s'.nextConn = s.nextConn)
    (hnextStatus : s'.nextStatus = s.nextStatus)
    (haddr : KeepsTcp s s')
    (hlookup : s'.connStatus = s.connStatus)
    (hstatus : ∀ sid, SameBuffer (s.status sid) (s'.status sid)) : Calm none s s' :=
  calm_of [] htrace (fun _ h => absurd h List.not_mem_nil) hnext.ge hnextStatus haddr hlookup
    hstatus

/-- What writes to none of the tables is calm. -/
private theorem calm_eq (htrace : s'.trace = s.trace) (hnext : s'.nextConn = s.nextConn)
    (hnextStatus : s'.nextStatus = s.nextStatus) (hconn : s'.conn = s.conn)
    (hlookup : s'.connStatus = s.connStatus) (hstatus : s'.status = s.status) : Calm none s s' :=
  calm_quiet htrace hnext hnextStatus (fun _ _ _ => by rw [hconn]) hlookup
    fun _ => by rw [hstatus]; exact .refl _

/-- One thing is observed. -/
theorem calm_log {o : Obs} (ho : o.isCalm = true) (htrace : s'.trace = o :: s.trace)
    (hnext : s'.nextConn = s.nextConn)
    (hnextStatus : s'.nextStatus = s.nextStatus)
    (haddr : KeepsTcp s s')
    (hlookup : s'.connStatus = s.connStatus)
    (hstatus : ∀ sid, SameBuffer (s.status sid) (s'.status sid)) : Calm none s s' := by
  refine calm_of [o] htrace ?_ hnext.ge hnextStatus haddr hlookup hstatus
  intro o' ho'
  rw [List.mem_singleton.mp ho']
  exact ho

/-- The step reads no data from a tcp conn. -/
def NoData (s₀ : State) (i : Input) : Prop :=
  ∀ c r, i.Reads s₀ c r → (s₀.conn c).protocolType = .tcp → (s₀.conn c).forListening = true

/-- A step without data reads no connection. -/
theorem NoData.absurd (h : NoData s₀ i) {r : ReadIn} (hreads : i.Reads s₀ c r)
    (htcp : (s₀.conn c).protocolType = .tcp) (hconn : (s₀.conn c).forListening = false) : False :=
  Bool.noConfusion ((h c r hreads htcp).symm.trans hconn)

/-- A write to a conn that is not a tcp conn. -/
private theorem keepsTcp_of_not_tcp {k : Conn} (hconn : s'.conn = Function.update s.conn c k)
    (hnot : (s.conn c).protocolType ≠ .tcp) : KeepsTcp s s' := by
  intro c' _ htcp
  have hne : c' ≠ c := by
    rintro rfl
    exact hnot htcp
  rw [hconn, Function.update_of_ne hne]

/-- A new conn does not change the protocols of the old ones. -/
private theorem keepsTcp_of_alloc {k : Conn}
    (hconn : s'.conn = Function.update s.conn s.nextConn k) :
    KeepsTcp s s' := by
  intro c hc _
  rw [hconn, Function.update_of_ne (Nat.ne_of_lt hc)]

/-- Early effects change no conn to or from tcp. -/
private theorem keepsTcp_early (heffect : Early s₀ i s s') : KeepsTcp s s' := by
  cases heffect with
  | header | unflag => exact fun c _ _ => update_remoteAddress (by rfl) c
  | _ => exact fun _ _ _ => rfl

/-- Only a udp conn takes an address from a datagram, from the application or from a call. -/
theorem keepsTcp_effect (heffect : Effect s₀ i s s') : KeepsTcp s s' := by
  cases heffect with
  | early hearly => exact keepsTcp_early hearly
  | oneWay | context | expire => exact fun c _ _ => update_remoteAddress (by rfl) c
  | datagram _ _ _ hproto =>
    apply keepsTcp_of_not_tcp rfl
    rw [hproto]
    exact Protocol.noConfusion
  | opened k => exact keepsTcp_of_alloc rfl
  | @address c ip port hcalls hstart =>
    subst hstart
    apply keepsTcp_of_not_tcp rfl
    -- The application may write the address of a listening udp conn only.
    have hudp : (s.conn c).protocolType = .udp := by
      have hadmits := hcalls.admits
      simp only [admits, Bool.and_eq_true, beq_iff_eq] at hadmits
      exact hadmits.2
    rw [hudp]
    exact Protocol.noConfusion
  | removal =>
    obtain ⟨index, heq⟩ := removalPass_eq s
    rw [heq]
    exact fun _ _ _ => rfl
  | @call call rest junk =>
    rw [makeCall_eq]
    intro c _ htcp
    by_cases hc : c = call.conn
    · subst hc
      -- `make_call` copies the metadata to udp conns only.
      have hnot : (s.conn call.conn).protocolType ≠ .udp := by
        rw [htcp]
        exact Protocol.noConfusion
      show (Function.update s.conn call.conn (s.loaded call junk) call.conn).remoteAddress = _
      rw [Function.update_self, loaded_of_no_data s call junk (.inr hnot)]
    · show (Function.update s.conn call.conn (s.loaded call junk) c).remoteAddress = _
      rw [Function.update_of_ne hc]
  | finish =>
    rw [finishCall_eq]
    exact fun _ _ _ => rfl
  | _ => exact fun _ _ _ => rfl

/-- A new status, for an address that had none. -/
private theorem calm_addStatus (hnew : s.statusOfConn c = none) {p : PendingCall}
    (hp : (Obs.queued p).isCalm = true) (htrace : s'.trace = .queued p :: s.trace)
    (hnext : s'.nextConn = s.nextConn) (hnextStatus : s.nextStatus ≤ s'.nextStatus)
    (hconn : s'.conn = s.conn) (hlookup : s'.connStatus = (s.addStatus c).connStatus)
    (hstatus : s'.status = (s.addStatus c).status) : Calm none s s' where
  trace := ⟨[.queued p], htrace, fun o ho => List.mem_singleton.mp ho ▸ hp⟩
  next := hnext.ge
  nextStatus := hnextStatus
  address c' _ _ := by rw [hconn]
  lookup a sid _ hsid := by
    -- The entry that is added is for an address without one.
    have hne : a ≠ (s.conn c).remoteAddress := by
      rintro rfl
      exact absurd (hsid.symm.trans hnew) (Option.some_ne_none sid)
    rw [hlookup, ← hsid]
    exact AList.lookup_insert_ne hne
  buffers sid hsid := by
    rw [hstatus, addStatus_status, Function.update_of_ne (Nat.ne_of_lt hsid)]
    exact .refl _

/-- A new status has empty buffers. -/
theorem calm_remoteAddressSeen (s : State) (c : ConnId) :
    Calm none s (s.remoteAddressSeen c).1 := by
  unfold remoteAddressSeen
  split
  · exact calm_eq rfl rfl rfl rfl rfl rfl
  · rename_i hnone
    exact calm_addStatus hnone (by rfl) rfl rfl (Nat.le_succ _) rfl rfl rfl

/-- What a read of data from the conn does to its stream and to the buffer of its status. -/
inductive TakesData (c : ConnId) (s : State) : State → Prop
  | received (bytes : List UInt8) : TakesData c s (s.log (.received c bytes))
  | failed : TakesData c s (s.log (.recvFailed c))
  | buffer {sid : StatusId} (total : Option MsgData) (waiting : WaitingBuffer)
      (hsid : s.statusOfConn c = some sid) :
      TakesData c s
        (s.modifyStatus sid fun status =>
          { status with totalBuffer := total, waitingBuffer := waiting })

/-- An effect leaves the streams alone, unless the step reads data from a tcp conn. -/
private theorem early_calm_or_takes (heffect : Early s₀ i s s') : Calm none s s' ∨
    ∃ c r, i.Reads s₀ c r ∧ (s₀.conn c).protocolType = .tcp ∧ (s₀.conn c).forListening = false ∧
      TakesData c s s' := by
  have haddr := keepsTcp_early heffect
  cases heffect with
  | kernel | leak | close | poll => exact .inl (calm_eq rfl rfl rfl rfl rfl rfl)
  | note o _ hnotes =>
    cases hnotes with
    -- The two things that are observed of a stream, and its buffer below.
    | received bytes hreads htcp hconn => exact .inr ⟨_, _, hreads, htcp, hconn, .received bytes⟩
    | recvFailed hreads htcp hconn => exact .inr ⟨_, _, hreads, htcp, hconn, .failed⟩
    | sent => exact .inl (calm_log (by rfl) rfl rfl rfl haddr rfl fun _ => .refl _)
    | disconnected => exact .inl (calm_log (by rfl) rfl rfl rfl haddr rfl fun _ => .refl _)
  | header => exact .inl (calm_log (by rfl) rfl rfl rfl haddr rfl fun _ => .refl _)
  | buffer total waiting hreads htcp hsid hconn =>
    exact .inr ⟨_, _, hreads, htcp, hconn, .buffer total waiting hsid⟩
  | ready _ _ hnew => exact .inl (calm_addStatus hnew (by rfl) rfl rfl (Nat.le_succ _) rfl rfl rfl)
  | error => exact .inl (calm_log (by rfl) rfl rfl rfl haddr rfl fun _ => .refl _)
  | unflag => exact .inl (calm_quiet rfl rfl rfl haddr rfl fun _ => .refl _)

/-- An effect is calm, or takes data of the connection that is read. -/
theorem calm_or_takes (heffect : Effect s₀ i s s') : Calm none s s' ∨
    ∃ c r, i.Reads s₀ c r ∧ (s₀.conn c).protocolType = .tcp ∧ (s₀.conn c).forListening = false ∧
      TakesData c s s' := by
  have haddr := keepsTcp_effect heffect
  by_cases hearly : Early s₀ i s s'
  · exact early_calm_or_takes hearly
  left
  cases heffect with
  | early hearly' => exact absurd hearly' hearly
  | oneWay | listening => exact calm_log rfl rfl rfl rfl haddr rfl fun _ => .refl _
  | @datagram c r d =>
    exact calm_log (by rfl : (Obs.datagram c ⟨d.ip, d.port, .udp⟩ d.bytes).isCalm = true) rfl
      rfl rfl
      haddr rfl fun _ => .refl _
  | opened k =>
    refine calm_of [.opened s.nextConn] rfl ?_ (Nat.le_succ _) rfl haddr rfl fun _ => .refl _
    exact fun o ho => List.mem_singleton.mp ho ▸ rfl
  | context | address => exact calm_quiet rfl rfl rfl haddr rfl fun _ => .refl _
  | @get c payload context now w sid =>
    exact calm_log (by rfl : (Obs.got c sid (s.status sid).nextReplyId context true).isCalm = true)
      rfl rfl rfl haddr rfl (sameBuffer_update (by exact ⟨rfl, rfl⟩))
  | @failedGet c payload context now w sid =>
    exact calm_log (by rfl : (Obs.got c sid (s.status sid).nextReplyId context false).isCalm = true)
      rfl rfl rfl haddr rfl (sameBuffer_update (by exact ⟨rfl, rfl⟩))
  | expire =>
    exact calm_log rfl rfl rfl rfl haddr rfl (sameBuffer_update (by exact ⟨rfl, rfl⟩))
  | swap | phase => exact calm_eq rfl rfl rfl rfl rfl rfl
  | removal =>
    obtain ⟨index, heq⟩ := removalPass_eq s
    rw [heq]
    exact calm_quiet rfl rfl rfl (fun _ _ _ => rfl) rfl fun _ => .refl _
  | @call call rest junk =>
    rw [makeCall_eq] at haddr ⊢
    exact calm_log (by rfl : (Obs.called (s.loaded call junk) call).isCalm = true) rfl rfl rfl
      haddr rfl
      fun _ => .refl _
  | @finish f =>
    rw [finishCall_eq]
    refine calm_quiet rfl rfl rfl (fun _ _ _ => rfl) rfl fun sid => ?_
    -- What `make_call` saves is no part of the buffer.
    obtain ⟨connContext, heq⟩ := saveContext_status s f sid
    show SameBuffer (s.status sid) ((s.saveContext f).status sid)
    rw [heq]
    exact ⟨rfl, rfl⟩

/-- A step that reads no data leaves the streams alone. -/
private theorem calm_effect (hdata : NoData s₀ i) (heffect : Effect s₀ i s s') :
    Calm none s s' := by
  rcases calm_or_takes heffect with hcalm | ⟨c, r, hreads, htcp, hconn, -⟩
  · exact hcalm
  · exact (hdata.absurd hreads htcp hconn).elim

/-- Nothing happens. -/
theorem Calm.refl (s : State) : Calm none s s := calm_eq rfl rfl rfl rfl rfl rfl

/-- A tcp conn stays one. -/
theorem Calm.tcp {except : Option Address} (h : Calm except s s') {c : ConnId} (hc : c < s.nextConn)
    (htcp : (s.conn c).protocolType = .tcp) : (s'.conn c).protocolType = .tcp := by
  rw [Conn.protocolType, h.address c hc htcp]
  exact htcp

/-- Calm after calm. -/
theorem Calm.trans {except : Option Address} {s'' : State} (h : Calm none s s')
    (h' : Calm except s' s'') : Calm except s s'' := by
  obtain ⟨os, htrace, hos⟩ := h.trace
  obtain ⟨os', htrace', hos'⟩ := h'.trace
  refine ⟨⟨os' ++ os, by rw [htrace', htrace, List.append_assoc], ?_⟩, h.next.trans h'.next,
    h.nextStatus.trans h'.nextStatus, ?_, ?_, ?_⟩
  · intro o ho
    exact (List.mem_append.mp ho).elim (hos' o) (hos o)
  · intro c hc htcp
    rw [h'.address c (hc.trans_le h.next) (h.tcp hc htcp), h.address c hc htcp]
  · exact fun a sid ha hsid => h'.lookup a sid ha (h.lookup a sid (Option.some_ne_none a).symm hsid)
  · intro sid hsid
    have hold := h.buffers sid hsid
    have hnew := h'.buffers sid (hsid.trans_le h.nextStatus)
    exact ⟨hnew.1.trans hold.1, hnew.2.trans hold.2⟩

/-- A step without data is calm up to its last effect. -/
theorem calm_effects (hdata : NoData s₀ i) (h : Relation.ReflTransGen (Effect s₀ i) s s') :
    Calm none s s' := by
  induction h with
  | refl => exact .refl s
  | tail _ heffect ih => exact ih.trans (calm_effect hdata heffect)

/-- A call about a message, for a conn that is not a tcp conn. -/
private theorem isCalm_frame {event : Event} {data : Option MsgData} {toFree : ToFree}
    {sid : StatusId} {h : Header} {payload : List (Option UInt8)} {context : Option Ptr}
    (hnot : (s.conn c).protocolType ≠ .tcp) :
    (Obs.queued ⟨c, event, data, toFree, .frame (s.conn c).remoteAddress sid h payload
      context⟩).isCalm = true :=
  decide_eq_true hnot

/-- A drop takes away the entry of one address. -/
theorem calm_drop (s : State) (c : ConnId) (event : Event) (ph : Phase) :
    Calm (some (s.conn c).remoteAddress) s { s.localDisconnect c event with phase := ph } where
  trace := ⟨[.queued (s.closingCall c event)], localDisconnect_trace s c event,
    fun o ho => List.mem_singleton.mp ho ▸ rfl⟩
  next := (localDisconnect_nextConn s c event).ge
  nextStatus := (localDisconnect_nextStatus s c event).ge
  address c' _ _ := by rw [localDisconnect_conn]
  lookup a sid ha hsid := by
    rw [localDisconnect_connStatus, ← hsid]
    exact AList.lookup_erase_ne fun heq => ha (congrArg some heq.symm)
  buffers sid _ := by
    show SameBuffer _ ((s.localDisconnect c event).status sid)
    rw [localDisconnect_status, unsetStatus_status_apply]
    split <;> exact ⟨rfl, rfl⟩

/-- A tcp conn is to be freed once it is dropped. -/
theorem freeing_drop (htcp : (s.conn c).protocolType = .tcp) (event : Event) :
    (s.localDisconnect c event).freeing c = true := by
  have hlistening : s.isListeningUdp c = false := by simp [isListeningUdp, htcp]
  apply freeing_iff.mpr
  refine ⟨s.closingCall c event, ?_, ?_⟩
  · rw [localDisconnect_trace]
    exact List.mem_cons_self
  · simp [PendingCall.frees, closingCall, hlistening]

/-- A new conn that only reports why it could not be opened. -/
theorem calm_fail (s : State) (k : Conn) (msg : String) :
    Calm none s ((s.allocConn k).sendCallback s.nextConn .error (some (msgNewData msg))
      (.conn s.nextConn) .other) := by
  refine calm_of [.queued ⟨s.nextConn, .error, some (msgNewData msg), .conn s.nextConn, .other⟩,
    .opened s.nextConn] rfl ?_ (Nat.le_succ _) rfl (keepsTcp_of_alloc rfl) rfl fun _ => .refl _
  intro o ho
  rcases List.mem_cons.mp ho with rfl | ho
  · rfl
  · rw [List.mem_singleton.mp ho]
    rfl

/-- The end of a step that reads no data from a tcp conn. -/
theorem calm_final (hdata : NoData s₀ i) (hfinal : Final s₀ i s s') :
    Calm none s s' ∨
      ∃ c event ph, Relation.ReflTransGen (Early s₀ i) s₀ s ∧ i.Drops s₀ c ∧
        s' = { s.localDisconnect c event with phase := ph } := by
  -- A message that is handed over now was a datagram, since no tcp conn is read.
  have hnot : ∀ {c r}, i.Reads s₀ c r → ((s.conn c).protocolType = .tcp →
      (s₀.conn c).protocolType = .tcp ∧ (s₀.conn c).forListening = false) →
      (s.conn c).protocolType ≠ .tcp :=
    fun hreads htcp heq => hdata.absurd hreads (htcp heq).1 (htcp heq).2
  cases hfinal with
  | handled hreads _ _ _ _ _ htcp =>
    exact .inl (calm_log (isCalm_frame (hnot hreads htcp)) rfl rfl rfl
      (fun c _ _ => update_remoteAddress (by rfl) c) rfl fun _ => .refl _)
  | matched hreads _ _ _ _ _ _ _ htcp =>
    exact .inl (calm_log (isCalm_frame (hnot hreads htcp)) rfl rfl rfl
      (fun c _ _ => update_remoteAddress (by rfl) c) rfl (sameBuffer_update (by exact ⟨rfl, rfl⟩)))
  | unmatched hreads _ _ _ _ _ _ _ htcp =>
    exact .inl (calm_log (isCalm_frame (hnot hreads htcp)) rfl rfl rfl (fun _ _ _ => rfl) rfl
      fun _ => .refl _)
  | @drop c event ph hearly hdrops => exact .inr ⟨c, event, ph, hearly, hdrops, rfl⟩
  | refuse => exact .inl (calm_log rfl rfl rfl rfl (fun _ _ _ => rfl) rfl fun _ => .refl _)
  | @fail k msg => exact .inl (calm_fail s k msg)

/-! ## Addresses of tcp conns -/

/-- The last effect of a step takes no conn back. -/
theorem final_nextConn_le (hfinal : Final s₀ i s s') : s.nextConn ≤ s'.nextConn := by
  cases hfinal with
  | drop =>
    show s.nextConn ≤ (s.localDisconnect _ _).nextConn
    rw [localDisconnect_nextConn]
  | fail => exact Nat.le_succ _
  | _ => exact Nat.le_refl _

/-- The last effect of a step changes no conn to or from tcp. -/
theorem keepsTcp_final (hfinal : Final s₀ i s s') : KeepsTcp s s' := by
  cases hfinal with
  | handled | matched => exact fun c _ _ => update_remoteAddress (by rfl) c
  | drop =>
    intro c _ _
    rw [localDisconnect_conn]
  | fail k => exact keepsTcp_of_alloc rfl
  | _ => exact fun _ _ _ => rfl

/-- Protocols that are kept twice. -/
theorem KeepsTcp.trans {s'' : State} (h : KeepsTcp s s') (hle : s.nextConn ≤ s'.nextConn)
    (h' : KeepsTcp s' s'') : KeepsTcp s s'' := by
  intro c hc htcp
  have haddr := h c hc htcp
  rw [h' c (hc.trans_le hle) (by rw [Conn.protocolType, haddr]; exact htcp), haddr]

/-- A chain of effects changes no conn to or from tcp. -/
theorem keepsTcp_effects (h : Relation.ReflTransGen (Effect s₀ i) s s') :
    KeepsTcp s s' ∧ s.nextConn ≤ s'.nextConn := by
  induction h with
  | refl => exact ⟨fun _ _ _ => rfl, Nat.le_refl _⟩
  | tail _ heffect ih =>
    exact ⟨ih.1.trans ih.2 (keepsTcp_effect heffect), ih.2.trans (effect_nextConn_le heffect)⟩

/-- A tcp conn keeps its address. -/
theorem keepsTcp_step (hstep : step s i = some s') : KeepsTcp s s' ∧ s.nextConn ≤ s'.nextConn := by
  obtain ⟨s₁, heffects, hlast⟩ := step_effects hstep
  have h₁ := keepsTcp_effects heffects
  rcases hlast with rfl | hfinal
  · exact h₁
  · exact ⟨h₁.1.trans h₁.2 (keepsTcp_final hfinal), h₁.2.trans (final_nextConn_le hfinal)⟩

/-! ## Streams only grow -/

/-- An effect adds observations. -/
private theorem suffix_effect (heffect : Effect s₀ i s s') : s.trace <:+ s'.trace := by
  cases heffect with
  | early hearly => cases hearly <;> first | exact List.suffix_rfl | exact List.suffix_cons _ _
  | removal =>
    obtain ⟨index, heq⟩ := removalPass_eq s
    rw [heq]
  | call =>
    rw [makeCall_eq]
    exact List.suffix_cons _ _
  | finish =>
    rw [finishCall_eq]
  | _ => first | exact List.suffix_rfl | exact List.suffix_cons _ _

/-- The last effect of a step adds observations. -/
private theorem suffix_final (hfinal : Final s₀ i s s') : s.trace <:+ s'.trace := by
  cases hfinal with
  | @drop c event =>
    show s.trace <:+ (s.localDisconnect c event).trace
    rw [localDisconnect_trace]
    exact List.suffix_cons _ _
  | fail => exact (List.suffix_cons _ _).trans (List.suffix_cons _ _)
  | _ => exact List.suffix_cons _ _

/-- A step adds to the history. -/
theorem suffix_step (hstep : step s i = some s') : s.trace <:+ s'.trace := by
  obtain ⟨s₁, heffects, hlast⟩ := step_effects hstep
  have h₁ : s.trace <:+ s₁.trace := by
    clear hlast
    induction heffects with
    | refl => exact List.suffix_rfl
    | tail _ heffect ih => exact ih.trans (suffix_effect heffect)
  rcases hlast with rfl | hfinal
  · exact h₁
  · exact h₁.trans (suffix_final hfinal)

/-- A later trace has more of the stream. -/
theorem stream_suffix {t t' : List Obs} (h : t <:+ t') (c : ConnId) :
    stream t c <+: stream t' c := by
  obtain ⟨os, rfl⟩ := h
  rw [stream, stream, List.reverse_append, List.flatMap_append]
  exact List.prefix_append _ _

/-- The phase is no matter. -/
theorem Calm.phase {except : Option Address} (h : Calm except s s') (ph : Phase) :
    Calm except s { s' with phase := ph } :=
  ⟨h.trace, h.next, h.nextStatus, h.address, h.lookup, h.buffers⟩

end State

end Msgbox
