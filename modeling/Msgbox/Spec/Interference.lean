import Msgbox.Spec.Decoding

/-!
# Streams do not get into each other's way

The message in progress on a conn is found by the conn's address, so two conns to one address
share it. Where the steps of a run do not touch the message of another conn, the messages of
each conn are those of its own stream.

## Key results

- `undisturbed`: the steps that leave the messages in progress on other conns alone
- `reach_decoded`: in runs of such steps each conn's messages are the frames of its stream
- `streams_decoded`, `streams_not_decoded`: so they depend on the stream only, which two conns to
  one address show to fail otherwise
-/

namespace Msgbox

/-! ## The condition -/

namespace State

/-- No other conn has a message in progress at the conn's address. -/
def alone (s : State) (c : ConnId) : Bool :=
  (List.range s.nextConn).all fun c' =>
    c' == c || !unfinished s.trace c' || s.freeing c' ||
      decide ((s.conn c').remoteAddress ≠ (s.conn c).remoteAddress)

/-- A read of the conn finds nothing, or no message in progress but the conn's own. -/
def readsOwn (s : State) (c : ConnId) (r : ReadIn) : Bool :=
  s.tcpIdle c r || !s.freeing c && (decide (s.waitingBytes c = 0) || unfinished s.trace c)

end State

/-- The conn from which the step reads tcp data. -/
def Input.dataTarget (s : State) (i : Input) : Option (ConnId × ReadIn) :=
  match i, s.phase with
  | .read r, .reading index =>
    match s.conns[index]? with
    | some c =>
      if (s.conn c).protocolType = .tcp ∧ (s.conn c).forListening = false then some (c, r) else none
    | none => none
  | _, _ => none

/-- The step leaves the messages in progress on other conns alone: a read of a tcp conn finds none
    but the conn's own, and `local_disconnect` deletes none but the conn's own. -/
def undisturbed (s : State) (i : Input) : Bool :=
  (i.dropTarget s).all s.alone && (i.dataTarget s).all fun x => s.readsOwn x.1 x.2

/-- A read of a tcp conn that does not listen is about its data. -/
theorem dataTarget_of_reads {s : State} {i : Input} {c : ConnId} {r : ReadIn} (h : i.Reads s c r)
    (htcp : (s.conn c).protocolType = .tcp) (hconn : (s.conn c).forListening = false) :
    i.dataTarget s = some (c, r) := by
  obtain ⟨index, hphase, hlisted⟩ := h.listed
  simp only [h.input, Input.dataTarget, hphase, hlisted]
  rw [if_pos ⟨htcp, hconn⟩]

namespace State

variable {s₀ s s' : State} {i : Input} {c : ConnId}
  {due : ConnId → List (Header × List (Option UInt8))}

/-- A conn that is alone is the sole user of its status. -/
private theorem sole_of_alone (h : Decoding due s) (halone : s.alone c = true) : Sole s c := by
  intro c' hne hun hfree
  have hlt := (h.buffer c' hun hfree).lt
  have hc' := List.all_eq_true.mp halone c' (List.mem_range.mpr hlt)
  simpa [hne, hun, hfree] using hc'

/-- What comes before a drop does not change who has a message in progress. -/
private theorem sole_calm (h : Decoding due s₀) (hsole : Sole s₀ c) (hcalm : Calm none s₀ s)
    (haddr : (s.conn c).remoteAddress = (s₀.conn c).remoteAddress) : Sole s c := by
  intro c' hne hun hfree
  rw [unfinished_congr (hcalm.stream c')] at hun
  have hfree₀ := hcalm.freeing hfree
  have hc' := h.buffer c' hun hfree₀
  rw [haddr, hcalm.address c' hc'.lt hc'.tcp]
  exact hsole c' hne hun hfree₀

/-- The phase of the loop says nothing about the streams. -/
private theorem decoded_phase (h : Decoded s) (ph : Phase) : Decoded { s with phase := ph } :=
  ⟨h.messages, fun c hun hfree => ⟨(h.buffer c hun hfree).lt, (h.buffer c hun hfree).tcp,
    (h.buffer c hun hfree).holds⟩, h.apart⟩

/-! ## One step -/

/-- Clearing what a one-way message leaves is calm. -/
theorem calm_clearOneWay (s : State) (c : ConnId) (header : Header) :
    Calm none s (s.clearOneWay c header) := by
  unfold clearOneWay
  split
  · exact calm_log rfl rfl rfl rfl (fun c' _ _ => update_remoteAddress (by rfl) c') rfl
      fun _ => .refl _
  · exact .refl s

/-- The effects of a step keep statuses and conns allocated. -/
theorem allocated_effects (ha : Allocated s₀) (h : Relation.ReflTransGen (Effect s₀ i) s₀ s) :
    Allocated s := by
  induction h with
  | refl => exact ha
  | tail hsteps hlast ih => exact allocated_effect ha (effects_nextConn_le hsteps) ih hlast

/-- A step that reads no tcp data. -/
private theorem decoded_noData (h : Decoded s) (ha : Allocated s) (hdata : NoData s i)
    (hdrop : (i.dropTarget s).all s.alone = true) (hstep : step s i = some s') : Decoded s' := by
  obtain ⟨s₁, heffects, hlast⟩ := step_effects hstep
  have hcalm := calm_effects hdata heffects
  have h₁ := decoding_quiet h ha hcalm
  have ha₁ := allocated_effects ha heffects
  rcases hlast with rfl | hfinal
  · exact h₁
  · rcases calm_final hdata hfinal with hcalm' | ⟨c, event, ph, hearly, hdrops, rfl⟩
    · exact decoding_quiet h₁ ha₁ hcalm'
    · have halone : s.alone c = true := by
        rw [hdrops.target] at hdrop
        exact hdrop
      have hsole := sole_calm h (sole_of_alone h halone) hcalm (early_remoteAddress hearly c)
      exact decoded_phase (decoding_drop h₁ ha₁ hsole event) ph

/-- A call of `read_from_socket` for a tcp conn. -/
private theorem decoded_read (h : Decoded s) (ha : Allocated s) {r : ReadIn}
    (hreads : i.Reads s c r)
    (htcp : (s.conn c).protocolType = .tcp) (hconn : (s.conn c).forListening = false)
    (hown : s.readsOwn c r = true) : Decoded (s.readFromSocket c r).1 := by
  unfold readFromSocket
  rw [if_pos htcp, if_neg (by rw [hconn]; exact Bool.false_ne_true)]
  have hcond : s.tcpIdle c r = true ∨
      s.freeing c = false ∧ (s.waitingBytes c = 0 ∨ unfinished s.trace c = true) := by
    simpa [readsOwn] using hown
  cases hcase : s.recvTcp c r with
  | mk s₁ m =>
    obtain ⟨hnone, hsome⟩ := recvTcp_decoded h ha (hreads.allocated ha) htcp hcond hcase
    have heffects := recvTcp_effects hreads htcp hconn hcase
    cases m with
    | none => exact hnone rfl
    | some m =>
      obtain ⟨hdue, hkind, htcp₁⟩ := hsome m rfl
      have ha₁ := allocated_effects ha (effects_early heffects.1)
      dsimp only
      split
      · rename_i hevent
        -- A close has no body, so it is no message.
        unfold eventFor at hevent
        split at hevent <;> first | exact absurd hevent (Option.some_ne_none _) | contradiction
      · rename_i event _
        have hcalm := calm_clearOneWay s₁ c m.header
        have hclear : Allocated (s₁.clearOneWay c m.header) :=
          allocated_effects ha
            ((effects_early heffects.1).trans (clearOneWay_effects hreads m.header))
        have hproto : ((s₁.clearOneWay c m.header).conn c).protocolType = .tcp := by
          rw [Conn.protocolType, clearOneWay_remoteAddress]
          exact htcp₁
        exact handleMessage_decoded (decoding_quiet hdue ha₁ hcalm) hclear hproto event

/-- A step about no data reads none. -/
theorem noData_of_target (h : i.dataTarget s = none) : NoData s i := by
  intro c r hreads htcp
  rw [← Bool.not_eq_false]
  intro hconn
  rw [dataTarget_of_reads hreads htcp hconn] at h
  exact absurd h (Option.some_ne_none _)

/-- A step with a target is a call of `read_from_socket`. -/
theorem dataTarget_step {r : ReadIn} (htarget : i.dataTarget s = some (c, r))
    (hstep : step s i = some s') :
    i.Reads s c r ∧ (s.conn c).protocolType = .tcp ∧ (s.conn c).forListening = false ∧
      ∃ ph, s' = { (s.readFromSocket c r).1 with phase := ph } := by
  unfold Input.dataTarget at htarget
  split at htarget
  · rename_i r' index hphase
    split at htarget
    · rename_i c' hlisted
      split at htarget
      · rename_i htcp
        obtain ⟨rfl, rfl⟩ := Prod.mk.inj (Option.some.inj htarget)
        obtain ⟨index', c', hphase', hlisted', hlive, hproto, hnew, rfl⟩ := step_read hstep
        obtain rfl := Phase.reading.inj (hphase.symm.trans hphase')
        obtain rfl := Option.some.inj (hlisted.symm.trans hlisted')
        refine ⟨⟨rfl, ⟨index, hphase, hlisted⟩, hlive, hproto, hnew⟩, htcp.1, htcp.2, ?_⟩
        split
        · exact ⟨_, rfl⟩
        · exact ⟨_, rfl⟩
      · exact absurd htarget.symm (Option.some_ne_none _)
    · exact absurd htarget.symm (Option.some_ne_none _)
  · exact absurd htarget.symm (Option.some_ne_none _)

/-- Every undisturbed step keeps the streams decoded. -/
private theorem decoded_step (h : Decoded s) (ha : Allocated s) (hok : undisturbed s i = true)
    (hstep : step s i = some s') : Decoded s' := by
  obtain ⟨hdrop, hdata⟩ := Bool.and_eq_true_iff.mp hok
  cases htarget : i.dataTarget s with
  | none => exact decoded_noData h ha (noData_of_target htarget) hdrop hstep
  | some x =>
    obtain ⟨c, r⟩ := x
    rw [htarget] at hdata
    obtain ⟨hreads, htcp, hconn, ph, rfl⟩ := dataTarget_step htarget hstep
    exact decoded_phase (decoded_read h ha hreads htcp hconn hdata) ph

end State

/-- In runs that leave the messages of other conns alone, each conn's messages are the frames of
    its stream, and its unfinished frame is kept. -/
theorem reach_decoded {s : State} (h : machine.Reach (fun s i => undisturbed s i = true) s) :
    Decoded s := by
  refine h.invariant ?_ ?_
  · refine ⟨fun _ => rfl, fun c hun => ?_, fun c _ hun => ?_⟩
    · exact Bool.noConfusion hun
    · exact Bool.noConfusion hun
  · intro s i s' hreach hinv hok hstep
    exact State.decoded_step hinv (reach_allocated hreach) hok hstep

/-! ## What is queued for a frame -/

/-- A call about a frame has the event for its header and its payload as the data, or it reports
    a reply that nobody waits for. -/
def PendingCall.HandsOver (p : PendingCall) : Prop :=
  ∀ a sid h payload context, p.cause = .frame a sid h payload context →
    match context with
    | none => h.kind = .reply ∧ p.event = .error
    | some _ => (∃ uninit, State.eventFor h uninit = some p.event) ∧
        p.data.map MsgData.bytes = some payload

/-- All calls that were queued about frames fit. -/
def HandsOver (s : State) : Prop := ∀ p, Obs.queued p ∈ s.trace → p.HandsOver

namespace State

variable {s₀ s s' : State} {i : Input} {c : ConnId}

/-- A call that no frame caused has nothing to hand over. -/
private theorem handsOver_of_cause {p : PendingCall}
    (h : ∀ a sid h payload context, p.cause ≠ .frame a sid h payload context) : p.HandsOver :=
  fun a sid hd payload context hcause => absurd hcause (h a sid hd payload context)

/-- An observation that is no call, or a call that hands over its frame, keeps that all do. -/
private theorem handsOver_log (h : HandsOver s) {o : Obs} (ho : ∀ p, o = .queued p → p.HandsOver)
    (htrace : s'.trace = o :: s.trace) : HandsOver s' := by
  intro p hp
  rw [htrace] at hp
  rcases List.mem_cons.mp hp with heq | hin
  · exact ho p heq.symm
  · exact h p hin

/-- An observation that is no queued call keeps what is handed over. -/
private theorem handsOver_other (h : HandsOver s) {o : Obs} (ho : o.isQueued = false)
    (htrace : s'.trace = o :: s.trace) : HandsOver s' := by
  refine handsOver_log h (fun p heq => ?_) htrace
  rw [heq] at ho
  exact Bool.noConfusion ho

/-- So does a queued call that hands over the payload of its frame. -/
private theorem handsOver_queue (h : HandsOver s) {p : PendingCall} (hp : p.HandsOver)
    (htrace : s'.trace = .queued p :: s.trace) : HandsOver s' :=
  handsOver_log h (fun _ heq => Obs.queued.inj heq ▸ hp) htrace

/-- Early effects queue no frames. -/
private theorem handsOver_early (h : HandsOver s) (heffect : Early s₀ i s s') : HandsOver s' := by
  cases heffect with
  | kernel | leak | close | poll | buffer | unflag => exact h
  | note o ho => exact handsOver_other h (Obs.isQueued_of_isNote ho) rfl
  | @header c r hd => exact handsOver_other (o := .header c hd) h rfl rfl
  | ready => exact handsOver_queue h (handsOver_of_cause fun _ _ _ _ _ => Cause.noConfusion) rfl
  | error => exact handsOver_queue h (handsOver_of_cause fun _ _ _ _ _ => Cause.noConfusion) rfl

/-- Every effect hands over what it has. -/
private theorem handsOver_effect (h : HandsOver s) (heffect : Effect s₀ i s s') : HandsOver s' := by
  cases heffect with
  | early hearly => exact handsOver_early h hearly
  | @oneWay c r => exact handsOver_other (o := .oneWay c) h rfl rfl
  | opened => exact handsOver_other (o := .opened s.nextConn) h rfl rfl
  | @datagram c r d =>
    exact handsOver_other (o := .datagram c ⟨d.ip, d.port, .udp⟩ d.bytes) h rfl rfl
  | listening => exact handsOver_queue h (handsOver_of_cause fun _ _ _ _ _ => Cause.noConfusion) rfl
  | context | address | swap | phase => exact h
  | @get c payload context now w sid =>
    exact handsOver_other (o := .got c sid (s.status sid).nextReplyId context true) h rfl rfl
  | @failedGet c payload context now w sid =>
    exact handsOver_other (o := .got c sid (s.status sid).nextReplyId context false) h rfl rfl
  | expire => exact handsOver_queue h (handsOver_of_cause fun _ _ _ _ _ => Cause.noConfusion) rfl
  | removal =>
    obtain ⟨index, heq⟩ := removalPass_eq s
    rw [heq]
    exact h
  | @call call rest junk =>
    rw [makeCall_eq]
    exact handsOver_other (o := .called (s.loaded call junk) call) h rfl rfl
  | finish =>
    rw [finishCall_eq]
    exact h

/-- A message that is handed over has the event of its header. -/
private theorem handsOver_frame {c : ConnId} {event : Event} {data : MsgData} {toFree : ToFree}
    {m : Message} {context : Ptr} {a : Address} {uninit : Event}
    (hevent : eventFor m.header uninit = some event) (hbytes : data.bytes = m.data.bytes) :
    (⟨c, event, some data, toFree, .frame a m.status m.header m.data.bytes
      (some context)⟩ : PendingCall).HandsOver := by
  intro a sid hd payload context hcause
  injection hcause with _ _ hheader hpayload hcontext
  subst hcontext hheader hpayload
  exact ⟨⟨uninit, hevent⟩, congrArg some hbytes⟩

/-- So does the last effect of a step. -/
private theorem handsOver_final (h : HandsOver s) (hfinal : Final s₀ i s s') : HandsOver s' := by
  cases hfinal with
  | handled _ hevent => exact handsOver_queue h (handsOver_frame hevent rfl) rfl
  | matched _ hevent _ _ _ _ hbytes => exact handsOver_queue h (handsOver_frame hevent hbytes) rfl
  | unmatched _ hkind =>
    refine handsOver_queue h ?_ rfl
    intro a sid hd payload context hcause
    injection hcause with _ _ hheader _ hcontext
    subst hcontext hheader
    exact ⟨hkind, rfl⟩
  | @drop c event =>
    exact handsOver_queue h (handsOver_of_cause fun _ _ _ _ _ => Cause.noConfusion)
      (localDisconnect_trace s c event)
  | refuse => exact handsOver_queue h (handsOver_of_cause fun _ _ _ _ _ => Cause.noConfusion) rfl
  | @fail k msg =>
    have hopened : HandsOver (s.allocConn k) :=
      handsOver_other (s := s) (o := .opened s.nextConn) h rfl rfl
    exact handsOver_queue hopened (handsOver_of_cause fun _ _ _ _ _ => Cause.noConfusion) rfl

end State

/-- In every run each queued call hands over the payload of its frame. -/
theorem reach_handsOver {ok : State → Input → Prop} {s : State} (h : machine.Reach ok s) :
    HandsOver s := by
  refine reach_invariant HandsOver ?_ ?_ ?_ h
  · exact fun p hp => absurd hp List.not_mem_nil
  · exact fun _ _ _ hinv heffect => State.handsOver_effect hinv heffect
  · exact fun _ _ _ hinv hfinal => State.handsOver_final hinv hfinal

/-! ## Messages of a conn -/

/-- In runs that leave the messages of other conns alone, the messages that were queued for a conn
    are the frames of its own stream, and every call about a frame has the event of its header
    and the frame's payload. -/
theorem streams_decoded {s : State} (h : machine.Reach (fun s i => undisturbed s i = true) s) :
    (∀ c, tcpMessages s.trace c = messagesIn (decoded s.trace c).frames) ∧ HandsOver s := by
  refine ⟨fun c => ?_, reach_handsOver h⟩
  have hmessages := (reach_decoded h).messages c
  rwa [List.append_nil] at hmessages

/-! ## Two connections -/

/-- A second `msg_connect`, to a port of the same host, which gets the socket 4. -/
def connectAgain (port : Char) : Input :=
  .app (.connect ['t', 'c', 'p', ':', '/', '/', '1', '.', '2', '.', '3', '.', '4', ':', '8', port]
    0 null { socket := .ok 4 })

/-- Two connections. On the first the header and one of two bytes of a message arrive, on the
    second a whole message; the first is read. -/
def halfAndWhole (port : Char) : List Input :=
  connectRun ++ [connectAgain port, .env (.arrive 3 (setHeader .oneWay 0 2 ++ [65])),
    .env (.arrive 4 (setHeader .oneWay 0 1 ++ [66])),
    .runloop (.ready [{ pollin := true }, { pollin := true }]), .visit none,
    .read { peek := .upTo 8, body := .upTo 1 }, .visit none]

/-- With connections to two ports, the message of the second conn arrives, and the other stays
    unfinished. -/
theorem streams_decoded_apart :
    ∃ s, machine.Reach (fun s i => undisturbed s i = true) s ∧ unfinished s.trace 0 = true ∧
      tcpMessages s.trace 1 = [(⟨MsgType.oneWay.code, 0, 1⟩, [some 66])] ∧
        (tcpMessages s.trace 1 = messagesIn (decoded s.trace 1).frames ∧ HandsOver s) := by
  obtain ⟨s, hreach, hview⟩ := machine.exists_reach_of_run undisturbed (fun _ _ h => h)
    (halfAndWhole '1' ++ [.read { peek := .upTo 8, body := .upTo 1 }])
    (fun s => (unfinished s.trace 0, tcpMessages s.trace 1))
    (true, [(⟨MsgType.oneWay.code, 0, 1⟩, [some 66])]) (by decide +kernel)
  obtain ⟨hunfinished, hmessages⟩ := Prod.mk.inj hview
  have hall := streams_decoded hreach
  exact ⟨s, hreach, hunfinished, hmessages, hall.1 1, hall.2⟩

/-- With two connections to one port, the first byte on the second conn ends the message of the
    first, and this message is queued for the second conn. Without the bytes on the first conn the
    same nine bytes are another message. -/
theorem streams_not_decoded :
    ∃ s s', machine.Reach (fun _ _ => True) s ∧ machine.Reach (fun _ _ => True) s' ∧
      (s.conn 1).protocolType = .tcp ∧ (s'.conn 1).protocolType = .tcp ∧
        stream s.trace 1 = stream s'.trace 1 ∧
          tcpMessages s.trace 1 = [(⟨MsgType.oneWay.code, 0, 2⟩, [some 65, some 0])] ∧
            tcpMessages s'.trace 1 = [(⟨MsgType.oneWay.code, 0, 1⟩, [some 66])] := by
  obtain ⟨s, hreach, hview⟩ := machine.exists_reach_of_run (P := fun _ _ => True)
    (fun _ _ => true) (fun _ _ _ => trivial)
    (halfAndWhole '0' ++ [.read { body := .upTo 1 }, .read { peek := .upTo 8 }])
    (fun s => ((s.conn 1).protocolType, stream s.trace 1, tcpMessages s.trace 1))
    (.tcp, (setHeader .oneWay 0 1 ++ [66]).map some,
      [(⟨MsgType.oneWay.code, 0, 2⟩, [some 65, some 0])]) (by decide +kernel)
  obtain ⟨s', hreach', hview'⟩ := machine.exists_reach_of_run (P := fun _ _ => True)
    (fun _ _ => true) (fun _ _ _ => trivial)
    (connectRun ++ [connectAgain '0', .env (.arrive 4 (setHeader .oneWay 0 1 ++ [66])),
      .runloop (.ready [{}, { pollin := true }]), .visit none, .visit none,
      .read { peek := .upTo 8, body := .upTo 1 }])
    (fun s => ((s.conn 1).protocolType, stream s.trace 1, tcpMessages s.trace 1))
    (.tcp, (setHeader .oneWay 0 1 ++ [66]).map some,
      [(⟨MsgType.oneWay.code, 0, 1⟩, [some 66])]) (by decide +kernel)
  simp only [Prod.mk.injEq] at hview hview'
  exact ⟨s, s', hreach, hreach', hview.1, hview'.1, hview.2.1.trans hview'.2.1.symm, hview.2.2,
    hview'.2.2⟩

end Msgbox
