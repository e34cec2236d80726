import Mathlib.Data.List.Forall2
import Mathlib.Data.List.Perm.Subperm
import Msgbox.Spec.Peers
import Msgbox.Spec.Received

/-!
# Datagrams over a network

A udp conn, and any number of processes that send datagrams. The network between them loses
datagrams, hands them on in any order, and may copy them. What the conn's callback is handed are
messages that were sent, with their own data; and if the network copies nothing, no message is
handed over more often than it was sent.

## Key results

- `Drawn`: every message that is queued for a udp conn uses up one datagram
- `Sender`: a process with a udp conn, and what it has sent through it
- `datagrams_delivered`: what is queued was sent
-/

namespace Msgbox

open State

/-! ## What is queued -/

/-- The event and the data of a call that hands over a message of the conn. -/
def PendingCall.delivers (c : ConnId) (p : PendingCall) :
    Option (Event × Option (List (Option UInt8))) :=
  if p.conn = c ∧ p.event.isMessage = true then some (p.event, p.data.map MsgData.bytes) else none

/-- The messages that were queued for the conn, in this order. -/
def deliveredTo (t : List Obs) (c : ConnId) : List (Event × Option (List (Option UInt8))) :=
  (queuedCalls t).filterMap (PendingCall.delivers c)

/-- A message is what a datagram says. -/
def SaidBy (bytes : List UInt8) (x : Event × Option (List (Option UInt8))) : Prop :=
  (∃ uninit, eventFor (decodeHeader bytes) uninit = some x.1) ∧
    x.2 = some (datagramBytes (decodeHeader bytes).numBytes.toNat (bytes.drop headerLen))

/-- Every message that was queued for the conn is what a datagram of its own says, and these were
    taken in the same order. -/
def Drawn (c : ConnId) (s : State) : Prop :=
  ∃ used, used.Sublist ((takenFrom s.trace c).map Prod.snd) ∧
    List.Forall₂ SaidBy used (deliveredTo s.trace c)

/-- The conn, once it is there, is a udp conn. -/
def staysUdp (c : ConnId) (s : State) (_ : Input) : Bool :=
  decide (s.nextConn ≤ c) || decide ((s.conn c).protocolType = .udp)

/-- What is delivered grows by the calls queued. -/
private theorem deliveredTo_append {t t' : List Obs} {ps : List PendingCall} (c : ConnId)
    (h : queuedCalls t' = queuedCalls t ++ ps) :
    deliveredTo t' c = deliveredTo t c ++ ps.filterMap (PendingCall.delivers c) := by
  rw [deliveredTo, h, List.filterMap_append]
  rfl

/-- Only message events deliver. -/
private theorem delivers_of_event {p : PendingCall} (h : p.event.isMessage = false) (c : ConnId) :
    p.delivers c = none := by
  rw [PendingCall.delivers, if_neg fun hp => Bool.noConfusion (hp.2.symm.trans h)]

/-- A call that is no message delivers nothing. -/
private theorem delivers_of_not_isMessage {p : PendingCall} (h : ¬ p.IsMessage) (c : ConnId) :
    p.delivers c = none :=
  delivers_of_event (Bool.eq_false_iff.mpr fun hevent => h (.inl hevent)) c

namespace State

variable {s₀ s s' : State} {i : Input} {c : ConnId}

/-- The calls that are queued are not about messages of the conn. -/
private theorem deliveredTo_quiet {t t' : List Obs} {ps : List PendingCall}
    (h : queuedCalls t' = queuedCalls t ++ ps) (hps : ∀ p ∈ ps, p.delivers c = none) :
    deliveredTo t' c = deliveredTo t c := by
  rw [deliveredTo_append c h, List.filterMap_eq_nil_iff.mpr hps, List.append_nil]

/-- A queued call without a message adds nothing. -/
private theorem delivered_queued {p : PendingCall} (htrace : s'.trace = .queued p :: s.trace)
    (hp : p.delivers c = none) : deliveredTo s'.trace c = deliveredTo s.trace c := by
  rw [htrace]
  apply deliveredTo_quiet (queuedCalls_queued p s.trace)
  intro p' hp'
  rw [List.mem_singleton.mp hp']
  exact hp

/-- Neither does anything observed that is no queued call. -/
private theorem delivered_log {o : Obs} (ho : o.queuedCall = none)
    (htrace : s'.trace = o :: s.trace) :
    deliveredTo s'.trace c = deliveredTo s.trace c := by
  rw [htrace, deliveredTo, queuedCalls_cons ho]
  rfl

/-- No effect before the last one of a step delivers. -/
private theorem delivered_effect (heffect : Effect s₀ i s s') :
    deliveredTo s'.trace c = deliveredTo s.trace c := by
  cases heffect with
  | early hearly =>
    cases hearly with
    | note o hnote => exact delivered_log (calls_of_isNote hnote).1 rfl
    | @header c' r hd => exact delivered_log (o := .header c' hd) rfl rfl
    | ready => exact delivered_queued rfl (delivers_of_event rfl c)
    | error => exact delivered_queued rfl (delivers_of_event rfl c)
    | _ => rfl
  -- A datagram that was taken is recorded before its call is queued.
  | @oneWay c' => exact delivered_log (o := .oneWay c') rfl rfl
  | @datagram c' r d =>
    exact delivered_log (o := .datagram c' ⟨d.ip, d.port, .udp⟩ d.bytes) rfl rfl
  | opened => exact delivered_log (o := .opened s.nextConn) rfl rfl
  | listening => exact delivered_queued rfl (delivers_of_event rfl c)
  | @get c' payload context now w sid =>
    exact delivered_log (o := .got c' sid (s.status sid).nextReplyId context true) rfl rfl
  | @failedGet c' payload context now w sid =>
    exact delivered_log (o := .got c' sid (s.status sid).nextReplyId context false) rfl rfl
  | expire => exact delivered_queued rfl (delivers_of_event rfl c)
  | removal =>
    obtain ⟨index, heq⟩ := removalPass_eq s
    rw [heq]
  | call =>
    rw [makeCall_eq]
    exact delivered_log rfl rfl
  | finish => rw [finishCall_eq]
  | _ => rfl

/-- Only a read of the conn queues messages for it. -/
private theorem delivered_final (hnot : ∀ r, ¬ i.Reads s₀ c r) (hfinal : Final s₀ i s s') :
    deliveredTo s'.trace c = deliveredTo s.trace c := by
  have hother : ∀ {c' : ConnId} {r : ReadIn} {event : Event} {data : Option MsgData}
      {toFree : ToFree} {cause : Cause}, i.Reads s₀ c' r →
      PendingCall.delivers c ⟨c', event, data, toFree, cause⟩ = none := by
    intro c' r event data toFree cause hreads
    apply if_neg
    rintro ⟨rfl, -⟩
    exact hnot r hreads
  cases hfinal with
  | handled hreads => exact delivered_queued rfl (hother hreads)
  | matched hreads => exact delivered_queued rfl (hother hreads)
  | unmatched hreads => exact delivered_queued rfl (hother hreads)
  | @drop c' event ph _ _ hevent =>
    apply delivered_queued (localDisconnect_trace s c' event)
    apply delivers_of_event
    show event.isMessage = false
    cases event <;> first | rfl | exact Bool.noConfusion hevent
  | refuse => exact delivered_queued rfl (delivers_of_event rfl c)
  | fail =>
    -- The error of a conn that could not be opened, which is no message.
    have hopened : deliveredTo (.opened s.nextConn :: s.trace) c = deliveredTo s.trace c := by
      rw [deliveredTo, queuedCalls_cons rfl]
      rfl
    rw [← hopened]
    apply deliveredTo_quiet (queuedCalls_queued _ _)
    intro p hp
    rw [List.mem_singleton.mp hp]
    exact delivers_of_event rfl c

/-- A step in which `c` does not read delivers nothing to it. -/
private theorem delivered_other (hnot : ∀ r, ¬ i.Reads s c r) (hstep : step s i = some s') :
    deliveredTo s'.trace c = deliveredTo s.trace c := by
  obtain ⟨s₁, heffects, hlast⟩ := step_effects hstep
  -- The effects before the last one queue no messages, whoever is read.
  have h₁ : deliveredTo s₁.trace c = deliveredTo s.trace c := by
    clear hlast
    induction heffects with
    | refl => rfl
    | tail _ heffect ih => exact (delivered_effect heffect).trans ih
  rcases hlast with rfl | hfinal
  · exact h₁
  · exact (delivered_final hnot hfinal).trans h₁

/-! ## Reading -/

/-- More may be taken than is used. -/
private theorem drawn_same (h : Drawn c s) (hsuffix : s.trace <:+ s'.trace)
    (hdelivered : deliveredTo s'.trace c = deliveredTo s.trace c) : Drawn c s' := by
  obtain ⟨used, hused, hsaid⟩ := h
  refine ⟨used, hused.trans ?_, hdelivered ▸ hsaid⟩
  obtain ⟨os, hos⟩ := hsuffix
  apply List.Sublist.map
  rw [← hos, takenFrom, takenFrom, List.filterMap_append, List.reverse_append]
  exact List.sublist_append_left _ _

/-- A read step observes what `read_from_socket` does. -/
private theorem trace_read {r : ReadIn} (hreads : (Input.read r).Reads s c r)
    (hstep : step s (.read r) = some s') : s'.trace = (s.readFromSocket c r).1.trace := by
  obtain ⟨index, hphase, hlisted⟩ := hreads.listed
  obtain ⟨index', c', hphase', hlisted', -, -, -, rfl⟩ := step_read hstep
  obtain rfl := Phase.reading.inj (hphase.symm.trans hphase')
  obtain rfl := Option.some.inj (hlisted.symm.trans hlisted')
  split
  · rfl
  · rfl

/-- A call that takes a datagram records it. -/
private theorem taken_of_takenDatagram {r : ReadIn} {d : Datagram}
    (hudp : (s.conn c).protocolType = .udp) (h : s.takenDatagram c r = some d) :
    takenFrom (s.readFromSocket c r).1.trace c = takenFrom s.trace c ++ [d.taken] := by
  obtain ⟨hpeek, hrecv, hkind, hlen⟩ := takenDatagram_some h
  -- `recvfrom` has not failed, so the datagram was the first one of the socket.
  have hqueue : r.recvfrom = none ∧ ∃ rest, s.socketOf c = some (.dgram (d :: rest)) := by
    unfold recvfrom at hrecv
    split at hrecv
    · cases hrecv
    · rename_i d' rest hnone hsocket
      obtain rfl := Except.ok.inj hrecv
      exact ⟨hnone, rest, hsocket⟩
    · cases hrecv
    · cases hrecv
  obtain ⟨hnone, rest, hqueue⟩ := hqueue
  -- There is a datagram, so `recv` has peeked at it unless it failed.
  have hupTo : ∃ n, r.peek = .upTo n := by
    rw [peekHeader_dgram hqueue] at hpeek
    cases hr : r.peek with
    | upTo n => exact ⟨n, rfl⟩
    | fail e =>
      rw [hr] at hpeek
      cases e <;> exact Peeked.noConfusion hpeek
  exact (readFromSocket_took hudp hqueue (takes_iff.mpr ⟨hupTo, hlen, hkind, hnone⟩)).taken

/-- A read of a udp conn queues at most the message of the datagram that it takes. -/
private theorem drawn_read {r : ReadIn} (h : Drawn c s) (hreads : (Input.read r).Reads s c r)
    (hudp : (s.conn c).protocolType = .udp) (hstep : step s (.read r) = some s') : Drawn c s' := by
  have htrace := trace_read hreads hstep
  have hsuffix := suffix_step hstep
  cases htaken : s.takenDatagram c r with
  | none =>
    -- Without a datagram no message is queued, only an error or the end of the conn.
    obtain ⟨new, hnew, hquiet⟩ := queued_of_not_taken hudp htaken
    apply drawn_same h hsuffix
    rw [htrace]
    exact deliveredTo_quiet hnew fun p hp => delivers_of_not_isMessage (hquiet p hp) c
  | some d =>
    obtain ⟨new, p, hnew, hquiet, hp⟩ := queued_of_taken hudp htaken
    rw [← htrace, ← List.append_assoc] at hnew
    have hnone : new.filterMap (PendingCall.delivers c) = [] :=
      List.filterMap_eq_nil_iff.mpr fun p' hp' => delivers_of_not_isMessage (hquiet p' hp').2 c
    have hdelivered : deliveredTo s'.trace c = deliveredTo s.trace c ++ (p.delivers c).toList := by
      rw [deliveredTo, hnew, List.filterMap_append, List.filterMap_append, hnone, List.append_nil]
      cases hcase : p.delivers c <;> simp [deliveredTo, hcase]
    cases hcase : p.delivers c with
    | none =>
      -- It is not a message that is handed over, such as the error for an unmatched reply.
      apply drawn_same h hsuffix
      rw [hdelivered, hcase]
      exact List.append_nil _
    | some x =>
      -- One more message, and one more datagram.
      obtain ⟨⟨-, hevent⟩, heq⟩ := Option.ite_none_right_eq_some.mp hcase
      obtain rfl := Option.some.inj heq
      split at hp
      · exact absurd (.inl hevent) (not_isMessage_of_unrecognized hp)
      · obtain ⟨used, hused, hsaid⟩ := h
        refine ⟨used ++ [d.bytes], ?_, ?_⟩
        · rw [htrace, taken_of_takenDatagram hudp htaken, List.map_append]
          exact hused.append (List.Sublist.refl _)
        · rw [hdelivered, hcase]
          exact List.rel_append hsaid (.cons ⟨⟨_, hp.1⟩, hp.2.2⟩ .nil)

/-- No step queues a message that was not drawn from a datagram. -/
private theorem drawn_step (h : Drawn c s) (hs : Allocated s) (hok : staysUdp c s i = true)
    (hstep : step s i = some s') : Drawn c s' := by
  -- Only a read of the conn matters, and the conn that is read is there.
  by_cases hreads : ∃ r, i.Reads s c r
  · obtain ⟨r, hreads⟩ := hreads
    simp only [staysUdp, Bool.or_eq_true, decide_eq_true_eq] at hok
    have hudp := hok.resolve_left (Nat.not_le.mpr (hreads.allocated hs))
    obtain rfl := hreads.input
    exact drawn_read h hreads hudp hstep
  · apply drawn_same h (suffix_step hstep)
    exact delivered_other (fun r hr => hreads ⟨r, hr⟩) hstep

end State

/-- In every run the messages queued for a udp conn are drawn from the datagrams that it took. -/
theorem reach_drawn {c : ConnId} {s : State}
    (h : machine.Reach (fun s i => staysUdp c s i = true) s) : Drawn c s := by
  apply h.invariant
  · exact ⟨[], List.nil_sublist _, .nil⟩
  · intro s i s' hreach hinv hok hstep
    exact State.drawn_step hinv (reach_allocated hreach) hok hstep

/-! ## Sending -/

/-- What the step sends through the conn, if anything, is a datagram that is not longer than a
    header can say. -/
def sendsDatagrams (c : ConnId) (s : State) (i : Input) : Bool :=
  match outgoing s i with
  | some (c', frame, _) =>
    decide (c' ≠ c) || decide ((s.conn c).protocolType = .udp) &&
      decide (frame.length < headerLen + 4294967296)
  | none => true

/-- A process with a udp conn, and its run. -/
structure Sender where
  conn : ConnId
  run : List (State × Input)
  state : State
  steps : machine.Steps run state
  udp : ∀ x ∈ run, sendsDatagrams conn x.1 x.2 = true

/-- The event and the data that a message that was sent is to be handed over with; a close has
    none. -/
def SentMessage.delivered (m : SentMessage) : Option (Event × Option (List (Option UInt8))) :=
  m.kind.event.map fun event => (event, some (m.payload.map some))

/-- A datagram is accepted as a whole or not at all. -/
private theorem accepted_datagram {s : State} {c : ConnId} (frame : List UInt8) (w : SendIn)
    (hudp : (s.conn c).protocolType = .udp) :
    (s.sendOutcome c frame w).1 = [] ∨ (s.sendOutcome c frame w).1 = frame := by
  have hnot : (s.conn c).protocolType ≠ .tcp := by
    rw [hudp]
    exact Protocol.noConfusion
  unfold sendOutcome
  split
  · exact .inl rfl
  · rw [if_neg hnot]
    split
    · exact .inr rfl
    · exact .inl rfl

/-- The message fits its header and has a kind that is handed over, or it is a close. -/
def SentMessage.proper (m : SentMessage) : Prop :=
  m.sane = true ∧ (m.kind.event.isSome = true ∨ m.kind = .close)

/-- What the public calls send is proper as long as its length fits 32 bits. -/
private theorem proper_of_sending {c : ConnId} {s : State} {i : Input} {m : SentMessage}
    (h : sending c s i = some m) (hlen : m.frame.length < headerLen + 4294967296) : m.proper := by
  rw [SentMessage.length_frame] at hlen
  have hfits : m.payload.length < 4294967296 := by omega
  rcases sending_cases h with ⟨out, -, -, hkind⟩ | ⟨_, _, _, _, -, -, -, hkind⟩ | ⟨_, -, rfl⟩
  · refine ⟨?_, .inl ?_⟩
    · rw [SentMessage.sane, hkind]
      split <;> simp [hfits]
    · rw [hkind]
      split <;> rfl
  · refine ⟨?_, .inl ?_⟩
    · rw [SentMessage.sane, hkind]
      simp [hfits]
    · rw [hkind]
      rfl
  · exact ⟨by decide, .inr rfl⟩

/-- What a run writes through a udp conn are the frames of messages. -/
private theorem writes_datagrams {run : List (State × Input)} {s : State} {c : ConnId}
    (h : machine.Steps run s) (hok : ∀ x ∈ run, sendsDatagrams c x.1 x.2 = true) :
    writes s.trace c = (transmitted c run).map SentMessage.frame ∧
      ∀ m ∈ transmitted c run, m.proper := by
  induction h with
  | init => exact ⟨rfl, fun m hm => absurd hm List.not_mem_nil⟩
  | @step run s s' i _ hstep ih =>
    obtain ⟨hwrites, hproper⟩ := ih fun x hx => hok x (List.mem_cons_of_mem _ hx)
    have hudp := hok (s, i) List.mem_cons_self
    rw [State.writes_outgoing hstep, transmitted_cons, hwrites]
    cases htransmits : transmits c s i with
    | some m =>
      -- The frame was accepted, and is a datagram of its own.
      obtain ⟨hsending, hall⟩ := Option.filter_eq_some_iff.mp htransmits
      have hall := of_decide_eq_true hall
      obtain ⟨w, hout⟩ := outgoing_of_sending hsending
      simp only [sendsDatagrams, hout, ne_eq, not_true_eq_false, decide_false, Bool.false_or,
        Bool.and_eq_true, decide_eq_true_eq] at hudp
      rw [hall, List.filter_cons_of_pos (by simpa using m.frame_ne_nil)]
      refine ⟨by simp, fun m' hm' => ?_⟩
      rcases List.mem_append.mp hm' with hold | hnew
      · exact hproper m' hold
      · rw [Option.toList_some, List.mem_singleton] at hnew
        exact hnew ▸ proper_of_sending hsending hudp.2
    | none =>
      -- Either nothing was sent, or the datagram was refused.
      have hnone : acceptedOf c s i = [] := by
        cases hsending : sending c s i with
        | none => exact acceptedOf_of_not_sending hsending
        | some m =>
          obtain ⟨w, hout⟩ := outgoing_of_sending hsending
          simp only [sendsDatagrams, hout, ne_eq, not_true_eq_false, decide_false, Bool.false_or,
            Bool.and_eq_true, decide_eq_true_eq] at hudp
          rw [acceptedOf_outgoing hout]
          apply (accepted_datagram m.frame w hudp.1).resolve_right
          intro hall
          rw [transmits_of_sending hsending,
            if_pos ((acceptedOf_outgoing hout).trans hall)] at htransmits
          exact absurd htransmits (Option.some_ne_none m)
      rw [hnone]
      simpa using hproper

namespace Sender

/-- The messages that the process has sent. -/
def sent (x : Sender) : List SentMessage := transmitted x.conn x.run

/-- The datagrams that it has given to the network. -/
def datagrams (x : Sender) : List (List UInt8) := writes x.state.trace x.conn

/-- The datagrams of the senders are the frames of what they sent. -/
private theorem datagrams_eq (senders : List Sender) :
    senders.flatMap datagrams = (senders.flatMap sent).map SentMessage.frame := by
  rw [List.map_flatMap]
  congr 1
  funext x
  exact (writes_datagrams x.steps x.udp).1

/-- Every message sent is proper. -/
private theorem proper_of_mem {senders : List Sender} {m : SentMessage}
    (hm : m ∈ senders.flatMap sent) :
    m.proper := by
  obtain ⟨x, -, hm⟩ := List.mem_flatMap.mp hm
  exact (writes_datagrams x.steps x.udp).2 m hm

end Sender

/-! ## Main result -/

/-- What a datagram says, if its type has an event. -/
def said (bytes : List UInt8) : Option (Event × Option (List (Option UInt8))) :=
  (decodeHeader bytes).kind.event.map fun event =>
    (event, some (datagramBytes (decodeHeader bytes).numBytes.toNat (bytes.drop headerLen)))

/-- A datagram with the frame of a proper message says that message. -/
private theorem said_frame {m : SentMessage} (h : m.proper) : said m.frame = m.delivered := by
  have hbytes : datagramBytes (decodeHeader m.frame).numBytes.toNat (m.frame.drop headerLen) =
      m.payload.map some := by
    rw [SentMessage.drop_frame, datagramBytes_eq_iff, SentMessage.header_frame, UInt32.toNat_ofNat',
      Nat.mod_eq_of_lt (SentMessage.length_lt h.1)]
  rw [said, hbytes, SentMessage.kind_frame]
  rfl

/-- Messages that datagrams of the senders say. -/
private theorem eq_said {senders : List Sender} {used : List (List UInt8)}
    {xs : List (Event × Option (List (Option UInt8)))} (h : List.Forall₂ SaidBy used xs)
    (hused : ∀ bytes ∈ used, bytes ∈ (senders.flatMap Sender.sent).map SentMessage.frame) :
    xs = used.filterMap said := by
  induction h with
  | nil => rfl
  | @cons bytes x used xs hsaid _ ih =>
    have hrest := ih fun bytes hbytes => hused bytes (List.mem_cons_of_mem _ hbytes)
    obtain ⟨m, hm, rfl⟩ := List.mem_map.mp (hused _ List.mem_cons_self)
    obtain ⟨⟨uninit, hevent⟩, hdata⟩ := hsaid
    have hkind : (decodeHeader m.frame).kind.event = some x.1 := by
      apply eventFor_eq hevent
      rw [SentMessage.kind_frame]
      rcases (Sender.proper_of_mem hm).2 with hsome | hclose
      · exact hsome
      · -- A close has no event.
        have hopen := (eventFor_isSome _ uninit).mp (Option.isSome_of_eq_some hevent)
        rw [SentMessage.kind_frame] at hopen
        exact absurd hclose hopen
    have hx : said m.frame = some x := by
      rw [said, hkind, Option.map_some, ← hdata]
    rw [List.filterMap_cons_some hx, ← hrest]

/-- If all datagrams that are taken through a udp conn come from the senders, then every message
    that is queued for it was sent, and is queued with its own event and data. If besides no
    datagram is taken more often than it was sent, then no message is queued more often than it
    was sent. -/
theorem datagrams_delivered (senders : List Sender) {c : ConnId} {s : State}
    (h : machine.Reach (fun s i => staysUdp c s i = true) s) :
    ((∀ d ∈ takenFrom s.trace c, d.2 ∈ senders.flatMap Sender.datagrams) →
      ∀ x ∈ deliveredTo s.trace c,
        x ∈ (senders.flatMap Sender.sent).filterMap SentMessage.delivered) ∧
    (List.Subperm ((takenFrom s.trace c).map Prod.snd) (senders.flatMap Sender.datagrams) →
      List.Subperm (deliveredTo s.trace c)
        ((senders.flatMap Sender.sent).filterMap SentMessage.delivered)) := by
  obtain ⟨used, hused, hsaid⟩ := reach_drawn h
  -- What the datagrams of the senders say are their messages.
  have hsent : ((senders.flatMap Sender.sent).map SentMessage.frame).filterMap said =
      (senders.flatMap Sender.sent).filterMap SentMessage.delivered := by
    rw [List.filterMap_map]
    apply List.filterMap_congr
    intro m hm
    exact said_frame (Sender.proper_of_mem hm)
  rw [Sender.datagrams_eq, ← hsent]
  constructor
  · -- Datagrams may be copied: what is queued is what some of them say.
    intro htaken x hx
    have hall : ∀ bytes ∈ used, bytes ∈ (senders.flatMap Sender.sent).map SentMessage.frame := by
      intro bytes hbytes
      obtain ⟨d, hd, rfl⟩ := List.mem_map.mp (hused.subset hbytes)
      exact htaken d hd
    rw [eq_said hsaid hall] at hx
    obtain ⟨bytes, hbytes, hx⟩ := List.mem_filterMap.mp hx
    exact List.mem_filterMap.mpr ⟨bytes, hall bytes hbytes, hx⟩
  · -- No datagram is taken too often, and each is used at most once.
    intro htaken
    have hsub := hused.subperm.trans htaken
    rw [eq_said hsaid fun bytes hbytes => hsub.subset hbytes]
    obtain ⟨sent', hperm, hsub'⟩ := hsub
    exact ⟨sent'.filterMap said, hperm.filterMap said, hsub'.filterMap said⟩

/-- A process that sends a message of one byte, and one that listens. The network copies the
    datagram of the first one, so the second one reads the message twice. Before that it has read
    it once. -/
theorem datagrams_delivered_copied : ∃ (sender : Sender) (s s' : State),
    sender.sent = [⟨.oneWay, 0, [65]⟩] ∧
    deliveredTo s.trace 0 = [(.message, some [some 65])] ∧
    deliveredTo s'.trace 0 = [(.message, some [some 65]), (.message, some [some 65])] ∧
    List.Subperm (deliveredTo s.trace 0)
      (([sender].flatMap Sender.sent).filterMap SentMessage.delivered) ∧
    ∀ x ∈ deliveredTo s'.trace 0,
      x ∈ ([sender].flatMap Sender.sent).filterMap SentMessage.delivered := by
  obtain ⟨run, state, hsteps, hview⟩ := machine.exists_steps_of_run
    [.app (.connect ['u', 'd', 'p', ':', '/', '/', '1', '.', '2', '.', '3', '.', '4', ':', '8', '0']
      0 null { socket := .ok 3 }), .app (.send 0 [65] {})]
    (fun x => (x.1.all fun y => sendsDatagrams 0 y.1 y.2, transmitted 0 x.1, writes x.2.trace 0))
    (true, [⟨.oneWay, 0, [65]⟩], [messageDatagram.bytes]) (by decide +kernel)
  simp only [Prod.mk.injEq] at hview
  obtain ⟨hudp, hsent, hwrites⟩ := hview
  let sender : Sender := ⟨0, run, state, hsteps, fun x hx => List.all_eq_true.mp hudp x hx⟩
  have hdatagrams : [sender].flatMap Sender.datagrams = [messageDatagram.bytes] :=
    (List.flatMap_singleton _ _).trans hwrites
  obtain ⟨s, hs, hview⟩ := machine.exists_reach_of_run (staysUdp 0) (fun _ _ h => h)
    (listenRun ++ [.env (.datagram 3 messageDatagram)] ++ cycle [{ peek := .upTo 8 }, {}])
    (fun s => ((takenFrom s.trace 0).map Prod.snd, deliveredTo s.trace 0))
    ([messageDatagram.bytes], [(.message, some [some 65])]) (by decide +kernel)
  obtain ⟨htaken, hdelivered⟩ := Prod.mk.inj hview
  obtain ⟨s', hs', hview'⟩ := machine.exists_reach_of_run (staysUdp 0) (fun _ _ h => h)
    (listenRun ++ [.env (.datagram 3 messageDatagram), .env (.datagram 3 messageDatagram)] ++
      cycle [{ peek := .upTo 8 }, { peek := .upTo 8 }, {}])
    (fun s => ((takenFrom s.trace 0).map Prod.snd, deliveredTo s.trace 0))
    ([messageDatagram.bytes, messageDatagram.bytes],
      [(.message, some [some 65]), (.message, some [some 65])]) (by decide +kernel)
  obtain ⟨htaken', hdelivered'⟩ := Prod.mk.inj hview'
  refine ⟨sender, s, s', hsent, hdelivered, hdelivered', ?_, ?_⟩
  · apply (datagrams_delivered [sender] hs).2
    rw [htaken, hdatagrams]
  · apply (datagrams_delivered [sender] hs').1
    intro d hd
    have hmem := List.mem_map_of_mem (f := Prod.snd) hd
    rw [htaken', List.mem_cons, List.mem_singleton, or_self] at hmem
    rw [hdatagrams, hmem]
    exact List.mem_singleton_self _

end Msgbox
